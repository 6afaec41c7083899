import TextExtraction.TaskApi
import TextExtraction.TaskRefinement

/-!
# Responses of stored tasks

A response is built from what the store holds: the progress and the error of a row, the outcomes of its
items. Every stored task of a reachable system has a status response, since its only error is the one a
worker gave `fail_task` (`System.Reachable.faulted`); every finished one has a results response, when the
adapters answer what their protocols say (`Application.Conforms`).
-/

namespace TextExtraction

open Python Relational Transition

/-! ### The error of a task -/

/-- The column `task_error`: null, or what a worker wrote when it failed the task. -/
def TaskRow.Faulted {τ : Type} (row : TaskRow τ) (error : Option ItemError) : Prop :=
  match error with
  | none => row.taskErrorJson = none
  | some failure => row.status = .failed ∧ failure.code = "task_processing_failed" ∧
      ∃ j, canonicalJson (strDict failure.asdict) = .ok j ∧ row.taskErrorJson = some j

theorem TaskRow.Faulted.errorField {τ : Type} {row : TaskRow τ} {error : Option ItemError} (h : row.Faulted error) :
    Schemas.errorField (decode row.taskErrorJson) = some error := by
  cases error with
  | none =>
    have hnone : row.taskErrorJson = none := h
    rw [hnone]
    rfl
  | some failure =>
    obtain ⟨-, -, j, hj, hrow⟩ := h
    obtain ⟨hcode, hdetail, hsome⟩ := strItem_of_asdict hj
    rw [hrow, decode_some, Schemas.errorField, if_neg (by simp [hsome]), hcode, hdetail]

theorem Aggregate.Step.faulted {τ : Type} [LinearOrder τ] {a a' : Aggregate τ} {act : Action τ} (h : a.Step act a')
    (hact : ∀ w now ej, act = .abort w now ej → ∃ detail, canonicalJson (strDict (taskFailure detail)) = .ok ej)
    (hfault : ∃ error, a.row.Faulted error) : ∃ error, a'.row.Faulted error := by
  obtain ⟨error, hfault⟩ := hfault
  have hnone : a.row.status.isTerminal = false → a.row.taskErrorJson = none := by
    intro hrun
    cases error with
    | none => exact hfault
    | some failure =>
      rw [hfault.1] at hrun
      cases hrun
  have hrunning := h.not_terminal
  cases h with
  | take => exact ⟨error, hfault⟩
  | purge => exact ⟨none, rfl⟩
  | @abort w now ej how hrun =>
    obtain ⟨detail, hej⟩ := hact w now ej rfl
    exact ⟨some ⟨"task_processing_failed", detail⟩, rfl, rfl, ej, hej, rfl⟩
  | claim | renew | finalize =>
    rcases hrunning with hrun | ⟨now, hpurge, -⟩
    · exact ⟨none, hnone hrun⟩
    · cases hpurge

namespace System
variable {service : ExtractionTaskService} {s s' : System ℤ}

theorem Step.faulted {l : Label ℤ} (h : Step service s l s') (hinv : s.Inv service)
    (hs : ∀ id a, s.db.view id = some a → ∃ error, a.row.Faulted error) :
    ∀ id a, s'.db.view id = some a → ∃ error, a.row.Faulted error := by
  intro id a' hv'
  rcases h.affects hinv id with he | ⟨c, hmakes, haff⟩
  · rw [he] at hv'
    exact hs id a' hv'
  · rw [hv'] at haff
    generalize hv : s.db.view id = v at haff
    cases haff with
    | same => exact hs id a' hv
    | created => exact ⟨none, rfl⟩
    | stepped hstep hdoes =>
      refine hstep.faulted (fun w now ej hact => ?_) (hs id _ hv)
      subst hact
      cases hdoes with
      | abort hej =>
        cases hmakes
        exact ⟨_, hej⟩
    | purged => exact ⟨none, rfl⟩

/-- In every reachable system a task error is one that `fail_task` was given by a worker. -/
theorem Reachable.faulted (h : Reachable service s) {id : String} {a : Aggregate ℤ} (hv : s.db.view id = some a) :
    ∃ error, a.row.Faulted error := by
  obtain ⟨labels, h⟩ := h
  have hall : s.Inv service ∧ ∀ id a, s.db.view id = some a → ∃ error, a.row.Faulted error := by
    refine Run.invariant (P := fun s => s.Inv service ∧ ∀ id a, s.db.view id = some a → ∃ error, a.row.Faulted error)
      (fun s l s' hs hstep => ⟨hstep.inv hs.1, hstep.faulted hs.1 hs.2⟩) h ⟨inv_init, ?_⟩
    intro id a hv
    cases hv
  exact hall.2 id a hv

/-- In every reachable system the model of a submission is the one the catalog answered. -/
theorem Reachable.resolved (h : Reachable service s) {id : String} {sub : Submission ℤ} (hsub : s.accepted id = some sub) :
    service.extractionService.resolveModel sub.request = .ok sub.model := by
  obtain ⟨labels, h⟩ := h
  have hall : ∀ id sub, s.accepted id = some sub → service.extractionService.resolveModel sub.request = .ok sub.model := by
    refine Run.invariant (P := fun s => ∀ id sub, s.accepted id = some sub →
      service.extractionService.resolveModel sub.request = .ok sub.model) (fun s l s' hs hstep => ?_) h ?_
    · cases hstep with
      | @submit taskId ownerId request now =>
        intro id sub hsub
        by_cases hold : (s.submit service taskId ownerId request now).accepted id = s.accepted id
        · rw [hold] at hsub
          exact hs id sub hsub
        · rw [System.submit] at hsub hold
          cases hok : (service.submit taskId ownerId request now s.db).1 with
          | error error =>
            simp only [hok] at hold
            exact absurd trivial hold
          | ok task =>
            cases hmodel : service.extractionService.resolveModel request with
            | error error =>
              simp only [hok, hmodel] at hold
              exact absurd trivial hold
            | ok model =>
              simp only [hok, hmodel] at hsub hold
              by_cases hid : id = taskId
              · subst hid
                rw [Function.update_self] at hsub
                cases hsub
                exact hmodel
              · rw [Function.update_of_ne hid] at hold
                exact absurd rfl hold
      | _ => exact hs
    · intro id sub hsub
      cases hsub
  exact hall id sub hsub

end System

/-! ### Responses of stored tasks -/

/-- The response shows the task `uuid` as its row has it. -/
structure Schemas.TaskStatusResponse.Shows (response : Schemas.TaskStatusResponse ℤ) (uuid : Uuid) (row : TaskRow ℤ) :
    Prop where
  taskId : response.taskId = uuid
  status : response.status = row.status
  accepted : response.progress.accepted = row.acceptedCount
  processed : response.progress.processed = row.processedCount
  successful : response.progress.successful = row.successfulCount
  failed : response.progress.failed = row.failedCount
  createdAt : response.createdAt = row.createdAt
  updatedAt : response.updatedAt = row.updatedAt
  expiresAt : response.expiresAt = row.expiresAt
  error : row.Faulted response.error

/-- The response is the outcome, with its properties by name. -/
structure Schemas.ExtractionOutcome.Shows (optionalFloat : Value → Option (Option PyFloat))
    (response : Schemas.ExtractionOutcome) (outcome : TextExtraction.ExtractionOutcome) : Prop where
  sourceId : response.sourceId = outcome.sourceId
  status : response.status = outcome.status
  error : response.error = outcome.error
  properties : List.Forall₂ (fun p q => p.1 = .str q.1 ∧ q.2.value = p.2.value ∧
    q.2.inferenceStatus = p.2.inferenceStatus ∧ q.2.uncertainty.status = p.2.uncertainty.status ∧
    optionalFloat p.2.uncertainty.value = some q.2.uncertainty.value) outcome.properties response.properties

/-- A property the response schema accepts. -/
def Serializable (optionalFloat : Value → Option (Option PyFloat)) (p : Key × PropertyResult) : Prop :=
  (∃ name, p.1 = .str name) ∧
    ∃ value, optionalFloat p.2.uncertainty.value = some value ∧ value.all inUnit = true

section Serialize
variable {optionalFloat : Value → Option (Option PyFloat)}

theorem propertiesField_ok {properties : List (Key × PropertyResult)} (h : ∀ p ∈ properties, Serializable optionalFloat p) :
    ∃ fields, Schemas.propertiesField optionalFloat properties = some fields ∧
      List.Forall₂ (fun p q => p.1 = .str q.1 ∧ q.2.value = p.2.value ∧
        q.2.inferenceStatus = p.2.inferenceStatus ∧ q.2.uncertainty.status = p.2.uncertainty.status ∧
        optionalFloat p.2.uncertainty.value = some q.2.uncertainty.value) properties fields := by
  induction properties with
  | nil => exact ⟨[], rfl, .nil⟩
  | cons p properties ih =>
    obtain ⟨fields, hfields, hall⟩ := ih fun q hq => h q (by simp [hq])
    obtain ⟨⟨name, hname⟩, value, hvalue, hunit⟩ := h p (by simp)
    obtain ⟨key, result⟩ := p
    obtain rfl : key = .str name := hname
    have hvalidate : Schemas.PropertyResult.validate optionalFloat result =
        some ⟨result.value, result.inferenceStatus, ⟨value, result.uncertainty.status, hunit⟩⟩ := by
      unfold Schemas.PropertyResult.validate Schemas.UncertaintyResult.validate
      simp only [hvalue, hunit, dif_pos]
      rfl
    refine ⟨(name, ⟨result.value, result.inferenceStatus, ⟨value, result.uncertainty.status, hunit⟩⟩) :: fields, ?_,
      .cons ⟨rfl, rfl, rfl, rfl, hvalue⟩ hall⟩
    rw [Schemas.propertiesField, hvalidate, hfields]
    rfl

theorem outcomesField_ok {outcomes : List ExtractionOutcome}
    (h : ∀ o ∈ outcomes, ∀ p ∈ o.properties, Serializable optionalFloat p) :
    ∃ responses, Schemas.outcomesField optionalFloat outcomes = some responses ∧
      List.Forall₂ (fun o r => Schemas.ExtractionOutcome.Shows optionalFloat r o) outcomes responses := by
  induction outcomes with
  | nil => exact ⟨[], rfl, .nil⟩
  | cons o outcomes ih =>
    obtain ⟨responses, hresponses, hall⟩ := ih fun q hq => h q (by simp [hq])
    obtain ⟨fields, hfields, hshown⟩ := propertiesField_ok (h o (by simp))
    refine ⟨⟨o.sourceId, o.status, fields, o.error⟩ :: responses, ?_, .cons ⟨rfl, rfl, rfl, hshown⟩ hall⟩
    rw [Schemas.outcomesField, Schemas.ExtractionOutcome.validate, hfields, hresponses]
    rfl

end Serialize

namespace Application

theorem taskStatusResponse_ok (app : Application) {row : TaskRow ℤ} {task : ExtractionTaskRecord ℤ} {uuid : Uuid}
    (hid : row.taskId = uuid.text) (haccepted : 0 < row.acceptedCount) (hfault : ∃ error, row.Faulted error)
    (includePayload : Bool)
    (htask : task = row.record includePayload ∨ task = row.statusProjection.record includePayload) :
    ∃ response, app.taskStatusResponse task = .ok response ∧ response.Shows uuid row := by
  obtain ⟨error, hfault⟩ := hfault
  have hread : task.taskId = row.taskId ∧ task.error = decode row.taskErrorJson ∧ task.acceptedCount = row.acceptedCount ∧
      task.status = row.status ∧ task.processedCount = row.processedCount ∧ task.successfulCount = row.successfulCount ∧
      task.failedCount = row.failedCount ∧ task.createdAt = row.createdAt ∧ task.updatedAt = row.updatedAt ∧
      task.expiresAt = row.expiresAt := by
    rcases htask with rfl | rfl <;> exact ⟨rfl, rfl, rfl, rfl, rfl, rfl, rfl, rfl, rfl, rfl⟩
  obtain ⟨htaskId, herror, hcount, hstatus, hprocessed, hsuccessful, hfailed, hcreated, hupdated, hexpires⟩ := hread
  have huuid : Uuid.parse app.unicode task.taskId = some uuid := by
    rw [htaskId, hid, Uuid.parse_text]
  have hfield : Schemas.errorField task.error = some error := by
    rw [herror, hfault.errorField]
  have hpos : 1 ≤ task.acceptedCount := by
    rw [hcount]
    exact haccepted
  refine ⟨⟨uuid, task.status, ⟨task.acceptedCount, task.processedCount, task.successfulCount, task.failedCount, hpos⟩,
    task.createdAt, task.updatedAt, task.expiresAt, error⟩, ?_,
    ⟨rfl, hstatus, hcount, hprocessed, hsuccessful, hfailed, hcreated, hupdated, hexpires, hfault⟩⟩
  unfold taskStatusResponse
  simp only [huuid, hfield, hpos, dif_pos]

end Application

/-! ### Uncertainties -/

/-- `None`, or a float from 0 to 1. -/
def Probability (value : Value) : Prop := value = .none ∨ ∃ f, value = .float f ∧ inUnit f = true

theorem Probability.readsBack {v w : Value} (h : Probability v) (hback : ReadsBack v w) : Probability w := by
  have hjson : v.IsJson := by
    rcases h with rfl | ⟨f, rfl, hf⟩
    · exact trivial
    · show f ≠ .nan
      rintro rfl
      cases hf
  have hcanon : v.canon = v := by
    rcases h with rfl | ⟨f, rfl, -⟩
    · rw [Value.canon]
    · rw [Value.canon]
  rw [hback.canon hjson, hcanon]
  exact h

/-- What the application is told by the adapters behind it: a catalog that answers strings, an estimator that
answers probabilities, and pydantic, which takes `None` and floats as they are. -/
structure Application.Conforms (app : Application) : Prop where
  catalog : app.taskService.extractionService.modelCatalog.Resolves
  estimator : ∀ sourceId name value result,
    app.taskService.extractionService.uncertaintyEstimator.estimate sourceId name value = .ok result →
    Probability result.value
  optionalFloat_none : app.optionalFloat .none = some none
  optionalFloat_float : ∀ f, app.optionalFloat (.float f) = some (some f)

namespace Application.Conforms
variable {app : Application} {sub : Submission ℤ} {a : Aggregate ℤ}

theorem serializable (h : app.Conforms) {name : String} {result : PropertyResult}
    (hprob : Probability result.uncertainty.value) : Serializable app.optionalFloat (.str name, result) := by
  refine ⟨⟨name, rfl⟩, ?_⟩
  rcases hprob with hnone | ⟨f, hfloat, hf⟩
  · exact ⟨none, by rw [hnone, h.optionalFloat_none], rfl⟩
  · exact ⟨some f, by rw [hfloat, h.optionalFloat_float], hf⟩

theorem propertyResults (h : app.Conforms) {sourceId : String} {inferred : Mapping} {names : List Value}
    {built properties : List (Key × PropertyResult)} (hbuilt : ∀ p ∈ built, Probability p.2.uncertainty.value)
    (hok : app.taskService.extractionService.propertyResults sourceId inferred names built = .ok properties) :
    ∀ p ∈ properties, Probability p.2.uncertainty.value := by
  induction names generalizing built with
  | nil =>
    cases hok
    exact hbuilt
  | cons name names ih =>
    obtain ⟨found, -, hok⟩ := bind_eq_ok_iff.1 hok
    obtain ⟨result, hresult, hok⟩ := bind_eq_ok_iff.1 hok
    obtain ⟨key, -, hok⟩ := bind_eq_ok_iff.1 hok
    obtain ⟨uncertainty, hestimate, hpair⟩ := bind_eq_ok_iff.1 hresult
    cases hpair
    refine ih (forall_setItem (P := fun p : PropertyResult => Probability p.uncertainty.value) hbuilt ?_) hok
    exact h.estimator _ _ _ _ hestimate

/-- What a source gives can be shown. -/
theorem processed (h : app.Conforms) {source : SourceText} {o : ExtractionOutcome}
    (ho : app.taskService.extractionService.processSourceWithModel source.id source.text sub.propertyNames sub.model =
      .ok o) :
    (∀ p ∈ o.properties, Probability p.2.uncertainty.value) ∧ ∀ p ∈ o.properties, Serializable app.optionalFloat p := by
  rcases processSource_cases ho with ⟨properties, rfl, hproperties, hkeys⟩ | ⟨failure, rfl⟩
  · obtain ⟨inferred, -, hresults⟩ := bind_eq_ok_iff.1 hproperties
    have hprob := h.propertyResults (by simp) hresults
    refine ⟨hprob, fun p hp => ?_⟩
    have hmem : p.1 ∈ properties.map Prod.fst := List.mem_map_of_mem hp
    rw [hkeys] at hmem
    obtain ⟨name, -, hname⟩ := List.mem_map.1 hmem
    obtain ⟨key, result⟩ := p
    obtain rfl : Key.str name = key := hname
    exact h.serializable (hprob _ hp)
  · exact ⟨by simp, by simp⟩

/-- The outcome of a finished item can be shown. -/
theorem reports (h : app.Conforms) {source : SourceText} {i : ItemRow ℤ} {o : ExtractionOutcome}
    (hrec : Recorded app.taskService sub false source i) (hterm : i.status.isTerminal = true) (hreports : i.Reports o) :
    ∀ p ∈ o.properties, Serializable app.optionalFloat p := by
  cases hs : i.status with
  | queued | processing =>
    rw [hs] at hterm
    cases hterm
  | failed =>
    rw [(hreports.failed hs).2.1]
    intro p hp
    cases hp
  | completed =>
    obtain ⟨payload, j, hok, hj, hoj⟩ := hrec.completed hs rfl
    obtain ⟨properties, hprocess, hkeys, hpayload⟩ := payload_of_itemOutcome hok
    obtain ⟨items, restored, hload, -, -, -, hstored, hback⟩ :=
      storedItems_of_dumps hkeys sub.names_nodup hpayload hj
    obtain ⟨-, -, j', items', hoj', hload', hstored'⟩ := hreports.completed hs
    rw [hoj] at hoj'
    cases hoj'
    rw [hload] at hload'
    cases hload'
    obtain ⟨hprob, hserializable⟩ := h.processed hprocess
    rw [hstored'.unique hstored]
    intro r hr
    obtain ⟨p, hp, hpr⟩ := exists_right_of_forall₂ hback.flip hr
    obtain ⟨⟨name, hname⟩, -⟩ := hserializable p (mem_orderBy.1 hp)
    obtain ⟨key, result⟩ := r
    obtain rfl : key = .str name := hpr.1.symm.trans hname
    exact h.serializable ((hprob p (mem_orderBy.1 hp)).readsBack hpr.2.uncertainty)

/-- The model of the results is the one the catalog answered. -/
theorem model (h : app.Conforms) (hholds : sub.Holds app.taskService a) (hpurged : a.row.purgedAt = none)
    (hresolved : app.taskService.extractionService.resolveModel sub.request = .ok sub.model)
    {items : List (ExtractionTaskItemRecord ℤ)} {results : TaskResultsRecord ℤ}
    (hok : taskResults (a.row.record true) items = .ok results) :
    ∃ name version : String, sub.model = ⟨.str name, .str version⟩ ∧ results.model = ⟨.str name, .str version⟩ := by
  obtain ⟨name, version, hcatalog⟩ := h.catalog (sub.request.model.map ModelSelection.name)
    (sub.request.model.bind ModelSelection.version)
  have hmodel : sub.model = ⟨.str name, .str version⟩ := Except.ok.inj (hresolved.symm.trans hcatalog)
  refine ⟨name, version, hmodel, ?_⟩
  obtain ⟨mj, hrow, hmj⟩ := hholds.model hpurged
  have hstr : ∀ kv ∈ app.taskService.modelSnapshot sub.model, ∃ s, kv.1 = .str s := by
    simp [ExtractionTaskService.modelSnapshot]
  have hnd : ((app.taskService.modelSnapshot sub.model).map Prod.fst).Nodup := by
    simp [ExtractionTaskService.modelSnapshot]
  obtain ⟨jn, hjn, hname⟩ := getItem_of_dumps hmj hstr hnd (.head _)
  obtain ⟨jv, hjv, hversion⟩ := getItem_of_dumps hmj hstr hnd (.tail _ (.head _))
  rw [hmodel] at hjn hjv
  cases hjn
  cases hjv
  have hrecord : (a.row.record true).model = loads mj := by simp [TaskRow.record, hrow]
  obtain ⟨n, hn, hok⟩ := bind_eq_ok_iff.1 hok
  obtain ⟨v, hv, hok⟩ := bind_eq_ok_iff.1 hok
  obtain ⟨outcomes, -, hok⟩ := bind_eq_ok_iff.1 hok
  obtain ⟨mode, -, hok⟩ := bind_eq_ok_iff.1 hok
  obtain ⟨executionMode, -, hok⟩ := bind_eq_ok_iff.1 hok
  cases hok
  rw [hrecord, hname] at hn
  rw [hrecord, hversion] at hv
  cases hn
  cases hv
  simp only [loads]

end Application.Conforms

/-- The response shows the finished task: the model it was accepted with and an outcome for each item. -/
structure Schemas.TaskResultsResponse.Shows (app : Application) (response : Schemas.TaskResultsResponse ℤ) (uuid : Uuid)
    (a : Aggregate ℤ) (sub : Submission ℤ) : Prop where
  status : response.toTaskStatusResponse.Shows uuid a.row
  executionMode : response.executionMode = app.taskService.extractionService.inferenceProvider.executionMode
  model : sub.model = ⟨.str response.model.name, .str response.model.version⟩
  outcomes : ∃ outcomes, List.Forall₂ ItemRow.Reports a.items outcomes ∧
    List.Forall₂ (fun o r => Schemas.ExtractionOutcome.Shows app.optionalFloat r o) outcomes response.outcomes

theorem Application.Conforms.taskResultsResponse {app : Application} (h : app.Conforms) {sub : Submission ℤ}
    {a : Aggregate ℤ} (hholds : sub.Holds app.taskService a) (hinv : a.Inv) (hpurged : a.row.purgedAt = none)
    (hterm : a.row.status.isTerminal = true) (hfault : ∃ error, a.row.Faulted error)
    (hresolved : app.taskService.extractionService.resolveModel sub.request = .ok sub.model) {uuid : Uuid}
    (hid : a.row.taskId = uuid.text) {results : TaskResultsRecord ℤ}
    (hok : taskResults (a.row.record true) (a.items.map itemFromRow) = .ok results) :
    ∃ response, app.taskResultsResponse results = .ok response ∧ response.Shows app uuid a sub := by
  obtain ⟨results', hok', htask, hreports⟩ := hholds.taskResults_ok hinv hpurged hterm
  rw [hok] at hok'
  cases hok'
  obtain ⟨model, hmode⟩ := hholds.taskResults_eq hpurged (a.items.map itemFromRow)
  rw [hok] at hmode
  obtain ⟨restored, -, hmode⟩ := map_eq_ok_iff.1 hmode.symm
  obtain ⟨name, version, hsub, hmodel⟩ := h.model hholds hpurged hresolved hok
  have hserializable : ∀ o ∈ results.outcomes, ∀ p ∈ o.properties, Serializable app.optionalFloat p := by
    intro o ho
    obtain ⟨i, hi, hreport⟩ := exists_right_of_forall₂ hreports.flip ho
    obtain ⟨n, source, -, -, hrec⟩ := hholds.recorded hinv hpurged hi
    exact h.reports hrec (hinv.items_terminal hterm hi) hreport
  obtain ⟨outcomes, houtcomes, hshown⟩ := outcomesField_ok hserializable
  obtain ⟨status, hstatus, hshows⟩ := app.taskStatusResponse_ok hid hinv.accepted_pos hfault true (.inl rfl)
  refine ⟨{ status with executionMode := results.executionMode, model := ⟨name, version⟩, outcomes }, ?_,
    ⟨hshows, ?_, hsub, results.outcomes, hreports, hshown⟩⟩
  · unfold Application.taskResultsResponse
    rw [htask, hstatus, hmodel, houtcomes]
    rfl
  · rw [← hmode]

end TextExtraction
