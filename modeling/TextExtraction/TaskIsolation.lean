import TextExtraction.TaskProgress
import TextExtraction.TaskRefinement

/-!
# Isolation of items

What one source's provider answers may do to the outcome of another. `process_source_with_model`
contains whatever is raised, unless the exception raises again when it is printed; but a value that
cannot be copied or encoded raises after it, in the handler of the whole task, and fails every item
not yet finished. `isolation_iff` compares two providers that agree on one source: both paths report
the same outcome for it exactly if nothing of that kind is in the batch.
-/

namespace TextExtraction

open Python Relational Transition

variable {τ : Type}

/-- The service with another provider. -/
def ExtractionTaskService.withProvider (service : ExtractionTaskService) (provider : InferenceProvider) :
    ExtractionTaskService :=
  { service with extractionService := { service.extractionService with inferenceProvider := provider } }

/-- The outcome `extract` reports for the source at `n`. -/
def ExtractionService.extractOutcome {m : ℕ} (service : ExtractionService) (request : Batch m) (n : ℕ) :
    Option ExtractionOutcome :=
  match service.extract request with
  | .ok result => result.outcomes[n]?
  | .error _ => none

/-- The outcome `get_results` reports for the source at `n`, unless the task has an error of its own. -/
def ExtractionTaskService.taskOutcome [LinearOrder τ] [VAdd ℤ τ] (service : ExtractionTaskService)
    (ownerId id : String) (now : τ) (db : Db τ) (n : ℕ) : Option ExtractionOutcome :=
  match (service.getResults ownerId id now db).1 with
  | .ok results => if results.task.error.isNone then results.outcomes[n]? else none
  | .error _ => none

/-- Both runs report an outcome, and it is the same. -/
def SameOutcome (a b : Option ExtractionOutcome) : Prop := ∃ o, a = some o ∧ b = some o

/-- The providers behave identically on the source. -/
def AgreeOn (p q : InferenceProvider) (source : SourceText) (names : List Value) : Prop :=
  p.infer source.id source.text names = q.infer source.id source.text names

/-! ### One source under two providers -/

section Source
variable {service : ExtractionTaskService} {p q : InferenceProvider} {source : SourceText}

theorem processSource_withProvider {names : List Value} (hsame : AgreeOn p q source names)
    (model model' : ResolvedModelReference) :
    (service.withProvider p).extractionService.processSourceWithModel source.id source.text names model =
      (service.withProvider q).extractionService.processSourceWithModel source.id source.text names
        model' := by
  apply ExtractionService.processSourceWithModel_congr
  · rfl
  · exact hsame

theorem itemOutcome_withProvider {sub sub' : Submission τ} (hrequest : sub'.request = sub.request)
    (hsame : AgreeOn p q source sub.propertyNames) :
    (service.withProvider p).itemOutcome sub source = (service.withProvider q).itemOutcome sub' source := by
  have hnames : sub'.propertyNames = sub.propertyNames := by
    rw [Submission.propertyNames, hrequest]; rfl
  rw [ExtractionTaskService.itemOutcome, ExtractionTaskService.itemOutcome, hnames,
    processSource_withProvider hsame sub.model sub'.model]

end Source

/-! ### The synchronous path -/

section Extract
variable {service : ExtractionService} {m : ℕ} {request : Batch m}

theorem processSources_ok {names : List Value} {model : ResolvedModelReference} {texts : List SourceText}
    (h : ∀ source ∈ texts, ∃ o,
      service.processSourceWithModel source.id source.text names model = .ok o) :
    ∃ outcomes, service.processSources names model texts = .ok outcomes := by
  induction texts with
  | nil => exact ⟨[], rfl⟩
  | cons source texts ih =>
    obtain ⟨o, ho⟩ := h source (by simp)
    obtain ⟨outcomes, houtcomes⟩ := ih fun t ht => h t (by simp [ht])
    refine ⟨o :: outcomes, ?_⟩
    rw [ExtractionService.processSources, ho]
    simp only [houtcomes]

/-- `extract` reports an outcome if and only if every source can be processed. -/
theorem extractOutcome_eq_some (hlimits : service.validateLimits request = .ok ())
    {model : ResolvedModelReference} (hmodel : service.resolveModel request = .ok model) {n : ℕ}
    {source : SourceText} (hsource : request.texts[n]? = some source) {o : ExtractionOutcome} :
    service.extractOutcome request n = some o ↔
      (∀ source' ∈ request.texts, service.Printable source' request.schema.propertyNames) ∧
        service.processSourceWithModel source.id source.text request.schema.propertyNames model = .ok o := by
  have heq : service.extractOutcome request n =
      match service.processSources request.schema.propertyNames model request.texts with
      | .ok outcomes => outcomes[n]?
      | .error _ => none := by
    unfold ExtractionService.extractOutcome ExtractionService.extract
    rw [hlimits]
    simp only [hmodel]
    cases service.processSources request.schema.propertyNames model request.texts <;> rfl
  rw [heq]
  constructor
  · intro h
    cases hp : service.processSources request.schema.propertyNames model request.texts with
    | error e => rw [hp] at h; simp at h
    | ok outcomes =>
      rw [hp] at h
      have hall := processSources_forall₂ hp
      refine ⟨fun source' hmem => ?_, ?_⟩
      · obtain ⟨o', -, ho'⟩ := exists_right_of_forall₂ hall hmem
        exact printable_iff.2 ⟨o', ho'⟩
      · rcases getElem?_of_forall₂ hall n with ⟨hnone, -⟩ | ⟨source', o', hsource', ho', hprocess⟩
        · rw [hsource] at hnone; simp at hnone
        · rw [hsource] at hsource'
          cases hsource'
          have hsome : outcomes[n]? = some o := h
          rw [ho'] at hsome
          cases hsome
          exact hprocess
  · rintro ⟨hprintable, hprocess⟩
    obtain ⟨outcomes, hp⟩ := processSources_ok fun source' hmem => printable_iff.1 (hprintable source' hmem)
    rw [hp]
    rcases getElem?_of_forall₂ (processSources_forall₂ hp) n with
      ⟨hnone, -⟩ | ⟨source', o', hsource', ho', hprocess'⟩
    · rw [hsource] at hnone; simp at hnone
    · rw [hsource] at hsource'
      cases hsource'
      rw [hprocess] at hprocess'
      cases hprocess'
      exact ho'

end Extract

/-! ### The asynchronous path -/

/-- The item holds what its own source gives. -/
def Settled (service : ExtractionTaskService) (sub : Submission τ) (source : SourceText) (i : ItemRow τ) :
    Prop :=
  i.sourceId = source.id ∧ ∃ outcome error, service.itemOutcome sub source = .ok (outcome, error) ∧
    canonicalJson? (outcome.map .dict) = .ok i.outcomeJson ∧
    canonicalJson? (error.map strDict) = .ok i.errorJson ∧
    i.status = if error.isNone then .completed else .failed

section Finished
variable {service : ExtractionTaskService} {sub : Submission τ} {a : Aggregate τ}

/-- In a finished task that has no error of its own, every item is settled. -/
theorem Submission.Holds.settled (h : sub.Holds service a) (hinv : a.Inv)
    (hown : sub.OwnErrors service a) (hpurged : a.row.purgedAt = none)
    (hterm : a.row.status.isTerminal = true) (herror : a.row.taskErrorJson = none) {n : ℕ}
    {source : SourceText} (hsource : sub.request.texts[n]? = some source) :
    ∃ i, a.items[n]? = some i ∧ Settled service sub source i := by
  have hlt : n < a.items.length := by
    rw [hinv.length_items, h.accepted]
    exact (List.getElem?_eq_some_iff.1 hsource).1
  have hi := List.getElem?_eq_getElem hlt
  refine ⟨_, hi, ?_⟩
  generalize a.items[n] = i at hi
  have hmem := List.mem_of_getElem? hi
  have hrec := h.items n source i hsource hi
  have hitem := hinv.items i hmem
  rw [hpurged] at hrec hitem
  have hdone := hinv.items_terminal hterm hmem
  refine ⟨hrec.sourceId, ?_⟩
  cases hs : i.status with
  | completed =>
    obtain ⟨payload, j, hok, hj, hoj⟩ := hrec.completed hs rfl
    refine ⟨some payload, none, hok, ?_, ?_, rfl⟩
    · rw [Option.map_some, canonicalJson?, hj, hoj]; rfl
    · rw [(hitem.completed hs).1]; rfl
  | failed =>
    obtain ⟨error, j, hok, hj, hej⟩ := hown hpurged herror n source i hsource hi hs
    refine ⟨none, some error, hok, ?_, ?_, rfl⟩
    · rw [(hitem.failed hs).1]; rfl
    · rw [Option.map_some, canonicalJson?, hj, hej]; rfl
  | queued | processing => rw [hs] at hdone; simp at hdone

theorem Submission.Holds.persists (h : sub.Holds service a) (hinv : a.Inv)
    (hown : sub.OwnErrors service a) (hpurged : a.row.purgedAt = none)
    (hterm : a.row.status.isTerminal = true) (herror : a.row.taskErrorJson = none) :
    sub.Persists service := by
  intro source hsource
  obtain ⟨n, hn⟩ := List.getElem?_of_mem hsource
  obtain ⟨i, -, -, outcome, error, hok, hoj, hej, -⟩ := h.settled hinv hown hpurged hterm herror hn
  exact ⟨outcome, error, _, _, hok, hoj, hej⟩

end Finished

theorem ItemRow.Reports.unique {i i' : ItemRow τ} {o o' : ExtractionOutcome} (h : i.Reports o)
    (h' : i'.Reports o') (hterm : i.status.isTerminal = true) (hid : i.sourceId = i'.sourceId)
    (hstatus : i.status = i'.status) (houtcome : i.outcomeJson = i'.outcomeJson)
    (herror : i.errorJson = i'.errorJson) : o = o' := by
  have hsourceId : o.sourceId = o'.sourceId := by rw [h.sourceId, h'.sourceId, hid]
  obtain ⟨oid, ostatus, oproperties, oerror⟩ := o
  obtain ⟨oid', ostatus', oproperties', oerror'⟩ := o'
  simp only at hsourceId
  subst hsourceId
  cases hs : i.status with
  | completed =>
    obtain ⟨hcompleted, hnone, j, items, hj, hload, hstored⟩ := h.completed hs
    obtain ⟨hcompleted', hnone', j', items', hj', hload', hstored'⟩ := h'.completed (hstatus ▸ hs)
    simp only at hcompleted hcompleted' hnone hnone'
    subst hcompleted hcompleted' hnone hnone'
    rw [houtcome, hj'] at hj
    cases hj
    rw [hload] at hload'
    cases hload'
    have hproperties : oproperties = oproperties' := hstored.unique hstored'
    rw [hproperties]
  | failed =>
    obtain ⟨hfailed, hnil, j, error, hj, hencoded, hsome⟩ := h.failed hs
    obtain ⟨hfailed', hnil', j', error', hj', hencoded', hsome'⟩ := h'.failed (hstatus ▸ hs)
    simp only at hfailed hfailed' hnil hnil' hsome hsome'
    subst hfailed hfailed' hnil hnil' hsome hsome'
    rw [herror, hj'] at hj
    cases hj
    rw [asdict_injective hencoded hencoded']
  | queued | processing => rw [hs] at hterm; simp at hterm

theorem Settled.same_report {service service' : ExtractionTaskService} {sub sub' : Submission τ}
    {source : SourceText} {i i' : ItemRow τ} {o o' : ExtractionOutcome}
    (h : Settled service sub source i) (h' : Settled service' sub' source i')
    (hsame : service.itemOutcome sub source = service'.itemOutcome sub' source)
    (hreports : i.Reports o) (hreports' : i'.Reports o') : o = o' := by
  obtain ⟨hid, outcome, error, hok, hoj, hej, hstatus⟩ := h
  obtain ⟨hid', outcome', error', hok', hoj', hej', hstatus'⟩ := h'
  rw [hsame, hok'] at hok
  cases hok
  have houtcome : i.outcomeJson = i'.outcomeJson := Except.ok.inj (hoj.symm.trans hoj')
  have herror : i.errorJson = i'.errorJson := Except.ok.inj (hej.symm.trans hej')
  refine hreports.unique hreports' ?_ (hid.trans hid'.symm) (hstatus.trans hstatus'.symm) houtcome herror
  rw [hstatus]
  split <;> rfl

namespace System
variable [LinearOrder τ] [VAdd ℤ τ] {service : ExtractionTaskService} {s : System τ} {id : String}
  {sub : Submission τ} {now : τ} {n : ℕ} {o : ExtractionOutcome}

/-- An outcome is only reported of a finished task without an error of its own, and is what the item
holds. -/
theorem finished_of_taskOutcome (h : Reachable service s) (hsub : s.accepted id = some sub)
    (ho : service.taskOutcome sub.ownerId id now s.db n = some o) :
    ∃ a i, s.db.view id = some a ∧ a.row.purgedAt = none ∧ a.row.status.isTerminal = true ∧
      a.row.taskErrorJson = none ∧ a.items[n]? = some i ∧ i.Reports o := by
  unfold ExtractionTaskService.taskOutcome at ho
  cases hr : (service.getResults sub.ownerId id now s.db).1 with
  | error e => rw [hr] at ho; simp at ho
  | ok results =>
  rw [hr] at ho
  have hinv := h.inv
  obtain ⟨a, hv, hpurged, hterm, hnow⟩ := finished_of_getResults (fun _ _ hv => hinv.aggregate hv) hr
  have hholds := hinv.holds hsub hv
  obtain ⟨results', hr', htask, hreports⟩ :=
    hholds.getResults_ok (hinv.aggregate hv) hv hpurged hterm hnow
  rw [hr] at hr'
  cases hr'
  have hnone : results.task.error.isNone = true := by
    by_contra hne
    simp only [if_neg hne] at ho
    simp at ho
  simp only [if_pos hnone] at ho
  refine ⟨a, ?_⟩
  rcases getElem?_of_forall₂ hreports n with ⟨-, ho'⟩ | ⟨i, o', hi, ho', hreport⟩
  · rw [ho'] at ho; simp at ho
  · rw [ho'] at ho
    cases ho
    refine ⟨i, hv, hpurged, hterm, ?_, hi, hreport⟩
    cases hj : a.row.taskErrorJson with
    | none => rfl
    | some j =>
      -- the task's error would be a dict
      obtain ⟨detail, hencoded⟩ := h.steady.fatal id sub a j hsub hv hj
      obtain ⟨items, hload⟩ := loads_of_dumps_dict hencoded
      have herror : results.task.error = loads j := by
        rw [htask, TaskRow.record, hj]; rfl
      rw [herror, hload] at hnone
      cases hnone

theorem taskOutcome_of_finished (h : Reachable service s) (hsub : s.accepted id = some sub)
    {a : Aggregate τ} (hv : s.db.view id = some a) (hpurged : a.row.purgedAt = none)
    (hterm : a.row.status.isTerminal = true) (herror : a.row.taskErrorJson = none)
    (hnow : now < sub.expiresAt) {i : ItemRow τ} (hi : a.items[n]? = some i) :
    ∃ o, service.taskOutcome sub.ownerId id now s.db n = some o ∧ i.Reports o := by
  have hinv := h.inv
  have hholds := hinv.holds hsub hv
  obtain ⟨results, hr, htask, hreports⟩ := hholds.getResults_ok (hinv.aggregate hv) hv hpurged hterm
    (by rw [hholds.expiresAt]; exact hnow)
  rcases getElem?_of_forall₂ hreports n with ⟨hnone, -⟩ | ⟨i', o, hi', ho, hreport⟩
  · rw [hi] at hnone; simp at hnone
  rw [hi] at hi'
  cases hi'
  refine ⟨o, ?_, hreport⟩
  unfold ExtractionTaskService.taskOutcome
  rw [hr]
  simp only [htask, TaskRow.record, herror, decode_none, Value.isNone, if_true, ho]

/-- In a finished task whose sources all persist, an outcome is reported for each. -/
theorem taskOutcome_of_persists (h : Reachable service s) (hsub : s.accepted id = some sub)
    (hpersists : sub.Persists service) (hfinished : HasResults s.db sub.ownerId id) (hnow : now < sub.expiresAt)
    {source : SourceText} (hsource : sub.request.texts[n]? = some source) :
    ∃ i o, service.taskOutcome sub.ownerId id now s.db n = some o ∧ i.Reports o ∧
      Settled service sub source i := by
  obtain ⟨a, hv, -, hpurged, hterm⟩ := hfinished
  have hinv := h.inv
  have hholds := hinv.holds hsub hv
  have herror := h.steady.unfailed id sub a hsub hpersists hv
  obtain ⟨i, hi, hsettled⟩ := hholds.settled (hinv.aggregate hv) (h.steady.own id sub a hsub hv) hpurged
    hterm herror hsource
  obtain ⟨o, ho, hreport⟩ := taskOutcome_of_finished h hsub hv hpurged hterm herror hnow hi
  exact ⟨i, o, ho, hreport, hsettled⟩

/-- A reported outcome means that every source came through. -/
theorem persists_of_taskOutcome (h : Reachable service s) (hsub : s.accepted id = some sub)
    (ho : service.taskOutcome sub.ownerId id now s.db n = some o) :
    HasResults s.db sub.ownerId id ∧ sub.Persists service := by
  obtain ⟨a, -, hv, hpurged, hterm, herror, -, -⟩ := finished_of_taskOutcome h hsub ho
  have hinv := h.inv
  have hholds := hinv.holds hsub hv
  exact ⟨⟨a, hv, hholds.ownerId, hpurged, hterm⟩,
    hholds.persists (hinv.aggregate hv) (h.steady.own id sub a hsub hv) hpurged hterm herror⟩

end System

/-! ### Two providers -/

/-- When `source` is reported the same under the providers `p` and `q`, which agree on it. -/
structure IsolationLaw (τ : Type) [LinearOrder τ] [VAdd ℤ τ] (service : ExtractionTaskService)
    (p q : InferenceProvider) (source : SourceText) : Prop where
  /-- `extract` of an accepted batch: if and only if no exception raises when it is printed. -/
  extract : ∀ {m : ℕ} (request : Batch m) (n : ℕ), request.texts[n]? = some source →
    AgreeOn p q source request.schema.propertyNames →
    service.extractionService.validateLimits request = .ok () →
    (∃ model, service.extractionService.resolveModel request = .ok model) →
    (SameOutcome ((service.withProvider p).extractionService.extractOutcome request n)
        ((service.withProvider q).extractionService.extractOutcome request n) ↔
      ∀ source' ∈ request.texts,
        (service.withProvider p).extractionService.Printable source' request.schema.propertyNames ∧
        (service.withProvider q).extractionService.Printable source' request.schema.propertyNames)
  /-- Tasks in any state the system can be in: if and only if both are finished and all that the
  providers say of the batch is harmless. -/
  finished : ∀ {s s' : System τ} {id id' : String} {sub sub' : Submission τ} {now now' : τ} (n : ℕ),
    s.Reachable (service.withProvider p) → s'.Reachable (service.withProvider q) →
    s.accepted id = some sub → s'.accepted id' = some sub' → sub'.request = sub.request →
    sub.request.texts[n]? = some source → AgreeOn p q source sub.propertyNames →
    now < sub.expiresAt → now' < sub'.expiresAt →
    (SameOutcome ((service.withProvider p).taskOutcome sub.ownerId id now s.db n)
        ((service.withProvider q).taskOutcome sub'.ownerId id' now' s'.db n) ↔
      (HasResults s.db sub.ownerId id ∧ HasResults s'.db sub'.ownerId id') ∧ ∀ source' ∈ sub.request.texts,
        (service.withProvider p).extractionService.Harmless source' sub.propertyNames ∧
        (service.withProvider q).extractionService.Harmless source' sub.propertyNames)
  /-- Tasks that a worker was left alone with: if and only if all of it is harmless. -/
  task : ∀ {w w' id id' : String} {s s' : System τ} {sub sub' : Submission τ} {now now' : τ} (n : ℕ),
    System.SoloRun (service.withProvider p) w id sub s →
    System.SoloRun (service.withProvider q) w' id' sub' s' → sub'.request = sub.request →
    sub.request.texts[n]? = some source → AgreeOn p q source sub.propertyNames →
    now < sub.expiresAt → now' < sub'.expiresAt →
    (SameOutcome ((service.withProvider p).taskOutcome sub.ownerId id now s.db n)
        ((service.withProvider q).taskOutcome sub'.ownerId id' now' s'.db n) ↔
      ∀ source' ∈ sub.request.texts,
        (service.withProvider p).extractionService.Harmless source' sub.propertyNames ∧
        (service.withProvider q).extractionService.Harmless source' sub.propertyNames)
  /-- Then what is raised about a source is the failed outcome of that source. -/
  contained : ∀ {w id : String} {s : System τ} {sub : Submission τ} {now : τ} {k : ℕ}
    {source' : SourceText} {error : Exc}, System.SoloRun (service.withProvider p) w id sub s →
    (∀ t ∈ sub.request.texts, (service.withProvider p).extractionService.Harmless t sub.propertyNames) →
    sub.request.texts[k]? = some source' →
    (service.withProvider p).extractionService.answers source' sub.propertyNames = .error error →
    now < sub.expiresAt → ∃ message, error.str = .ok message ∧
      (service.withProvider p).taskOutcome sub.ownerId id now s.db k =
        some { sourceId := source'.id, status := .failed,
               error := some ⟨"processing_failed", orElse message "Source processing failed"⟩ }

section Two
variable {service : ExtractionTaskService} {p q : InferenceProvider} {source : SourceText}

theorem extract_same_iff {m : ℕ} {request : Batch m} {n : ℕ} (hsource : request.texts[n]? = some source)
    (hagree : AgreeOn p q source request.schema.propertyNames)
    (hlimits : service.extractionService.validateLimits request = .ok ())
    {model : ResolvedModelReference}
    (hmodel : service.extractionService.resolveModel request = .ok model) :
    SameOutcome ((service.withProvider p).extractionService.extractOutcome request n)
        ((service.withProvider q).extractionService.extractOutcome request n) ↔
      ∀ source' ∈ request.texts,
        (service.withProvider p).extractionService.Printable source' request.schema.propertyNames ∧
        (service.withProvider q).extractionService.Printable source' request.schema.propertyNames := by
  have hp : ∀ r : InferenceProvider,
      (service.withProvider r).extractionService.validateLimits request = .ok () ∧
      (service.withProvider r).extractionService.resolveModel request = .ok model :=
    fun _ => ⟨hlimits, hmodel⟩
  constructor
  · rintro ⟨o, ho, ho'⟩ source' hmem
    have hall := ((extractOutcome_eq_some (hp p).1 (hp p).2 hsource).1 ho).1
    have hall' := ((extractOutcome_eq_some (hp q).1 (hp q).2 hsource).1 ho').1
    exact ⟨hall source' hmem, hall' source' hmem⟩
  · intro hall
    obtain ⟨o, ho⟩ := printable_iff.1 (hall source (List.mem_of_getElem? hsource)).1
    have ho' := ho
    rw [processSource_withProvider hagree model model] at ho'
    exact ⟨o, (extractOutcome_eq_some (hp p).1 (hp p).2 hsource).2 ⟨fun t ht => (hall t ht).1, ho⟩,
      (extractOutcome_eq_some (hp q).1 (hp q).2 hsource).2 ⟨fun t ht => (hall t ht).2, ho'⟩⟩

theorem harmless_iff_persists {sub sub' : Submission τ} (hrequest : sub'.request = sub.request) :
    (∀ source' ∈ sub.request.texts,
        (service.withProvider p).extractionService.Harmless source' sub.propertyNames ∧
        (service.withProvider q).extractionService.Harmless source' sub.propertyNames) ↔
      sub.Persists (service.withProvider p) ∧ sub'.Persists (service.withProvider q) := by
  have hnames : sub'.propertyNames = sub.propertyNames := by
    rw [Submission.propertyNames, hrequest]; rfl
  rw [persists_iff, persists_iff, hrequest, hnames]
  exact ⟨fun h => ⟨fun t ht => (h t ht).1, fun t ht => (h t ht).2⟩,
    fun h t ht => ⟨h.1 t ht, h.2 t ht⟩⟩

end Two

namespace System
variable [LinearOrder τ] [VAdd ℤ τ] {service : ExtractionTaskService} {p q : InferenceProvider}
  {source : SourceText} {s s' : System τ} {id id' : String} {sub sub' : Submission τ} {now now' : τ}
  {n : ℕ}

theorem SoloRun.hasResults {w : String} (h : SoloRun service w id sub s) (hpersists : sub.Persists service)
    (hlease : ∀ t : τ, t < service.lease +ᵥ t) : HasResults s.db sub.ownerId id := by
  obtain ⟨hreachable, hsub⟩ := h.reachable
  obtain ⟨a, hv, hterm, hpurged⟩ := h.finishes hpersists hlease
  have hholds := hreachable.inv.holds hsub hv
  exact ⟨a, hv, hholds.ownerId, hpurged, hterm⟩

theorem task_same_iff (h : s.Reachable (service.withProvider p)) (h' : s'.Reachable (service.withProvider q))
    (hsub : s.accepted id = some sub) (hsub' : s'.accepted id' = some sub')
    (hrequest : sub'.request = sub.request) (hsource : sub.request.texts[n]? = some source)
    (hagree : AgreeOn p q source sub.propertyNames) (hnow : now < sub.expiresAt)
    (hnow' : now' < sub'.expiresAt) :
    SameOutcome ((service.withProvider p).taskOutcome sub.ownerId id now s.db n)
        ((service.withProvider q).taskOutcome sub'.ownerId id' now' s'.db n) ↔
      (HasResults s.db sub.ownerId id ∧ HasResults s'.db sub'.ownerId id') ∧
        sub.Persists (service.withProvider p) ∧ sub'.Persists (service.withProvider q) := by
  constructor
  · rintro ⟨o, ho, ho'⟩
    obtain ⟨hfinished, hpersists⟩ := persists_of_taskOutcome h hsub ho
    obtain ⟨hfinished', hpersists'⟩ := persists_of_taskOutcome h' hsub' ho'
    exact ⟨⟨hfinished, hfinished'⟩, hpersists, hpersists'⟩
  · rintro ⟨⟨hfinished, hfinished'⟩, hpersists, hpersists'⟩
    obtain ⟨i, o, ho, hreport, hsettled⟩ :=
      taskOutcome_of_persists h hsub hpersists hfinished hnow hsource
    obtain ⟨i', o', ho', hreport', hsettled'⟩ :=
      taskOutcome_of_persists h' hsub' hpersists' hfinished' hnow' (hrequest ▸ hsource)
    have hsame := hsettled.same_report hsettled' (itemOutcome_withProvider hrequest hagree) hreport hreport'
    exact ⟨o, ho, hsame ▸ ho'⟩

theorem taskOutcome_of_error (h : Reachable service s) (hsub : s.accepted id = some sub)
    (hpersists : sub.Persists service) (hresults : HasResults s.db sub.ownerId id)
    (hnow : now < sub.expiresAt) (hsource : sub.request.texts[n]? = some source) {error : Exc}
    (herror : service.extractionService.answers source sub.propertyNames = .error error) :
    ∃ message, error.str = .ok message ∧ service.taskOutcome sub.ownerId id now s.db n =
      some { sourceId := source.id, status := .failed,
             error := some ⟨"processing_failed", orElse message "Source processing failed"⟩ } := by
  have hharmless := persistsItem_iff.1 (hpersists source (List.mem_of_getElem? hsource))
  obtain ⟨message, hmessage⟩ := hharmless.1 error herror
  have hprocess : service.extractionService.processSourceWithModel source.id source.text
      sub.propertyNames sub.model = .ok _ := processSource_of_error herror hmessage
  obtain ⟨i, o, ho, hreport, hid, outcome, failure, hok, -, hej, hstatus⟩ :=
    taskOutcome_of_persists h hsub hpersists hresults hnow hsource
  refine ⟨message, hmessage, ?_⟩
  have hown : service.itemOutcome sub source = .ok (none, some (ItemError.asdict
      ⟨"processing_failed", orElse message "Source processing failed"⟩)) :=
    itemOutcome_ok.2 ⟨_, hprocess, rfl⟩
  cases hok.symm.trans hown
  have hfailed : i.status = .failed := hstatus
  obtain ⟨j, hj, hoj⟩ := canonicalJson?_some_iff.1 hej
  rw [ho, report_failed hok hj hoj.symm hfailed hid hreport hprocess]

/-- Exactly when one source is isolated from what the provider answers about the others. -/
theorem isolation_law (service : ExtractionTaskService) (hlease : ∀ t : τ, t < service.lease +ᵥ t)
    (p q : InferenceProvider) (source : SourceText) : IsolationLaw τ service p q source where
  extract request n hsource hagree hlimits hmodel := by
    obtain ⟨model, hmodel⟩ := hmodel
    exact extract_same_iff hsource hagree hlimits hmodel
  finished n h h' hsub hsub' hrequest hsource hagree hnow hnow' := by
    rw [harmless_iff_persists hrequest]
    exact task_same_iff h h' hsub hsub' hrequest hsource hagree hnow hnow'
  task n h h' hrequest hsource hagree hnow hnow' := by
    obtain ⟨hreachable, hsub⟩ := h.reachable
    obtain ⟨hreachable', hsub'⟩ := h'.reachable
    rw [harmless_iff_persists hrequest,
      task_same_iff hreachable hreachable' hsub hsub' hrequest hsource hagree hnow hnow']
    refine ⟨fun hboth => hboth.2, fun hpersists => ⟨⟨?_, ?_⟩, hpersists⟩⟩
    · exact h.hasResults hpersists.1 hlease
    · exact h'.hasResults hpersists.2 hlease
  contained h hharmless hsource herror hnow := by
    obtain ⟨hreachable, hsub⟩ := h.reachable
    have hpersists := persists_iff.2 hharmless
    exact taskOutcome_of_error hreachable hsub hpersists (h.hasResults hpersists hlease) hnow hsource herror

/-! ### Runs -/

/-- A worker of the service has made nine calls on the sample submission. -/
def sampleRun (service : ExtractionTaskService) : System ℤ :=
  let w := work service "w" 1
  (init (τ := ℤ)).submit service "t" "o" sampleRequest 0 |> w |> w |> w |> w |> w |> w |> w |> w |> w

theorem soloRun_sample {service : ExtractionTaskService} {sub : Submission ℤ}
    (haccepted : ((init (τ := ℤ)).submit service "t" "o" sampleRequest 0).accepted "t" = some sub)
    (htexts : sub.request.texts.length = 2) (hexpires : 1 < sub.expiresAt) :
    SoloRun service "w" "t" sub (sampleRun service) := by
  have hrun : Run (Step service) ((init (τ := ℤ)).submit service "t" "o" sampleRequest 0)
      (List.replicate 9 (.work "w" 1)) (sampleRun service) :=
    .cons .work (.cons .work (.cons .work (.cons .work (.cons .work (.cons .work (.cons .work
      (.cons .work (.cons .work (.nil _)))))))))
  refine .intro ⟨[], .nil init⟩ rfl ?_ rfl haccepted hrun ?_ ?_
  · intro id' b hb
    cases hb
  · intro l hl
    rw [List.eq_of_mem_replicate hl]
    exact ⟨rfl, hexpires⟩
  · rw [htexts]; decide

/-- The stub provider, but for the source `a` it answers with a set. -/
def setProvider : InferenceProvider :=
  { stubInferenceProvider [] with
    infer := fun sourceId text propertyNames =>
      if sourceId = "a" then
        .ok fun _ => .ok (some ⟨.object true
          (.raised .typeError "Object of type set is not JSON serializable"), .inferred⟩)
      else (stubInferenceProvider []).infer sourceId text propertyNames }

/-- The sample submission as the stub catalog accepts it. -/
def sampleSubmission : Submission ℤ :=
  ⟨"o", sampleRequest, ⟨.str "stub-extraction-provider", .str "stub"⟩, 10⟩

/-- The set that source `a` gets fails source `b`, which the stub provider completes. -/
theorem isolation_broken : ∃ (source : SourceText) (results results' : TaskResultsRecord ℤ),
    sampleSubmission.request.texts[1]? = some source ∧
    AgreeOn (stubInferenceProvider []) setProvider source sampleSubmission.propertyNames ∧
    SoloRun ((stubService []).withProvider (stubInferenceProvider [])) "w" "t" sampleSubmission
      (sampleRun ((stubService []).withProvider (stubInferenceProvider []))) ∧
    SoloRun ((stubService []).withProvider setProvider) "w" "t" sampleSubmission
      (sampleRun ((stubService []).withProvider setProvider)) ∧
    (((stubService []).withProvider (stubInferenceProvider [])).getResults "o" "t" 2
      (sampleRun ((stubService []).withProvider (stubInferenceProvider []))).db).1 = .ok results ∧
    (((stubService []).withProvider setProvider).getResults "o" "t" 2
      (sampleRun ((stubService []).withProvider setProvider)).db).1 = .ok results' ∧
    results.outcomes[1]?.map ExtractionOutcome.status = some .completed ∧
    results'.outcomes[1]?.map ExtractionOutcome.status = some .failed :=
  ⟨_, _, _, rfl, rfl, soloRun_sample rfl rfl (by decide), soloRun_sample rfl rfl (by decide), rfl, rfl,
    rfl, rfl⟩

/-- What the stub provider raises has a text, and what it answers encodes. -/
theorem stub_harmless (failing : List String) (source : SourceText) (schema : ExtractionSchema) :
    (stubService failing).extractionService.Harmless source schema.propertyNames := by
  have hanswers : (stubService failing).extractionService.answers source schema.propertyNames =
      if source.id ∈ failing then
        .error (.raised .runtimeError ("Inference failed for source '" ++ source.id ++ "'"))
      else .ok (schema.propertyNames.map fun _ => (.none, .none)) := by
    unfold ExtractionService.answers
    show (do let inferred ← (stubInferenceProvider failing).infer source.id source.text _; _) = _
    unfold stubInferenceProvider
    dsimp only
    split
    · rfl
    · have hkeys : schema.propertyNames.mapM Value.toKey =
          .ok (schema.propertyNames.map fun name => (name.toKey).toOption.getD .none) := by
        refine mapM_eq_ok fun name hname => ?_
        obtain ⟨definition, -, rfl⟩ := List.mem_map.1 hname
        rfl
      rw [hkeys]
      refine mapM_eq_ok fun name hname => ?_
      obtain ⟨definition, -, rfl⟩ := List.mem_map.1 hname
      unfold ExtractionService.answer
      -- found or not, the value is `None`
      show (do let found ← Except.ok (ite _ _ _); _) = _
      split <;> rfl
  rw [ExtractionService.Harmless, ExtractionService.Printable, hanswers]
  split
  · refine ⟨?_, by rintro _ ⟨⟩⟩
    rintro _ ⟨⟩
    exact ⟨_, rfl⟩
  · refine ⟨by rintro _ ⟨⟩, ?_⟩
    rintro _ ⟨⟩ v hv
    obtain ⟨name, -, rfl⟩ := List.mem_map.1 hv
    exact ⟨⟨_, _, _, rfl, rfl, rfl⟩, ⟨_, _, _, rfl, rfl, rfl⟩⟩

/-- A source that fails by itself leaves the other alone. -/
theorem isolation_law_example :
    SameOutcome ((stubService []).taskOutcome "o" "t" 2 (sampleRun (stubService [])).db 1)
      ((stubService ["a"]).taskOutcome "o" "t" 2 (sampleRun (stubService ["a"])).db 1) := by
  have hlease : ∀ t : ℤ, t < (stubService []).lease +ᵥ t := by
    intro t
    show t < 5 + t
    omega
  have hsolo : SoloRun (stubService []) "w" "t" sampleSubmission (sampleRun (stubService [])) :=
    soloRun_sample rfl rfl (by decide)
  have hsolo' : SoloRun (stubService ["a"]) "w" "t" sampleSubmission (sampleRun (stubService ["a"])) :=
    soloRun_sample rfl rfl (by decide)
  have hlaw := (isolation_law (stubService []) hlease (stubInferenceProvider [])
    (stubInferenceProvider ["a"]) ⟨"b", "y", by decide, by decide⟩).task 1 hsolo hsolo' rfl rfl rfl
    (by decide : (2 : ℤ) < 10) (by decide : (2 : ℤ) < 10)
  exact hlaw.2 fun source' _ => ⟨stub_harmless [] source' _, stub_harmless ["a"] source' _⟩

end System

end TextExtraction
