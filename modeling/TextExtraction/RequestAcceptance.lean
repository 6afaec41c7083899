import TextExtraction.RequestValidation
import TextExtraction.Settings
import TextExtraction.Stubs
import TextExtraction.TaskAnswers

/-!
# Which requests are accepted

The two routes that take a batch, from its body to the answer: validation, the limit checks of the
service, and for a task its `create_task`. A body passes exactly when it is within the configured limits
and the constant `max_length` of its request type (`exists_accept_iff`, `createExtractionTask_cases`),
so the two agree with the configuration on every body that is not longer than that constant.
-/

namespace TextExtraction

open Python Relational

/-- A body within limits. -/
structure BatchInput.Acceptable (maxTexts maxCharacters : ℕ) (input : BatchInput) : Prop where
  wellFormed : input.WellFormed
  texts : input.texts.length ≤ maxTexts
  characters : (input.texts.map fun source => (strip source.text).length).sum ≤ maxCharacters

inductive Rejection
  | validation (errors : List ValidationError)
  | extraction (error : ExtractionError)

theorem checkLimits_eq_ok_iff {maxTexts maxCharacters : ℕ} {texts : List SourceText} {u : Unit} :
    checkLimits maxTexts maxCharacters texts = .ok u ↔
      texts.length ≤ maxTexts ∧ characterCount texts ≤ maxCharacters := by
  unfold checkLimits
  split_ifs with htexts hcharacters
  · exact iff_of_false (by rintro ⟨⟩) (by omega)
  · exact iff_of_false (by rintro ⟨⟩) (by omega)
  · exact iff_of_true rfl (by omega)

/-- A validated batch passes the limit checks when its body is within the limits. -/
theorem BatchInput.Normalizes.checkLimits_iff {n maxTexts maxCharacters : ℕ} {input : BatchInput}
    {batch : Batch n} (h : input.Normalizes batch) :
    checkLimits maxTexts maxCharacters batch.texts = .ok () ↔ input.Acceptable maxTexts maxCharacters := by
  rw [checkLimits_eq_ok_iff, ← h.texts.length_eq, ← h.characterCount]
  constructor
  · rintro ⟨htexts, hcharacters⟩
    exact ⟨h.wellFormed, htexts, hcharacters⟩
  · intro hacc
    exact ⟨hacc.texts, hacc.characters⟩

theorem exists_within_limits_iff {n maxTexts maxCharacters : ℕ} {input : BatchInput} :
    (∃ batch, input.validate n = .ok batch ∧ checkLimits maxTexts maxCharacters batch.texts = .ok ()) ↔
      input.Acceptable maxTexts maxCharacters ∧ input.texts.length ≤ n := by
  constructor
  · rintro ⟨batch, hvalid, hlimits⟩
    have hnorm := BatchInput.validate_eq_ok_iff.1 hvalid
    exact ⟨hnorm.checkLimits_iff.1 hlimits, hnorm.texts.length_eq.trans_le batch.texts_length⟩
  · rintro ⟨hacc, hlength⟩
    obtain ⟨batch, hvalid⟩ := BatchInput.exists_validate_iff.2 ⟨hacc.wellFormed, hlength⟩
    exact ⟨batch, hvalid, (BatchInput.validate_eq_ok_iff.1 hvalid).checkLimits_iff.2 hacc⟩

/-! ### The synchronous route -/

namespace ExtractionService

variable (service : ExtractionService)

/-- The service over another `infer`. -/
def withInfer (infer : String → String → List Value → Except Exc Mapping) : ExtractionService :=
  { service with inferenceProvider := { service.inferenceProvider with infer } }

/-- The sources whose `infer` call `processSources` makes. -/
def processCalls (propertyNames : List Value) (model : ResolvedModelReference) :
    List SourceText → List SourceText
  | [] => []
  | source :: sources =>
    source :: match service.processSourceWithModel source.id source.text propertyNames model with
      | .error _ => []
      | .ok _ => processCalls propertyNames model sources

/-- The sources whose `infer` call `extract` makes. -/
def extractCalls {n : ℕ} (request : Batch n) : List SourceText :=
  match service.validateLimits request with
  | .error _ => []
  | .ok _ =>
    match service.resolveModel request with
    | .error _ => []
    | .ok model => service.processCalls request.schema.propertyNames model request.texts

/-- The route up to its limit checks. -/
def accept (input : BatchInput) : Except Rejection ExtractionRequest :=
  match input.validate 10 with
  | .error errors => .error (.validation errors)
  | .ok request =>
    match service.validateLimits request with
    | .error error => .error (.extraction error)
    | .ok _ => .ok request

/-- `create_extraction`. -/
def createExtraction (input : BatchInput) : Except Rejection ExtractionResult :=
  match input.validate 10 with
  | .error errors => .error (.validation errors)
  | .ok request =>
    match service.extract (n := 10) request with
    | .error error => .error (.extraction error)
    | .ok result => .ok result

/-- The sources whose `infer` call `create_extraction` makes. -/
def createExtractionCalls (input : BatchInput) : List SourceText :=
  match input.validate 10 with
  | .error _ => []
  | .ok request => service.extractCalls (n := 10) request

variable {service}

/-- Only the calls that are made matter. -/
theorem processSources_withInfer {infer : String → String → List Value → Except Exc Mapping}
    {propertyNames : List Value} {model : ResolvedModelReference} {sources : List SourceText}
    (h : ∀ source ∈ service.processCalls propertyNames model sources,
      infer source.id source.text propertyNames =
        service.inferenceProvider.infer source.id source.text propertyNames) :
    (service.withInfer infer).processSources propertyNames model sources =
      service.processSources propertyNames model sources := by
  induction sources with
  | nil => rfl
  | cons source sources ih =>
    have hsource : (service.withInfer infer).processSourceWithModel source.id source.text propertyNames model =
        service.processSourceWithModel source.id source.text propertyNames model :=
      processSourceWithModel_congr (by rfl) (h source (by simp [processCalls])) model model
    rw [processCalls] at h
    rw [processSources, processSources, hsource]
    rcases hp : service.processSourceWithModel source.id source.text propertyNames model with error | outcome
    · rfl
    · rw [hp] at h
      rw [ih fun s hs => h s (List.mem_cons_of_mem _ hs)]

theorem extract_withInfer {n : ℕ} {infer : String → String → List Value → Except Exc Mapping}
    {request : Batch n} (h : ∀ source ∈ service.extractCalls request,
      infer source.id source.text request.schema.propertyNames =
        service.inferenceProvider.infer source.id source.text request.schema.propertyNames) :
    (service.withInfer infer).extract request = service.extract request := by
  rw [extractCalls] at h
  have hlimits : (service.withInfer infer).validateLimits request = service.validateLimits request := rfl
  have hmodel : (service.withInfer infer).resolveModel request = service.resolveModel request := rfl
  rw [extract, extract, hlimits, hmodel]
  rcases hl : service.validateLimits request with error | u
  · rfl
  · rcases hm : service.resolveModel request with error | model
    · rfl
    · rw [hl, hm] at h
      simp only [processSources_withInfer h]
      rfl

theorem accept_eq_ok_iff {input : BatchInput} {request : ExtractionRequest} :
    service.accept input = .ok request ↔
      input.validate 10 = .ok request ∧ service.validateLimits request = .ok () := by
  rw [accept]
  rcases hv : input.validate 10 with errors | validated
  · simp
  · rcases hl : service.validateLimits validated with error | u
    · simp only [hl]
      refine iff_of_false (by simp) ?_
      rintro ⟨⟨⟩, hlimits⟩
      rw [hl] at hlimits
      simp at hlimits
    · simp only [hl, Except.ok.injEq]
      constructor
      · rintro rfl
        exact ⟨rfl, hl⟩
      · exact And.left

/-- The provider matters to an answer through the calls that are made only. -/
theorem createExtraction_withInfer {infer : String → String → List Value → Except Exc Mapping}
    {input : BatchInput} (h : ∀ request : ExtractionRequest, input.validate 10 = .ok request →
      ∀ source ∈ service.createExtractionCalls input,
        infer source.id source.text request.schema.propertyNames =
          service.inferenceProvider.infer source.id source.text request.schema.propertyNames) :
    (service.withInfer infer).createExtraction input = service.createExtraction input := by
  rw [createExtraction, createExtraction]
  rcases hv : input.validate 10 with errors | request
  · rfl
  · have hcalls : service.createExtractionCalls input = service.extractCalls request := by
      rw [createExtractionCalls]
      simp only [hv]
    rw [hcalls] at h
    simp only [extract_withInfer (h request hv)]

/-- The synchronous route accepts the bodies within its limits that are not longer than 10. -/
theorem exists_accept_iff {input : BatchInput} :
    (∃ request, service.accept input = .ok request) ↔
      input.Acceptable service.maxTexts service.maxCharacters ∧ input.texts.length ≤ 10 := by
  simp only [accept_eq_ok_iff]
  exact exists_within_limits_iff

/-- A body that is not accepted is answered with an error, before any provider call. -/
theorem createExtraction_of_not_accept {input : BatchInput} (h : ∀ request, service.accept input ≠ .ok request) :
    (∃ rejection, service.createExtraction input = .error rejection) ∧ service.createExtractionCalls input = [] := by
  rw [createExtraction, createExtractionCalls]
  rcases hv : input.validate 10 with errors | request
  · exact ⟨⟨_, rfl⟩, rfl⟩
  · rcases hl : service.validateLimits request with error | u
    · simp only [extract, extractCalls, hl]
      exact ⟨⟨_, rfl⟩, trivial⟩
    · exact absurd (accept_eq_ok_iff.2 ⟨hv, hl⟩) (h request)

end ExtractionService

/-! ### The `INSERT`s of a validated batch -/

section CreateTask
variable {τ : Type} {db : Db τ} {taskId : String} {criteria model : List (Key × Value)}
  {sources : List (String × String)}

/-- Sources with distinct ids go in after the rows before position `n`. -/
theorem insertItems_of_nodup (items : Table (ItemRow.key (τ := τ))) (n : ℕ)
    (hold : ∀ i ∈ items.rows, i.taskId = taskId → i.position < n ∧ i.sourceId ∉ sources.map Prod.fst)
    (hnd : (sources.map Prod.fst).Nodup) :
    ∃ items', insertItems taskId items (sources.zipIdx n) = some items' := by
  induction sources generalizing items n with
  | nil => exact ⟨items, rfl⟩
  | cons source sources ih =>
    rw [List.map_cons, List.nodup_cons] at hnd
    have hunique : items.rows.any (fun i => i.taskId = taskId ∧ i.sourceId = source.1) = false := by
      rw [List.any_eq_false]
      intro i hi
      simp only [decide_eq_true_eq]
      rintro ⟨htask, hsource⟩
      exact (hold i hi htask).2 (by simp [hsource])
    rcases hins : items.insert? (newItem taskId (source, n)) with - | items'
    · rw [Table.insert?_eq_none_iff, Option.isSome_iff_exists] at hins
      obtain ⟨i, hi⟩ := hins
      obtain ⟨hmem, hkey⟩ := Table.lookup_eq_some_iff.1 hi
      have htask : i.taskId = taskId := congrArg Prod.fst hkey
      have hposition : i.position = n := congrArg Prod.snd hkey
      have hlt := (hold i hmem htask).1
      omega
    · have hold' : ∀ i ∈ items'.rows, i.taskId = taskId →
          i.position < (n + 1 : ℕ) ∧ i.sourceId ∉ sources.map Prod.fst := by
        intro i hi htask
        rw [Table.rows_of_insert? hins, List.mem_append, List.mem_singleton] at hi
        rcases hi with hi | rfl
        · obtain ⟨hlt, hnot⟩ := hold i hi htask
          exact ⟨by omega, fun hmem => hnot (List.mem_cons_of_mem _ hmem)⟩
        · exact ⟨by simp [newItem], hnd.1⟩
      obtain ⟨items'', hrest⟩ := ih _ _ hold' hnd.2
      refine ⟨items'', ?_⟩
      rw [List.zipIdx_cons, insertItems, hunique]
      simp only [hins, Bool.false_eq_true, if_false]
      exact hrest

/-- With a fresh id, distinct source ids and payloads that encode, `create_task` answers a task. -/
theorem createTask_of_nodup (ownerId : String) (createdAt expiresAt : τ) (hc : db.Closed)
    (hfresh : db.view taskId = none) (hne : sources ≠ []) (hnd : (sources.map Prod.fst).Nodup)
    (hcriteria : ∃ cj, canonicalJson (.dict criteria) = .ok cj)
    (hmodel : ∃ mj, canonicalJson (.dict model) = .ok mj) :
    ∃ task, (createTask taskId ownerId criteria model sources createdAt expiresAt db).1 = .ok task := by
  obtain ⟨cj, hcj⟩ := hcriteria
  obtain ⟨mj, hmj⟩ := hmodel
  have hnone : db.tasks.lookup taskId = none := Db.view_eq_none.1 hfresh
  obtain ⟨items, hitems⟩ := insertItems_of_nodup db.items 0
    (fun _ hi htask => absurd htask (hc.not_mem_items hfresh hi)) hnd
  have hinsert : (insertTask taskId ownerId criteria model sources createdAt expiresAt db).1 = .ok () := by
    rcases htasks : db.tasks.insert? (newTask taskId ownerId cj mj sources.length createdAt expiresAt) with - | tasks
    · rw [Table.insert?_eq_none_iff, show (newTask taskId ownerId cj mj sources.length createdAt
        expiresAt).taskId = taskId from rfl, hnone] at htasks
      simp at htasks
    · rw [insertTask, if_neg hne, hcj, hmj]
      simp only [htasks, hitems]
  rcases createTask_cases hc taskId ownerId criteria model sources createdAt expiresAt with
    ⟨error, herror⟩ | ⟨_, _, task, _, _, _, _, hok, _⟩
  · rcases insertTask_cases hc taskId ownerId criteria model sources createdAt expiresAt with
      ⟨error', herror'⟩ | ⟨_, _, _, _, _, _, _, hrep⟩
    · rw [herror'] at hinsert
      simp at hinsert
    · have hview := hrep.view_self
      rw [← Call.snd_createTask, herror, hfresh] at hview
      simp at hview
  · exact ⟨task, hok⟩

theorem canonicalJson_modelDump (schema : ExtractionSchema) :
    ∃ cj, canonicalJson (.dict schema.modelDump) = .ok cj := by
  have hjson : (Value.dict schema.modelDump).IsJson := by
    simp only [ExtractionSchema.modelDump, Value.IsJson, IsJsonItems, Key.isStr, List.map_cons, List.map_nil,
      List.nodup_singleton, and_true, true_and]
    refine isJsonList_map (fun definition => ?_) _
    rcases definition.description with - | description <;> simp [Value.IsJson, IsJsonItems, Key.isStr]
  obtain ⟨cj, hcj, -⟩ := loads_dumps _ hjson
  exact ⟨cj, hcj⟩

end CreateTask

/-! ### The asynchronous route -/

/-- A catalog that answers with the strings its protocol promises. -/
def ModelCatalog.Resolves (catalog : ModelCatalog) : Prop :=
  ∀ name version, ∃ resolvedName resolvedVersion : String,
    catalog.resolve name version = .ok ⟨.str resolvedName, .str resolvedVersion⟩

namespace ExtractionTaskService

variable {τ : Type} [LinearOrder τ] [VAdd ℤ τ] (service : ExtractionTaskService) (inRange : τ → Bool)

/-- `submit`, where `inRange` tells which times a `datetime` can be. -/
def submitWithin (taskId ownerId : String) (request : ExtractionTaskRequest) (now : τ) (db : Db τ) :
    Except ExtractionError (ExtractionTaskRecord τ) × Db τ :=
  match checkLimits service.maxTexts service.maxCharacters request.texts with
  | .error error => (.error error, db)
  | .ok _ =>
    match service.extractionService.resolveModel request with
    | .error error => (.error (.raised error), db)
    | .ok model =>
      match addTimedelta inRange now service.retention with
      | .error error => (.error (.raised error), db)
      | .ok expiresAt =>
        match createTask taskId ownerId request.schema.modelDump (service.modelSnapshot model)
          (request.texts.map fun source => (source.id, source.text)) now expiresAt db with
        | (.error error, db) => (.error (.raised error), db)
        | (.ok task, db) => (.ok task, db)

/-- `create_extraction_task` of an authenticated owner. -/
def createExtractionTask (taskId ownerId : String) (input : BatchInput) (now : τ) (db : Db τ) :
    Except Rejection (ExtractionTaskRecord τ) × Db τ :=
  match input.validate 100 with
  | .error errors => (.error (.validation errors), db)
  | .ok request =>
    match service.submitWithin inRange taskId ownerId request now db with
    | (.error error, db) => (.error (.extraction error), db)
    | (.ok task, db) => (.ok task, db)

variable {service inRange} {taskId ownerId : String} {now : τ} {db : Db τ}

omit [LinearOrder τ] in
/-- Where `now + retention` is a time, this is `submit`. -/
theorem submitWithin_eq_submit {request : ExtractionTaskRequest} (h : inRange (service.retention +ᵥ now) = true) :
    service.submitWithin inRange taskId ownerId request now db = service.submit taskId ownerId request now db := by
  have hadd : addTimedelta inRange now service.retention = .ok (service.retention +ᵥ now) := if_pos h
  unfold submitWithin
  simp only [hadd]
  rfl

theorem canonicalJson_modelSnapshot (service : ExtractionTaskService) (name version : String) :
    ∃ mj, canonicalJson (.dict (service.modelSnapshot ⟨.str name, .str version⟩)) = .ok mj := by
  have hjson : (Value.dict (service.modelSnapshot ⟨.str name, .str version⟩)).IsJson := by
    simp [modelSnapshot, Value.IsJson, IsJsonItems, Key.isStr]
  obtain ⟨mj, hmj, -⟩ := loads_dumps _ hjson
  exact ⟨mj, hmj⟩

omit [LinearOrder τ] in
/-- A validated batch under a fresh task id: the limits and the expiry decide, and what is refused
leaves the store as it was. -/
theorem submitWithin_cases (service : ExtractionTaskService) (inRange : τ → Bool) (ownerId : String) (now : τ)
    (hcatalog : service.extractionService.modelCatalog.Resolves) (hc : db.Closed)
    (hfresh : db.view taskId = none) (request : ExtractionTaskRequest) :
    (∃ error, service.submitWithin inRange taskId ownerId request now db = (.error error, db) ∧
      error ≠ .raised (valueError "Task or source identifiers must be unique") ∧
      ¬(checkLimits service.maxTexts service.maxCharacters request.texts = .ok () ∧
        inRange (service.retention +ᵥ now) = true)) ∨
    ∃ task, (service.submitWithin inRange taskId ownerId request now db).1 = .ok task ∧
      checkLimits service.maxTexts service.maxCharacters request.texts = .ok () ∧
      inRange (service.retention +ᵥ now) = true := by
  unfold submitWithin
  rcases hlimits : checkLimits service.maxTexts service.maxCharacters request.texts with error | u
  · refine .inl ⟨error, rfl, ?_, by simp⟩
    unfold checkLimits at hlimits
    split_ifs at hlimits <;> cases hlimits <;> simp
  obtain ⟨name, version, hresolve⟩ := hcatalog (request.model.map ModelSelection.name)
    (request.model.bind ModelSelection.version)
  have hmodel : service.extractionService.resolveModel request = .ok ⟨.str name, .str version⟩ := hresolve
  by_cases hrange : inRange (service.retention +ᵥ now) = true
  · have hids : ((request.texts.map fun source => (source.id, source.text)).map Prod.fst).Nodup := by
      rw [List.map_map]
      exact request.ids_nodup
    obtain ⟨task, htask⟩ := createTask_of_nodup ownerId now (service.retention +ᵥ now) hc hfresh
      (by simp [request.texts_ne]) hids (canonicalJson_modelDump request.schema)
      (canonicalJson_modelSnapshot service name version)
    refine .inr ⟨task, ?_, rfl, hrange⟩
    simp only [hmodel, addTimedelta, hrange, if_true]
    generalize createTask taskId ownerId _ _ _ now _ db = answer at htask ⊢
    obtain ⟨answer, db'⟩ := answer
    cases htask
    rfl
  · simp only [hmodel, addTimedelta, hrange]
    exact .inl ⟨_, rfl, by simp [valueError], by simp⟩

omit [LinearOrder τ] in
/-- The asynchronous route under a fresh task id accepts the bodies within its limits that are not
longer than 100, when their expiry is a time. -/
theorem createExtractionTask_cases (service : ExtractionTaskService) (inRange : τ → Bool) (ownerId : String)
    (now : τ) (hcatalog : service.extractionService.modelCatalog.Resolves) (hc : db.Closed)
    (hfresh : db.view taskId = none) (input : BatchInput) :
    (∃ rejection, service.createExtractionTask inRange taskId ownerId input now db = (.error rejection, db) ∧
      rejection ≠ .extraction (.raised (valueError "Task or source identifiers must be unique")) ∧
      ¬(input.Acceptable service.maxTexts service.maxCharacters ∧ input.texts.length ≤ 100 ∧
        inRange (service.retention +ᵥ now) = true)) ∨
    ∃ task, (service.createExtractionTask inRange taskId ownerId input now db).1 = .ok task ∧
      input.Acceptable service.maxTexts service.maxCharacters ∧ input.texts.length ≤ 100 ∧
      inRange (service.retention +ᵥ now) = true := by
  unfold createExtractionTask
  rcases hvalid : input.validate 100 with errors | request
  · refine .inl ⟨.validation errors, rfl, by simp, ?_⟩
    rintro ⟨hacc, hlength, -⟩
    obtain ⟨request, hrequest⟩ := BatchInput.exists_validate_iff.2 ⟨hacc.wellFormed, hlength⟩
    rw [hvalid] at hrequest
    simp at hrequest
  have hnorm := BatchInput.validate_eq_ok_iff.1 hvalid
  rcases submitWithin_cases service inRange ownerId now hcatalog hc hfresh request with
    ⟨error, heq, hne, hnot⟩ | ⟨task, hok, hlimits, hrange⟩
  · refine .inl ⟨.extraction error, ?_, by simpa using hne, ?_⟩
    · simp only [heq]
    · rintro ⟨hacc, -, hrange⟩
      exact hnot ⟨hnorm.checkLimits_iff.2 hacc, hrange⟩
  · refine .inr ⟨task, ?_, hnorm.checkLimits_iff.1 hlimits,
      hnorm.texts.length_eq.trans_le request.texts_length, hrange⟩
    dsimp only
    generalize service.submitWithin inRange taskId ownerId request now db = answer at hok ⊢
    obtain ⟨answer, db'⟩ := answer
    cases hok
    rfl

end ExtractionTaskService

/-! ### Against the configuration -/

namespace Settings

/-- The services of `create_app`. -/
def extractionService (settings : Settings) (provider : InferenceProvider) (estimator : UncertaintyEstimator)
    (catalog : ModelCatalog) : ExtractionService where
  inferenceProvider := provider
  uncertaintyEstimator := estimator
  modelCatalog := catalog
  maxTexts := settings.maxExtractionTexts
  maxCharacters := settings.maxExtractionCharacters

/-- `timedelta(seconds=seconds)` in microseconds. -/
def microseconds (seconds : ℕ+) : ℤ := seconds * 1000000

def taskService (settings : Settings) (extractionService : ExtractionService) : ExtractionTaskService where
  extractionService := extractionService
  maxTexts := settings.asyncExtractionMaxTexts
  maxCharacters := settings.asyncExtractionMaxCharacters
  retention := microseconds settings.taskRetentionSeconds
  tombstone := microseconds settings.taskTombstoneSeconds
  lease := microseconds settings.taskLeaseSeconds

end Settings

/-- The synchronous route accepts a body exactly when it is within the limits, and answers what it does not
accept without a provider call. -/
def SynchronousExact (service : ExtractionService) (maxTexts maxCharacters : ℕ) (input : BatchInput) : Prop :=
  ((∃ request, service.accept input = .ok request) ↔ input.Acceptable maxTexts maxCharacters) ∧
    ((∀ request, service.accept input ≠ .ok request) →
      (∃ rejection, service.createExtraction input = .error rejection) ∧
        service.createExtractionCalls input = [])

section Asynchronous
variable {τ : Type} [VAdd ℤ τ]

/-- The asynchronous route accepts a body exactly when it is within the limits, writes nothing for what it
does not accept, never reads the provider's `infer`, and never meets a duplicate. -/
def AsynchronousExact (service : ExtractionTaskService) (inRange : τ → Bool) (maxTexts maxCharacters : ℕ)
    (taskId ownerId : String) (now : τ) (db : Db τ) (input : BatchInput) : Prop :=
  ((∃ task, (service.createExtractionTask inRange taskId ownerId input now db).1 = .ok task) ↔
      input.Acceptable maxTexts maxCharacters) ∧
    ((∀ task, (service.createExtractionTask inRange taskId ownerId input now db).1 ≠ .ok task) →
      (service.createExtractionTask inRange taskId ownerId input now db).2 = db) ∧
    (∀ infer, { service with extractionService := service.extractionService.withInfer infer }.createExtractionTask
      inRange taskId ownerId input now db = service.createExtractionTask inRange taskId ownerId input now db) ∧
    (service.createExtractionTask inRange taskId ownerId input now db).1 ≠
      .error (.extraction (.raised (valueError "Task or source identifiers must be unique")))

end Asynchronous

theorem synchronousExact_iff (service : ExtractionService) (input : BatchInput) :
    SynchronousExact service service.maxTexts service.maxCharacters input ↔
      (input.Acceptable service.maxTexts service.maxCharacters → input.texts.length ≤ 10) := by
  rw [SynchronousExact, ExtractionService.exists_accept_iff]
  constructor
  · rintro ⟨hexact, -⟩ hacc
    exact (hexact.2 hacc).2
  · intro h
    exact ⟨⟨And.left, fun hacc => ⟨hacc, h hacc⟩⟩, ExtractionService.createExtraction_of_not_accept⟩

theorem asynchronousExact_iff {τ : Type} [VAdd ℤ τ] (service : ExtractionTaskService) (inRange : τ → Bool)
    {taskId : String} (ownerId : String) (now : τ) {db : Db τ} (input : BatchInput)
    (hcatalog : service.extractionService.modelCatalog.Resolves) (hc : db.Closed) (hfresh : db.view taskId = none) :
    AsynchronousExact service inRange service.maxTexts service.maxCharacters taskId ownerId now db input ↔
      (input.Acceptable service.maxTexts service.maxCharacters →
        input.texts.length ≤ 100 ∧ inRange (service.retention +ᵥ now) = true) := by
  rw [AsynchronousExact]
  rcases ExtractionTaskService.createExtractionTask_cases service inRange ownerId now hcatalog hc hfresh input with
    ⟨rejection, heq, hne, hnot⟩ | ⟨task, hok, hacc, hlength, hrange⟩
  · rw [heq]
    constructor
    · rintro ⟨hexact, -⟩ hacc
      obtain ⟨task, ⟨⟩⟩ := hexact.2 hacc
    · intro h
      have hnacc : ¬input.Acceptable service.maxTexts service.maxCharacters := fun hacc => hnot ⟨hacc, h hacc⟩
      refine ⟨iff_of_false (by rintro ⟨task, ⟨⟩⟩) hnacc, fun _ => rfl, fun _ => heq, ?_⟩
      simpa using hne
  · refine iff_of_true ⟨iff_of_true ⟨task, hok⟩ hacc, fun h => absurd hok (h task), fun _ => rfl, ?_⟩
      fun _ => ⟨hlength, hrange⟩
    rw [hok]
    rintro ⟨⟩

/-- A body of `k` texts of one character. -/
def plainBody (k : ℕ) : BatchInput where
  texts := (List.range k).map fun i => ⟨String.ofList (List.replicate (i + 1) 'a'), "x"⟩
  schema := ⟨[{ name := "p", type := .string }]⟩

theorem strip_replicate (n : ℕ) : strip (String.ofList (List.replicate (n + 1) 'a')) =
    String.ofList (List.replicate (n + 1) 'a') := by
  have hdrop : (List.replicate (n + 1) 'a').dropWhile isSpace = List.replicate (n + 1) 'a' :=
    List.dropWhile_cons_of_neg (by decide)
  rw [strip, String.toList_ofList, hdrop, List.reverse_replicate, hdrop, List.reverse_replicate]

theorem plainBody_acceptable {k maxTexts maxCharacters : ℕ} (hk : 0 < k) (htexts : k ≤ maxTexts)
    (hcharacters : k ≤ maxCharacters) : (plainBody k).Acceptable maxTexts maxCharacters := by
  have hx : strip "x" = "x" := by decide
  have hlength : (strip "x").length = 1 := by decide
  have hp : strip "p" = "p" := by decide
  refine ⟨⟨?_, ?_, ?_, ?_, ?_, ?_, ?_⟩, ?_, ?_⟩
  · simp [plainBody, hk.ne']
  · intro source hsource
    obtain ⟨i, -, rfl⟩ := List.mem_map.1 hsource
    simp only [strip_replicate, hx]
    simp
  · rw [plainBody, List.map_map]
    refine List.Nodup.map (fun i j hij => ?_) List.nodup_range
    simp only [Function.comp_apply, strip_replicate, String.ofList_inj] at hij
    simpa using congrArg List.length hij
  · simp [plainBody]
  · simp [plainBody, hp]
  · simp [plainBody]
  · simp [plainBody]
  · simpa [plainBody] using htexts
  · have hcount : ((plainBody k).texts.map fun source => (strip source.text).length).sum = k := by
      rw [plainBody, List.map_map]
      simp [Function.comp_def, hlength]
    omega

/-- Both routes follow the configuration on exactly the bodies within its limits that are not longer than the
constants of the request types and, for a task, expire at a time there is. -/
theorem requests_exact_iff {τ : Type} [LinearOrder τ] [VAdd ℤ τ] (settings : Settings)
    (provider : InferenceProvider) (estimator : UncertaintyEstimator) (catalog : ModelCatalog)
    (hcatalog : catalog.Resolves) (inRange : τ → Bool) (before : List (Call τ)) (taskId ownerId : String)
    (hfresh : (Db.run before).view taskId = none) (now : τ) (input : BatchInput) :
    (SynchronousExact (settings.extractionService provider estimator catalog)
        settings.maxExtractionTexts settings.maxExtractionCharacters input ∧
      AsynchronousExact (settings.taskService (settings.extractionService provider estimator catalog)) inRange
        settings.asyncExtractionMaxTexts settings.asyncExtractionMaxCharacters taskId ownerId now
        (Db.run before) input) ↔
      (input.Acceptable settings.maxExtractionTexts settings.maxExtractionCharacters → input.texts.length ≤ 10) ∧
      (input.Acceptable settings.asyncExtractionMaxTexts settings.asyncExtractionMaxCharacters →
        input.texts.length ≤ 100 ∧
          inRange (Settings.microseconds settings.taskRetentionSeconds +ᵥ now) = true) :=
  and_congr (synchronousExact_iff ..) (asynchronousExact_iff _ _ _ _ _ hcatalog (Db.closed_run before) hfresh)

/-- Settings with the defaults and `EXTRACTION_MAX_TEXTS=11`. -/
def elevenTexts : Settings where
  maxArtifactSize := 52428800
  maxExtractionTexts := 11
  maxExtractionCharacters := 100000
  asyncExtractionMaxTexts := 100
  asyncExtractionMaxCharacters := 1000000
  taskRetentionSeconds := 86400
  taskTombstoneSeconds := 604800
  taskLeaseSeconds := 300
  taskPollSeconds := ⟨.finite "0.25", by decide +kernel⟩

/-- The environment they come from. -/
def elevenTextsEnvironment : Environment where
  getenv name := if name = "EXTRACTION_MAX_TEXTS" then some "11" else none
  int text :=
    if text.toList.all Char.isDigit ∧ text ≠ "" then
      .ok (text.toList.foldl (fun (n : ℕ) c => 10 * n + (c.toNat - '0'.toNat)) 0 : ℕ)
    else .error (valueError ("invalid literal for int() with base 10: '" ++ text ++ "'"))
  float text := .ok (.finite text)

theorem fromEnvironment_elevenTexts : Settings.fromEnvironment elevenTextsEnvironment = .ok elevenTexts := by
  rw [Settings.fromEnvironment_eq_ok_iff]
  exact ⟨rfl, rfl, rfl, rfl, rfl, rfl, rfl, rfl, rfl, by decide +kernel⟩

theorem stubModelCatalog_resolves : stubModelCatalog.Resolves := fun _ _ => ⟨_, _, rfl⟩

/-- The microseconds since the epoch that a `datetime` can be. -/
def isDatetime (t : ℤ) : Bool := -62135596800000000 ≤ t ∧ t < 253402300800000000

/-- Two texts pass both routes. -/
theorem requests_exact_sample :
    SynchronousExact (elevenTexts.extractionService (stubInferenceProvider []) stubUncertaintyEstimator
        stubModelCatalog) elevenTexts.maxExtractionTexts elevenTexts.maxExtractionCharacters (plainBody 2) ∧
      AsynchronousExact (elevenTexts.taskService (elevenTexts.extractionService (stubInferenceProvider [])
        stubUncertaintyEstimator stubModelCatalog)) isDatetime elevenTexts.asyncExtractionMaxTexts
        elevenTexts.asyncExtractionMaxCharacters "t" "o" (0 : ℤ) (Db.run []) (plainBody 2) :=
  (requests_exact_iff elevenTexts (stubInferenceProvider []) stubUncertaintyEstimator stubModelCatalog
    stubModelCatalog_resolves isDatetime [] "t" "o" rfl 0 (plainBody 2)).2
    ⟨fun _ => by simp [plainBody], fun _ => ⟨by simp [plainBody], by decide⟩⟩

/-- With `EXTRACTION_MAX_TEXTS=11`, eleven texts are refused. -/
theorem eleven_texts_refused :
    Settings.fromEnvironment elevenTextsEnvironment = .ok elevenTexts ∧
      (plainBody 11).Acceptable elevenTexts.maxExtractionTexts elevenTexts.maxExtractionCharacters ∧
      ¬SynchronousExact (elevenTexts.extractionService (stubInferenceProvider []) stubUncertaintyEstimator
        stubModelCatalog) elevenTexts.maxExtractionTexts elevenTexts.maxExtractionCharacters (plainBody 11) := by
  have hacc : (plainBody 11).Acceptable elevenTexts.maxExtractionTexts elevenTexts.maxExtractionCharacters :=
    plainBody_acceptable (by decide) (by decide) (by decide)
  refine ⟨fromEnvironment_elevenTexts, hacc, fun hexact => ?_⟩
  have hle := (synchronousExact_iff ..).1 hexact hacc
  simp [plainBody] at hle

/-! ### Which configurations are followed throughout -/

/-- No text is empty after `strip`. -/
theorem BatchInput.WellFormed.length_le {input : BatchInput} (h : input.WellFormed) :
    input.texts.length ≤ (input.texts.map fun source => (strip source.text).length).sum := by
  have hone : ∀ n ∈ input.texts.map fun source => (strip source.text).length, 1 ≤ n := by
    intro n hn
    obtain ⟨source, hsource, rfl⟩ := List.mem_map.1 hn
    rw [Nat.one_le_iff_ne_zero, Ne, String.length_eq_zero_iff]
    exact (h.sources source hsource).2
  simpa using List.length_le_sum_of_one_le _ hone

theorem forall_length_le_iff {maxTexts maxCharacters n : ℕ} :
    (∀ input : BatchInput, input.Acceptable maxTexts maxCharacters → input.texts.length ≤ n) ↔
      min maxTexts maxCharacters ≤ n := by
  constructor
  · intro h
    by_contra hlt
    have hle := h (plainBody (n + 1)) (plainBody_acceptable (by omega) (by omega) (by omega))
    simp [plainBody] at hle
  · intro h input hacc
    have htexts := hacc.texts
    have hcharacters := hacc.wellFormed.length_le.trans hacc.characters
    omega

/-- Both routes follow a configuration on every body exactly when it asks for no more than the constants of the
request types, and for a retention that ends at a time there is. -/
theorem configuration_exact_iff {τ : Type} [LinearOrder τ] [VAdd ℤ τ] (settings : Settings)
    (provider : InferenceProvider) (estimator : UncertaintyEstimator) (catalog : ModelCatalog)
    (hcatalog : catalog.Resolves) (inRange : τ → Bool) (before : List (Call τ)) (taskId ownerId : String)
    (hfresh : (Db.run before).view taskId = none) (now : τ) :
    (∀ input, SynchronousExact (settings.extractionService provider estimator catalog)
        settings.maxExtractionTexts settings.maxExtractionCharacters input ∧
      AsynchronousExact (settings.taskService (settings.extractionService provider estimator catalog)) inRange
        settings.asyncExtractionMaxTexts settings.asyncExtractionMaxCharacters taskId ownerId now
        (Db.run before) input) ↔
      min (settings.maxExtractionTexts : ℕ) settings.maxExtractionCharacters ≤ 10 ∧
      min (settings.asyncExtractionMaxTexts : ℕ) settings.asyncExtractionMaxCharacters ≤ 100 ∧
      inRange (Settings.microseconds settings.taskRetentionSeconds +ᵥ now) = true := by
  have hsync := synchronousExact_iff (settings.extractionService provider estimator catalog)
  have hasync := fun input => asynchronousExact_iff
    (settings.taskService (settings.extractionService provider estimator catalog)) inRange ownerId now input
    hcatalog (Db.closed_run before) hfresh
  have hone : (plainBody 1).Acceptable settings.asyncExtractionMaxTexts settings.asyncExtractionMaxCharacters :=
    plainBody_acceptable one_pos settings.asyncExtractionMaxTexts.pos settings.asyncExtractionMaxCharacters.pos
  rw [forall_and]
  refine and_congr ((forall_congr' hsync).trans forall_length_le_iff) ((forall_congr' hasync).trans ?_)
  simp only [imp_and, forall_and]
  refine and_congr forall_length_le_iff ?_
  constructor
  · intro h
    exact h _ hone
  · intro h _ _
    exact h

end TextExtraction
