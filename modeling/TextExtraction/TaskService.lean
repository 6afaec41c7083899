import TextExtraction.Requests
import TextExtraction.TaskRepository

/-!
# The task service

`task_service.py` over the repository: acceptance, owner-scoped reads, and the worker. The clock
and `uuid4` are arguments (`now`, `taskId`). `_process_claimed_task` is cut at its repository and
provider calls: `WorkerState` is where a worker stands between two of them, with everything it holds
in memory, and `workerStep` takes it to the next.
-/

namespace TextExtraction

open Python Relational

variable {τ : Type}

/-- The exceptions of the service, and everything else raised. -/
inductive TaskServiceError
  | taskNotFound
  | taskExpired
  | resultsPending (status : String)
  | raised (error : Exc)

def TaskServiceError.str : TaskServiceError → Except Exc String
  | taskNotFound => .ok "Task was not found"
  | taskExpired => .ok "Task results have expired"
  | resultsPending _ => .ok "Final task results are not yet available"
  | raised error => error.str

structure TaskResultsRecord (τ : Type) where
  task : ExtractionTaskRecord τ
  executionMode : ExecutionMode
  model : ResolvedModelReference
  outcomes : List ExtractionOutcome

structure ExtractionTaskService where
  extractionService : ExtractionService
  maxTexts : ℕ
  maxCharacters : ℕ
  retention : ℤ
  tombstone : ℤ
  lease : ℤ

/-! ### Payloads -/

/-- `asdict(result)`; the status members are strings. -/
def PropertyResult.asdict (result : PropertyResult) : Except Exc Value :=
  match asdictInner result.value with
  | .error e => .error e
  | .ok value =>
    match asdictInner result.uncertainty.value with
    | .error e => .error e
    | .ok uncertainty =>
      .ok (.dict [(.str "value", value), (.str "inference_status", .str result.inferenceStatus.value),
        (.str "uncertainty", .dict [(.str "value", uncertainty),
          (.str "status", .str result.uncertainty.status.value)])])

/-- `name in property_names`. -/
def isRequested (propertyNames : List Value) (name : Key) : Bool :=
  propertyNames.any fun requested =>
    match requested.toKey with
    | .ok key => key.same name
    | .error _ => false

/-- The payload of a completed outcome. -/
def outcomePayload (propertyNames : List Value) :
    List (Key × PropertyResult) → Except Exc (List (Key × Value))
  | [] => .ok []
  | (name, result) :: rest =>
    if isRequested propertyNames name then
      match result.asdict with
      | .error e => .error e
      | .ok value =>
        match outcomePayload propertyNames rest with
        | .error e => .error e
        | .ok payload => .ok ((name, value) :: payload)
    else outcomePayload propertyNames rest

/-- `asdict(failure)`. -/
def ItemError.asdict (error : ItemError) : List (String × String) :=
  [("code", error.code), ("detail", error.detail)]

/-- The `outcome` and `error` arguments of `finalize_item`. -/
def finalizeArguments (propertyNames : List Value) (outcome : ExtractionOutcome) :
    Except Exc (Option (List (Key × Value)) × Option (List (String × String))) :=
  match outcome.status with
  | .completed => (outcomePayload propertyNames outcome.properties).map fun payload => (some payload, none)
  | .failed =>
    let failure := outcome.error.getD ⟨"processing_failed", "Source processing failed"⟩
    .ok (none, some failure.asdict)

/-! ### Restoring outcomes -/

/-- `value[name]` where the column only ever holds strings. -/
def Value.strItem (value : Value) (name : String) : Except Exc String :=
  match value.getItem name with
  | .ok (.str s) => .ok s
  | .ok v => .error (.raised .typeError ("expected str, not " ++ v.typeName))
  | .error e => .error e

/-- One entry of the loop in `_restore_outcome`. -/
def restoreProperty (value : Value) : Except Exc PropertyResult := do
  let uncertainty ← value.getItem "uncertainty"
  let inferred ← value.getItem "value"
  let inferenceStatus ← value.getItem "inference_status"
  let inferenceStatus ← InferenceStatus.ofValue inferenceStatus
  let uncertaintyValue ← uncertainty.getItem "value"
  let uncertaintyStatus ← uncertainty.getItem "status"
  let uncertaintyStatus ← UncertaintyStatus.ofValue uncertaintyStatus
  return ⟨inferred, inferenceStatus, ⟨uncertaintyValue, uncertaintyStatus⟩⟩

def restoreProperties : List (Key × Value) → List (Key × PropertyResult) →
    Except Exc (List (Key × PropertyResult))
  | [], restored => .ok restored
  | (name, value) :: rest, restored => do
    let result ← restoreProperty value
    restoreProperties rest (setItem restored name result)

/-- `_restore_outcome`. -/
def restoreOutcome (sourceId : String) (properties error : Value) : Except Exc ExtractionOutcome :=
  if error.isNone then do
    let items ← if properties.truthy then properties.dictItems else .ok []
    let properties ← restoreProperties items []
    return { sourceId, status := .completed, properties }
  else do
    let code ← Value.strItem error "code"
    let detail ← Value.strItem error "detail"
    return { sourceId, status := .failed, error := some ⟨code, detail⟩ }

/-- The list comprehension of `get_results`. -/
def restoreOutcomes : List (ExtractionTaskItemRecord τ) → Except Exc (List ExtractionOutcome)
  | [] => .ok []
  | item :: items => do
    let outcome ← restoreOutcome item.sourceId item.outcome item.error
    let outcomes ← restoreOutcomes items
    return outcome :: outcomes

/-- What `get_results` builds from a terminal task. -/
def taskResults (task : ExtractionTaskRecord τ) (items : List (ExtractionTaskItemRecord τ)) :
    Except Exc (TaskResultsRecord τ) := do
  let name ← task.model.getItem "name"
  let version ← task.model.getItem "version"
  let outcomes ← restoreOutcomes items
  let mode ← task.model.getItem "execution_mode"
  let executionMode ← ExecutionMode.ofValue mode
  return { task, executionMode, model := ⟨name, version⟩, outcomes }

/-! ### The worker's memory -/

/-- What `_process_claimed_task` reads off the claimed task. -/
structure WorkerContext where
  taskId : String
  propertyNames : List Value
  model : ResolvedModelReference

/-- `[item["name"] for item in values]`. -/
def itemNames : List Value → Except Exc (List Value)
  | [] => .ok []
  | value :: rest => do
    let name ← value.getItem "name"
    let names ← itemNames rest
    return name :: names

/-- `_process_claimed_task` up to its loop. -/
def beginProcessing (task : ExtractionTaskRecord τ) : Except Exc WorkerContext :=
  if task.criteria.isNone ∨ task.model.isNone then
    .error (.raised .runtimeError "Accepted task snapshot is unavailable")
  else do
    let properties ← task.criteria.getItem "properties"
    let properties ← properties.iter
    let propertyNames ← itemNames properties
    let name ← task.model.getItem "name"
    let version ← task.model.getItem "version"
    return ⟨task.taskId, propertyNames, ⟨name, version⟩⟩

/-- Where a worker stands: before the call the constructor is named after. -/
inductive WorkerState (τ : Type)
  | idle
  | renewing (context : WorkerContext)
  | selecting (context : WorkerContext) (now : τ)
  | inferring (context : WorkerContext) (item : ExtractionTaskItemRecord τ)
  | finalizing (context : WorkerContext) (position : ℤ) (outcome : Option (List (Key × Value)))
      (error : Option (List (String × String)))
  | failing (taskId : String) (detail : String)

/-- The error `fail_task` is given. -/
def taskFailure (detail : String) : List (String × String) :=
  [("code", "task_processing_failed"), ("detail", detail)]

/-- The `except` clause up to `fail_task`; when `str(error)` raises, so does the worker. -/
def handleFailure (taskId : String) (error : Exc) : WorkerState τ :=
  match error.str with
  | .ok message => .failing taskId (orElse message "Task processing failed")
  | .error _ => .idle

namespace ExtractionTaskService

variable (service : ExtractionTaskService)

/-- The provider step of the loop: processing one item and building what to persist of it. -/
def processItem (context : WorkerContext) (item : ExtractionTaskItemRecord τ) :
    Except Exc (Option (List (Key × Value)) × Option (List (String × String))) := do
  let outcome ← service.extractionService.processSourceWithModel item.sourceId
    (orElse (item.sourceText.getD "") "") context.propertyNames context.model
  finalizeArguments context.propertyNames outcome

variable [LinearOrder τ] [VAdd ℤ τ]

/-! ### Acceptance, reads and maintenance -/

/-- `model_snapshot`. -/
def modelSnapshot (model : ResolvedModelReference) : List (Key × Value) :=
  [(.str "name", model.name), (.str "version", model.version),
    (.str "execution_mode",
      .str service.extractionService.inferenceProvider.executionMode.value)]

def submit (taskId ownerId : String) (request : ExtractionTaskRequest) (now : τ) (db : Db τ) :
    Except ExtractionError (ExtractionTaskRecord τ) × Db τ :=
  match checkLimits service.maxTexts service.maxCharacters request.texts with
  | .error error => (.error error, db)
  | .ok _ =>
    match service.extractionService.resolveModel request with
    | .error error => (.error (.raised error), db)
    | .ok model =>
      match createTask taskId ownerId request.schema.modelDump (service.modelSnapshot model)
        (request.texts.map fun source => (source.id, source.text)) now (service.retention +ᵥ now) db with
      | (.error error, db) => (.error (.raised error), db)
      | (.ok task, db) => (.ok task, db)

/-- `maintain_retention`, which every read and every worker step starts with. -/
def maintainRetention (now : τ) (db : Db τ) : Db τ :=
  (TextExtraction.maintainRetention now service.tombstone db).2

def getStatus (ownerId taskId : String) (now : τ) (db : Db τ) :
    Except TaskServiceError (ExtractionTaskRecord τ) × Db τ :=
  let db := service.maintainRetention now db
  match TextExtraction.getStatus taskId ownerId db with
  | .error error => (.error (.raised error), db)
  | .ok none => (.error .taskNotFound, db)
  | .ok (some task) => (if task.isPurged then .error .taskExpired else .ok task, db)

def getRunningSummary (ownerId : String) (now : τ) (db : Db τ) : RunningSummary × Db τ :=
  let db := service.maintainRetention now db
  (TextExtraction.getRunningSummary ownerId db, db)

omit [LinearOrder τ] [VAdd ℤ τ] in
/-- `get_results` after the repository has answered. -/
def answerResults (answer : Option (ExtractionTaskRecord τ) × List (ExtractionTaskItemRecord τ)) :
    Except TaskServiceError (TaskResultsRecord τ) :=
  match answer with
  | (none, _) => .error .taskNotFound
  | (some task, items) =>
    if task.isPurged then .error .taskExpired
    else if ¬ task.status.isTerminal then .error (.resultsPending task.status.value)
    else if task.model.isNone then .error .taskExpired
    else
      match taskResults task items with
      | .error error => .error (.raised error)
      | .ok results => .ok results

omit [LinearOrder τ] [VAdd ℤ τ] in
/-- `get_results` on the maintained store `db`, its second `SELECT` reading `later`. -/
def readResults (ownerId taskId : String) (db later : Db τ) :
    Except TaskServiceError (TaskResultsRecord τ) :=
  match getResultsAcross taskId ownerId db later with
  | .error error => .error (.raised error)
  | .ok answer => answerResults answer

def getResults (ownerId taskId : String) (now : τ) (db : Db τ) :
    Except TaskServiceError (TaskResultsRecord τ) × Db τ :=
  let db := service.maintainRetention now db
  (readResults ownerId taskId db db, db)

/-! ### The worker -/

/-- The next call of the worker `w`, at clock reading `now`. -/
def workerStep (w : String) (now : τ) : WorkerState τ → Db τ → WorkerState τ × Db τ
  | .idle, db =>
    match claimTask w now service.lease db with
    | (.ok (some task), db) =>
      match beginProcessing task with
      | .ok context => (.renewing context, db)
      | .error error => (handleFailure task.taskId error, db)
    | (_, db) => (.idle, db)
  | .renewing context, db =>
    match renewLease context.taskId w now service.lease db with
    | (true, db) => (.selecting context now, db)
    | (false, db) => (handleFailure context.taskId (.raised .runtimeError "Task lease was lost"), db)
  | .selecting context now, db =>
    match claimNextItem context.taskId w now db with
    | (some item, db) => (.inferring context item, db)
    | (none, db) => (.idle, db)
  | .inferring context item, db =>
    match service.processItem context item with
    | .ok (outcome, error) => (.finalizing context item.position outcome error, db)
    | .error error => (handleFailure context.taskId error, db)
  | .finalizing context position outcome error, db =>
    match finalizeItem context.taskId w position outcome error now db with
    | (.ok updated, db) => (if updated.status.isTerminal then .idle else .renewing context, db)
    | (.error error, db) => (handleFailure context.taskId error, db)
  | .failing taskId detail, db =>
    (.idle, (failTask taskId w (taskFailure detail) now db).2)

end ExtractionTaskService

end TextExtraction
