import TextExtraction.Schemas
import TextExtraction.TaskPolling

/-!
# The HTTP API of extraction

The extraction routes of `app.py`: authentication, the path parameters, the handlers and the exception
handlers (those of the model routes among them), from a request to its response and the store after it.
What a handler raises without a handler for it is the 500 of the server. FastAPI resolves the principal
before it validates the body.
-/

namespace TextExtraction

open Python Relational Transition

/-! ### Authentication -/

/-- The opaque owner identity returned by authentication. -/
structure AuthenticatedPrincipal where
  ownerId : String

/-- `UnauthorizedTaskError`, or any other exception of an authenticator. -/
inductive AuthenticationError
  | unauthorized (message : String)
  | raised (error : Exc)

/-- `BearerAuthenticator.authenticate`. -/
abbrev BearerAuthenticator := String → Except AuthenticationError AuthenticatedPrincipal

/-- `RejectingBearerAuthenticator`. -/
def rejectingBearerAuthenticator : BearerAuthenticator :=
  fun _ => .error (.unauthorized "Bearer authentication is not configured")

structure HTTPAuthorizationCredentials where
  scheme : String
  credentials : String

/-! ### Responses -/

inductive HTTPStatus
  | ok | created | accepted | unauthorized | notFound | conflict | gone | requestEntityTooLarge | unprocessableEntity
  | internalServerError
deriving DecidableEq

inductive Body (τ : Type)
  | extraction (response : Schemas.ExtractionResponse)
  | status (response : Schemas.TaskStatusResponse τ)
  | results (response : Schemas.TaskResultsResponse τ)
  | summary (response : Schemas.RunningTaskSummaryResponse)
  | pending (response : Schemas.ResultsPendingResponse)
  | version (response : Schemas.ModelVersionResponse τ)
  | history (response : Schemas.ModelVersionHistoryResponse τ)
  | error (response : Schemas.ErrorResponse)
  | serverError

structure Response (τ : Type) where
  status : HTTPStatus
  headers : List (String × String) := []
  body : Body τ

/-- What a handler may end with instead of a response. -/
inductive HandlerError
  | unauthorized (message : String)
  | task (error : TaskServiceError)
  | rejected (rejection : Rejection)
  | model (error : ModelError)
  /-- `RequestValidationError`, with its first message. -/
  | parameter (message : String)
  | raised (error : Exc)
  /-- A response that breaks its schema. -/
  | invalidResponse

variable {τ : Type}

/-- An uncaught exception. -/
def serverError : Response τ := { status := .internalServerError, body := .serverError }

/-- The exception handlers. -/
def handleException : HandlerError → Response τ
  | .unauthorized message =>
    { status := .unauthorized, headers := [("WWW-Authenticate", "Bearer")], body := .error { detail := message } }
  | .task .taskNotFound => { status := .notFound, body := .error { detail := "Task was not found" } }
  | .task .taskExpired => { status := .gone, body := .error { detail := "Task results have expired" } }
  | .task (.resultsPending status) =>
    match ExtractionTaskStatus.ofText status with
    | some status => { status := .conflict, body := .pending ⟨"Final task results are not yet available", status⟩ }
    | none => serverError
  | .rejected (.validation errors) =>
    let detail := (errors.head?.map ValidationError.message).getD "Invalid request"
    { status := .unprocessableEntity, body := .error { detail } }
  | .rejected (.extraction (.request detail limit)) =>
    { status := .unprocessableEntity, body := .error ⟨detail, some limit⟩ }
  | .rejected (.extraction (.volume limit)) =>
    { status := .requestEntityTooLarge
      body := .error ⟨s!"Combined text content exceeds the configured limit of {limit} characters", some limit⟩ }
  | .model (.notFound detail) => { status := .notFound, body := .error { detail } }
  | .model (.invalidRegistration detail) => { status := .unprocessableEntity, body := .error { detail } }
  | .model (.store (.duplicateVersion version displayName)) =>
    { status := .conflict, body := .error { detail := s!"Version {version} already exists for model '{displayName}'" } }
  | .model (.store (.tooLarge limit)) =>
    { status := .requestEntityTooLarge
      body := .error ⟨s!"Artifact exceeds the configured limit of {limit} bytes", some limit⟩ }
  | .model (.store .unreadable) =>
    { status := .unprocessableEntity, body := .error { detail := "Artifact could not be read completely" } }
  | .model (.store .notBinary) =>
    { status := .unprocessableEntity, body := .error { detail := "Artifact content must be binary" } }
  | .model (.store .required) =>
    { status := .unprocessableEntity, body := .error { detail := "Model artifact content is required" } }
  | .parameter detail => { status := .unprocessableEntity, body := .error { detail } }
  | .task (.raised _) | .rejected (.extraction (.raised _)) | .model (.store (.raised _)) | .raised _
  | .invalidResponse => serverError

/-! ### Routes -/

/-- A matched route with its path parameter or body. -/
inductive Endpoint
  | createExtraction (payload : BatchInput)
  | createExtractionTask (payload : BatchInput)
  | getRunningTaskSummary
  | getExtractionTask (taskId : String)
  | getExtractionTaskResults (taskId : String)

/-- What follows `before` in a path. -/
def pathAfter (before : String) (path : List Char) : Option (List Char) :=
  if before.toList.isPrefixOf path then some (path.drop before.toList.length) else none

/-- What precedes `after` in a path. -/
def pathBefore (after : String) (path : List Char) : Option (List Char) :=
  if after.toList.isSuffixOf path then some (path.take (path.length - after.toList.length)) else none

/-- A parameter `{task_id}`: at least one character, none of them a slash. -/
def isPathParameter (cs : List Char) : Bool := cs ≠ [] ∧ '/' ∉ cs

/-- The `$` of a route's pattern also matches before a final newline. -/
def dropNewline (path : List Char) : List Char :=
  if path.getLast? = some '\n' then path.dropLast else path

/-- The `GET` routes, in the order they are declared. -/
def routeGet (path : String) : Option Endpoint :=
  if dropNewline path.toList = "/extraction-tasks/summary".toList then some .getRunningTaskSummary
  else
    match pathAfter "/extraction-tasks/" path.toList with
    | none => none
    | some rest =>
      if isPathParameter rest then some (.getExtractionTask (String.ofList rest))
      else
        match pathBefore "/results" (dropNewline rest) with
        | none => none
        | some taskId =>
          if isPathParameter taskId then some (.getExtractionTaskResults (String.ofList taskId)) else none

/-! ### The application -/

/-- What `create_app` is configured with: the service, the injected authenticator, which times a `datetime`
can be, and what Unicode and pydantic say of digits and floats. -/
structure Application where
  taskService : ExtractionTaskService
  authenticate : BearerAuthenticator
  inRange : ℤ → Bool
  decimal : Char → Option (Fin 10)
  optionalFloat : Value → Option (Option PyFloat)

/-- `create_app`, with the adapters that are injected. -/
def createApp (settings : Settings) (inferenceProvider : Option InferenceProvider)
    (uncertaintyEstimator : Option UncertaintyEstimator) (modelCatalog : Option ModelCatalog)
    (authenticator : Option BearerAuthenticator) (inRange : ℤ → Bool) (decimal : Char → Option (Fin 10))
    (optionalFloat : Value → Option (Option PyFloat)) : Application where
  taskService := settings.taskService (settings.extractionService (inferenceProvider.getD (stubInferenceProvider []))
    (uncertaintyEstimator.getD stubUncertaintyEstimator) (modelCatalog.getD stubModelCatalog))
  authenticate := authenticator.getD rejectingBearerAuthenticator
  inRange := inRange
  decimal := decimal
  optionalFloat := optionalFloat

namespace Application
variable (app : Application)

/-- `get_authenticated_principal`. -/
def getAuthenticatedPrincipal (credentials : Option HTTPAuthorizationCredentials) :
    Except HandlerError AuthenticatedPrincipal :=
  match credentials with
  | none => .error (.unauthorized "Bearer credentials are required")
  | some credentials =>
    if credentials.scheme.toLower ≠ "bearer" then .error (.unauthorized "Bearer credentials are required")
    else
      match app.authenticate credentials.credentials with
      | .error (.unauthorized message) => .error (.unauthorized message)
      | .error (.raised _) => .error (.unauthorized "Bearer credentials are invalid")
      | .ok principal =>
        if principal.ownerId = "" then .error (.unauthorized "Bearer credentials are invalid") else .ok principal

def unicode : UnicodeTable := ⟨isSpace, app.decimal⟩

/-- `validate_task_id`. -/
def validateTaskId (taskId : String) : Except HandlerError String :=
  match Uuid.parse app.unicode taskId with
  | some uuid => .ok uuid.text
  | none => .error (.task .taskNotFound)

/-- `task_status_response`. -/
def taskStatusResponse (task : ExtractionTaskRecord ℤ) : Except HandlerError (Schemas.TaskStatusResponse ℤ) :=
  match Uuid.parse app.unicode task.taskId, Schemas.errorField task.error with
  | some taskId, some error =>
    if h : 1 ≤ task.acceptedCount then
      .ok
        { taskId, status := task.status
          progress := ⟨task.acceptedCount, task.processedCount, task.successfulCount, task.failedCount, h⟩
          createdAt := task.createdAt, updatedAt := task.updatedAt, expiresAt := task.expiresAt, error }
    else .error .invalidResponse
  | _, _ => .error .invalidResponse

/-- `TaskResultsResponse(**status.model_dump(), …)`. -/
def taskResultsResponse (results : TaskResultsRecord ℤ) : Except HandlerError (Schemas.TaskResultsResponse ℤ) :=
  match app.taskStatusResponse results.task with
  | .error error => .error error
  | .ok status =>
    match Schemas.ResolvedModelReference.validate results.model,
      Schemas.outcomesField app.optionalFloat results.outcomes with
    | some model, some outcomes =>
      .ok { status with executionMode := results.executionMode, model, outcomes }
    | _, _ => .error .invalidResponse

/-- The clock of `maintain_retention` less the tombstone period. -/
def retentionCutoff (now : ℤ) : Except HandlerError ℤ :=
  match addTimedelta app.inRange now (-app.taskService.tombstone) with
  | .ok cutoff => .ok cutoff
  | .error error => .error (.task (.raised error))

def createExtraction (payload : BatchInput) : Except HandlerError (Response ℤ) :=
  match app.taskService.extractionService.createExtraction payload with
  | .error rejection => .error (.rejected rejection)
  | .ok result =>
    match Schemas.ExtractionResponse.validate app.optionalFloat result with
    | some response => .ok { status := .ok, body := .extraction response }
    | none => .error .invalidResponse

/-- `uuid` is the answer of `uuid4`. -/
def createExtractionTask (ownerId : String) (payload : BatchInput) (uuid : Uuid) (now : ℤ) (db : Db ℤ) :
    Except HandlerError (Response ℤ) × Db ℤ :=
  match app.taskService.createExtractionTask app.inRange uuid.text ownerId payload now db with
  | (.error rejection, db) => (.error (.rejected rejection), db)
  | (.ok task, db) =>
    (match app.taskStatusResponse task with
      | .error error => .error error
      | .ok response => .ok
        { status := .accepted, headers := [("Location", "/extraction-tasks/" ++ task.taskId)], body := .status response },
      db)

def getRunningTaskSummary (ownerId : String) (now : ℤ) (db : Db ℤ) : Except HandlerError (Response ℤ) × Db ℤ :=
  match app.retentionCutoff now with
  | .error error => (.error error, db)
  | .ok _ =>
    let (summary, db) := app.taskService.getRunningSummary ownerId now db
    let tasks := ⟨summary.total, summary.queued, summary.processing⟩
    let progress := ⟨summary.accepted, summary.processed, summary.successful, summary.failed⟩
    (.ok { status := .ok, body := .summary { tasks, progress } }, db)

def getExtractionTask (ownerId taskId : String) (now : ℤ) (db : Db ℤ) : Except HandlerError (Response ℤ) × Db ℤ :=
  match app.validateTaskId taskId with
  | .error error => (.error error, db)
  | .ok taskId =>
    match app.retentionCutoff now with
    | .error error => (.error error, db)
    | .ok _ =>
      match app.taskService.getStatus ownerId taskId now db with
      | (.error error, db) => (.error (.task error), db)
      | (.ok task, db) => ((app.taskStatusResponse task).map fun response => { status := .ok, body := .status response }, db)

def getExtractionTaskResults (ownerId taskId : String) (now : ℤ) (db : Db ℤ) :
    Except HandlerError (Response ℤ) × Db ℤ :=
  match app.validateTaskId taskId with
  | .error error => (.error error, db)
  | .ok taskId =>
    match app.retentionCutoff now with
    | .error error => (.error error, db)
    | .ok _ =>
      match app.taskService.getResults ownerId taskId now db with
      | (.error error, db) => (.error (.task error), db)
      | (.ok results, db) =>
        ((app.taskResultsResponse results).map fun response => { status := .ok, body := .results response }, db)

/-- The handler of an endpoint, its dependencies before it. -/
def handle (credentials : Option HTTPAuthorizationCredentials) (endpoint : Endpoint) (uuid : Uuid) (now : ℤ)
    (db : Db ℤ) : Except HandlerError (Response ℤ) × Db ℤ :=
  match endpoint with
  | .createExtraction payload => (app.createExtraction payload, db)
  | .createExtractionTask payload =>
    match app.getAuthenticatedPrincipal credentials with
    | .error error => (.error error, db)
    | .ok principal => app.createExtractionTask principal.ownerId payload uuid now db
  | .getRunningTaskSummary =>
    match app.getAuthenticatedPrincipal credentials with
    | .error error => (.error error, db)
    | .ok principal => app.getRunningTaskSummary principal.ownerId now db
  | .getExtractionTask taskId =>
    match app.getAuthenticatedPrincipal credentials with
    | .error error => (.error error, db)
    | .ok principal => app.getExtractionTask principal.ownerId taskId now db
  | .getExtractionTaskResults taskId =>
    match app.getAuthenticatedPrincipal credentials with
    | .error error => (.error error, db)
    | .ok principal => app.getExtractionTaskResults principal.ownerId taskId now db

/-- A request and its response. -/
def respond (credentials : Option HTTPAuthorizationCredentials) (endpoint : Endpoint) (uuid : Uuid) (now : ℤ)
    (db : Db ℤ) : Response ℤ × Db ℤ :=
  match app.handle credentials endpoint uuid now db with
  | (.ok response, db) => (response, db)
  | (.error error, db) => (handleException error, db)

end Application

/-! ### The system behind the API -/

/-- Requests, and the moves of the workers between them. -/
inductive ApiLabel
  | request (credentials : Option HTTPAuthorizationCredentials) (endpoint : Endpoint) (uuid : Uuid) (now : ℤ)
  | work (w : String) (now : ℤ)
  | crash (w : String)
  | maintain (now : ℤ)

def ApiLabel.times : ApiLabel → List ℤ
  | .request _ _ _ now | .work _ now | .maintain now => [now]
  | .crash _ => []

namespace Application
variable (app : Application)

/-- The submission a request makes, if it gets that far. -/
def submission (credentials : Option HTTPAuthorizationCredentials) (endpoint : Endpoint) (now : ℤ) :
    Option (String × ExtractionTaskRequest) :=
  match endpoint, app.getAuthenticatedPrincipal credentials with
  | .createExtractionTask payload, .ok principal =>
    match payload.validate 100 with
    | .ok request =>
      if app.inRange (app.taskService.retention +ᵥ now) then some (principal.ownerId, request) else none
    | .error _ => none
  | _, _ => none

/-- The system after a request, with what it accepted. -/
def serve (credentials : Option HTTPAuthorizationCredentials) (endpoint : Endpoint) (uuid : Uuid) (now : ℤ)
    (s : System ℤ) : System ℤ :=
  { s with
    db := (app.respond credentials endpoint uuid now s.db).2
    accepted :=
      match app.submission credentials endpoint now with
      | some (ownerId, request) => (s.submit app.taskService uuid.text ownerId request now).accepted
      | none => s.accepted }

/-- `uuid4` never answers the id of a task again. -/
inductive Step : System ℤ → ApiLabel → System ℤ → Prop
  | request {s credentials endpoint uuid now} (hfresh : s.accepted uuid.text = none) :
      Step s (.request credentials endpoint uuid now) (app.serve credentials endpoint uuid now s)
  | work {s w now} : Step s (.work w now) (s.work app.taskService w now)
  | crash {s w} : Step s (.crash w) (s.crash w)
  | maintain {s now} : Step s (.maintain now) (s.maintain app.taskService now)

end Application

end TextExtraction
