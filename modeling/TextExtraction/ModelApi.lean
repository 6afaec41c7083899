import TextExtraction.ModelLedgerRefinement
import TextExtraction.ModelMetadata
import TextExtraction.TaskApi

/-!
# The HTTP API of the model registry

The model routes of `app.py`, from a request to its response and the store after it. What FastAPI reads of
the parameters comes with the request; the handlers, the response models and the exception handlers
follow. `temporary`, `now` and the failures of the file system and the database come from outside.
-/

namespace TextExtraction

open Python Relational Transition

variable {τ : Type}

/-- What FastAPI has made of a parameter: its first complaint, or a value. -/
abbrev Parameter (α : Type) := Except String α

/-- A matched model route. A path parameter `{model_name}` is not empty. -/
inductive ModelEndpoint
  | registerModelVersion (modelName : String) (artifact : Parameter (ℕ → ReadResult))
      (version : Parameter (Option ℤ)) (description : Option String) (metadata : Option FieldText)
  | listModelVersions (modelName : String)
  | getModelVersion (modelName : String) (version : Parameter ℤ)
  | activateModelVersion (modelName : String) (version : Parameter ℤ)

/-- What a request finds around it. -/
structure Surroundings (τ : Type) where
  temporary : String
  now : τ
  register : RegisterPoint → Option Exc
  activate : ActivatePoint → Option Exc

/-- Nothing below the handler fails. -/
structure Surroundings.Calm (around : Surroundings τ) : Prop where
  register : ∀ point, around.register point = none
  activate : ∀ point, around.activate point = none

namespace ModelApi

/-! ### Handlers -/

/-- `response`. -/
def response (record : ModelVersion τ) : Except HandlerError (Schemas.ModelVersionResponse τ) :=
  match Schemas.ModelVersionResponse.validate record with
  | some response => .ok response
  | none => .error .invalidResponse

/-- `response(…)` of what the service answers, under the status code of the route. -/
def versionResponse (status : HTTPStatus) (answer : Except ModelError (ModelVersion τ)) :
    Except HandlerError (Response τ) :=
  match answer with
  | .error error => .error (.model error)
  | .ok record =>
    match response record with
    | .error error => .error error
    | .ok response => .ok { status, body := .version response }

/-- `PathParameter(ge=1)`. -/
def pathVersion (version : Parameter ℤ) : Except HandlerError ℤ :=
  match version with
  | .error message => .error (.parameter message)
  | .ok version =>
    if version < 1 then .error (.parameter "Input should be greater than or equal to 1") else .ok version

/-- What the route makes of an exception of `parse_metadata`. -/
def metadataError (error : Exc) : HandlerError :=
  if error.kind = .valueError then
    match error.str with
    | .ok message => .model (.invalidRegistration message)
    | .error inner => .raised inner
  else .raised error

/-- The call of the service that `register_model_version` comes to. -/
def registration (around : Surroundings τ) (modelName : String) (artifact : Parameter (ℕ → ReadResult))
    (version : Parameter (Option ℤ)) (description : Option String) (metadata : Option FieldText) :
    Except HandlerError (ServiceCall τ) :=
  match artifact, version with
  | .error message, _ => .error (.parameter message)
  | _, .error message => .error (.parameter message)
  | .ok artifact, .ok version =>
    match parseMetadata metadata with
    | .error error => .error (metadataError error)
    | .ok metadata =>
      .ok (.register (.str modelName) (version.map .int) description metadata artifact around.temporary around.now
        around.register)

/-- `list_model_versions`, of what the service answers. -/
def historyResponse (answer : Except ModelError (List (ModelVersion τ))) : Except HandlerError (Response τ) :=
  match answer with
  | .error error => .error (.model error)
  | .ok [] => .error (.raised (.raised .other "list index out of range"))
  | .ok (first :: rest) =>
    match (first :: rest).mapM response with
    | .error error => .error error
    | .ok versions => .ok { status := .ok, body := .history ⟨first.modelName, versions⟩ }

/-- The response of a handler, or of the exception handler. -/
def answered : Except HandlerError (Response τ) → Response τ
  | .ok response => response
  | .error error => handleException error

section Store
variable (runtime : Runtime) (maxArtifactSize : ℕ)

/-- The handler of a route; `none` would be an upload that is read without end. -/
def handle (around : Surroundings τ) (w : World τ) :
    ModelEndpoint → Option (Except HandlerError (Response τ) × World τ)
  | .registerModelVersion modelName artifact version description metadata =>
    match registration around modelName artifact version description metadata with
    | .error error => some (.error error, w)
    | .ok call =>
      (call.perform runtime maxArtifactSize w).map fun performed => (versionResponse .created performed.1, performed.2)
  | .listModelVersions modelName => some (historyResponse (w.catalog.listVersions runtime modelName), w)
  | .getModelVersion modelName version =>
    match pathVersion version with
    | .error error => some (.error error, w)
    | .ok version => some (versionResponse .ok (w.catalog.get runtime modelName version), w)
  | .activateModelVersion modelName version =>
    match pathVersion version with
    | .error error => some (.error error, w)
    | .ok version =>
      (ServiceCall.perform runtime maxArtifactSize (.activate modelName version around.now around.activate) w).map
        fun performed => (versionResponse .ok performed.1, performed.2)

/-- A request and its response. -/
def respond (around : Surroundings τ) (endpoint : ModelEndpoint) (w : World τ) : Option (Response τ × World τ) :=
  (handle runtime maxArtifactSize around w endpoint).map fun handled => (answered handled.1, handled.2)

/-- A request comes and is answered. -/
def Step (w : World τ) (request : (Surroundings τ × ModelEndpoint) × Response τ) (w' : World τ) : Prop :=
  respond runtime maxArtifactSize request.1.1 request.1.2 w = some (request.2, w')

end Store

end ModelApi

end TextExtraction
