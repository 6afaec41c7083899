import TextExtraction.ModelReads
import TextExtraction.ModelStaging

/-!
# Registration and activation, call by call

`ModelStore.register`, `ModelStore.activate` and the checks of `ModelService` in front of them, for
calls that come one after the other: the database, the artifact directory and the data directory a call
finds, and what it leaves. An operation of a call that can raise on its own account (the operating
system, SQLite) has a point in `RegisterPoint` or `ActivatePoint`; clean-up does not fail.
-/

namespace TextExtraction

open Python Relational

variable {τ : Type}

/-- What one store works on. -/
structure World (τ : Type) where
  catalog : Catalog τ
  /-- The artifact directory: `artifact_path` names a file by its digest. -/
  files : String → Option Bytes
  /-- The data directory: the uploads being staged. -/
  data : Directory

/-- Where `register` can be made to raise. -/
inductive RegisterPoint
  /-- The file operations of `_stage_artifact`. -/
  | stage
  /-- The connection and the statements before the artifact is put in place, `exists` included. -/
  | begin
  /-- `temporary_path.unlink` or `os.replace`. -/
  | place
  | insertArtifact
  /-- The `INSERT` into `model_versions`, by anything that is no `IntegrityError`. -/
  | insertVersion
  | commit
  /-- `self.get`, after the commit. -/
  | reload

/-- Where `activate` can be made to raise. -/
inductive ActivatePoint
  /-- The connection and the `SELECT`. -/
  | begin
  /-- The two `UPDATE` statements and the `INSERT`. -/
  | update
  | commit
  /-- `self.get`, after the commit. -/
  | reload

namespace World

def init : World τ := ⟨.empty, fun _ => none, fun _ => none⟩

/-- `temporary_path.unlink(missing_ok=True)`. -/
def discard (temporary : String) (w : World τ) : World τ :=
  { w with data := Function.update w.data temporary none }

/-- The upload is discarded when its content is there already, and moved into place otherwise; the flag
is `placed_new_artifact`. -/
def place (staged : StagedArtifact) (w : World τ) : Bool × World τ :=
  if (w.files staged.digest).isSome then (false, w.discard staged.temporaryPath)
  else (true, { w.discard staged.temporaryPath with
    files := Function.update w.files staged.digest (w.data staged.temporaryPath) })

/-- After a rollback: `if placed_new_artifact and artifact_exists is None`. -/
def compensate (digest : String) (placedNewArtifact artifactExists : Bool) (w : World τ) : World τ :=
  if placedNewArtifact && !artifactExists then
    { w with files := Function.update w.files digest none }
  else w

section Store
variable (runtime : Runtime) (maxArtifactSize : ℕ)

/-- The `with` block of `register`. -/
def transact (r : Registration) (staged : StagedArtifact) (now : τ) (faults : RegisterPoint → Option Exc)
    (w : World τ) : Except ModelStoreError ℤ × World τ :=
  match faults .begin with
  | some error => (.error (.raised error), w)
  | none =>
    let txn := r.begin runtime staged.digest now w.catalog
    match faults .place with
    | some error => (.error (.raised error), w)
    | none =>
      let (placedNewArtifact, w) := w.place staged
      match faults .insertArtifact with
      | some error => (.error (.raised error), w)
      | none =>
        match r.insert runtime staged.digest staged.size txn, faults .insertVersion with
        | .raised error, _ => (.error (.raised error), w)
        | _, some error => (.error (.raised error), w)
        | .integrityError, none =>
          (.error (.duplicateVersion txn.assignedVersion (strip r.modelName)),
            w.compensate staged.digest placedNewArtifact txn.artifactExists)
        | .inserted catalog, none =>
          match faults .commit with
          | some error =>
            (.error (.raised error), w.compensate staged.digest placedNewArtifact txn.artifactExists)
          | none => (.ok txn.assignedVersion, { w with catalog })

/-- `ModelStore.register`; `none` would be a stream that is read without end. -/
def register (r : Registration) (stream : ℕ → ReadResult) (temporary : String) (now : τ)
    (faults : RegisterPoint → Option Exc) (w : World τ) :
    Option (Except ModelError (ModelVersion τ) × World τ) :=
  match faults .stage with
  | some error => some (.error (.store (.raised error)), w.discard temporary)
  | none =>
    match stageArtifact runtime maxArtifactSize temporary stream (maxArtifactSize + 1) w.data with
    | none => none
    | some (.error error, data) => some (.error (.store error), { w with data })
    | some (.ok staged, data) =>
      match transact runtime r staged now faults { w with data } with
      | (.error error, w) => some (.error (.store error), w.discard temporary)
      | (.ok version, w) =>
        match faults .reload with
        | some error => some (.error (.store (.raised error)), w.discard temporary)
        | none => some (w.catalog.get runtime (strip r.modelName) version, w.discard temporary)

/-- `ModelStore.activate`. -/
def activate (modelName : String) (version : ℤ) (now : τ) (faults : ActivatePoint → Option Exc)
    (w : World τ) : Except ModelError (ModelVersion τ) × World τ :=
  match faults .begin with
  | some error => (.error (.store (.raised error)), w)
  | none =>
    if ¬Bindable version then (.error (.store bindError), w)
    else
      match w.catalog.activate (runtime.normalizeName modelName) version now with
      | none =>
        (.error (.notFound s!"Version {version} was not found for model '{strip modelName}'"), w)
      | some catalog =>
        match faults .update, faults .commit, faults .reload with
        | some error, _, _ => (.error (.store (.raised error)), w)
        | none, some error, _ => (.error (.store (.raised error)), w)
        | none, none, some error => (.error (.store (.raised error)), { w with catalog })
        | none, none, none => (catalog.get runtime modelName version, { w with catalog })

end Store

end World

/-! ### `ModelService` -/

/-- A `version` argument that is not `None`. -/
inductive VersionArg
  | bool (b : Bool)
  | int (version : ℤ)

namespace ModelService

/-- `version is not None and (isinstance(version, bool) or version < 1)`. -/
def checkVersion : Option VersionArg → Except ModelError (Option ℤ)
  | none => .ok none
  | some (.bool _) => .error (.invalidRegistration "Version must be a positive integer")
  | some (.int version) =>
    if version < 1 then .error (.invalidRegistration "Version must be a positive integer")
    else .ok (some version)

/-- `not isinstance(model_name, str) or not model_name.strip()`. -/
def checkName : Value → Except ModelError String
  | .str modelName =>
    if strip modelName = "" then .error (.invalidRegistration "Model name is required")
    else .ok modelName
  | _ => .error (.invalidRegistration "Model name is required")

/-- The checks on `metadata`. -/
def checkMetadata : Value → Except ModelError Value
  | .dict items =>
    match dumps false (.dict items) with
    | .ok _ => .ok (.dict items)
    | .error error =>
      if error.kind = .typeError ∨ error.kind = .valueError then
        .error (.invalidRegistration "metadata must contain JSON-compatible values")
      else .error (.store (.raised error))
  | _ => .error (.invalidRegistration "metadata must be a JSON object")

/-- What `ModelService.register` lets through to the store. -/
def validate (modelName : Value) (version : Option VersionArg) (description : Option String)
    (metadata : Value) : Except ModelError Registration := do
  let modelName ← checkName modelName
  let version ← checkVersion version
  let metadata ← checkMetadata metadata
  .ok { modelName, version, description, metadata }

end ModelService

/-- A call of `ModelService`, with what its surroundings do. -/
inductive ServiceCall (τ : Type)
  | register (modelName : Value) (version : Option VersionArg) (description : Option String)
      (metadata : Value) (stream : ℕ → ReadResult) (temporary : String) (now : τ)
      (faults : RegisterPoint → Option Exc)
  | activate (modelName : String) (version : ℤ) (now : τ) (faults : ActivatePoint → Option Exc)

/-- `ModelService.register` and `ModelService.activate`. -/
def ServiceCall.perform (runtime : Runtime) (maxArtifactSize : ℕ) :
    ServiceCall τ → World τ → Option (Except ModelError (ModelVersion τ) × World τ)
  | .register modelName version description metadata stream temporary now faults, w =>
    match ModelService.validate modelName version description metadata with
    | .error error => some (.error error, w)
    | .ok r => w.register runtime maxArtifactSize r stream temporary now faults
  | .activate modelName version now faults, w =>
    some (w.activate runtime modelName version now faults)

namespace World

/-- One call comes and is answered. -/
def Step (runtime : Runtime) (maxArtifactSize : ℕ) (w : World τ)
    (call : ServiceCall τ × Except ModelError (ModelVersion τ)) (w' : World τ) : Prop :=
  call.1.perform runtime maxArtifactSize w = some (call.2, w')

end World

end TextExtraction
