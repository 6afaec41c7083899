import TextExtraction.ModelCatalog

/-!
# Reading the catalog

`get`, `list_versions`, `resolve` and `activation_history` of `model_store.py`, as functions of the
catalog they find.
-/

namespace TextExtraction

open Python Relational

variable {τ : Type}

/-- What the operations of the store and of `ModelService` raise. -/
inductive ModelError
  | invalidRegistration (message : String)
  | notFound (message : String)
  | store (error : ModelStoreError)

/-- `ModelVersion`. -/
structure ModelVersion (τ : Type) where
  modelName : String
  version : ℤ
  status : LifecycleStatus
  artifactDigest : String
  artifactSize : ℕ
  description : Option String
  metadata : Value
  createdAt : τ

/-- `ActivationRecord`. -/
structure ActivationRecord (τ : Type) where
  modelName : String
  version : ℤ
  activatedAt : τ

/-- What binding any other integer raises. -/
def bindError : ModelStoreError :=
  .raised (.raised .overflowError "Python int too large to convert to SQLite INTEGER")

namespace Catalog

/-- `_row_to_version`, on a row of the join. -/
def rowToVersion (m : ModelRow τ) (v : ModelVersionRow τ) (a : ArtifactRow) : ModelVersion τ :=
  { modelName := m.name
    version := v.version
    status := v.status
    artifactDigest := v.artifactDigest
    artifactSize := a.size
    description := m.description
    metadata := loads v.metadataJson
    createdAt := v.createdAt }

/-- A version joined with its model and its artifact. -/
def joinVersion (c : Catalog τ) (v : ModelVersionRow τ) : Option (ModelVersion τ) := do
  let m ← c.models.lookup v.normalizedName
  let a ← c.artifacts.lookup v.artifactDigest
  some (rowToVersion m v a)

/-- `_version_query`, with a `WHERE` clause. -/
def versionQuery (p : ModelVersionRow τ → Bool) (c : Catalog τ) : List (ModelVersion τ) :=
  (c.versions.select p).filterMap c.joinVersion

/-- `get`. -/
def get (runtime : Runtime) (modelName : String) (version : ℤ) (c : Catalog τ) :
    Except ModelError (ModelVersion τ) :=
  if ¬Bindable version then .error (.store bindError)
  else
    let rows := c.versionQuery fun v =>
      v.normalizedName = runtime.normalizeName modelName ∧ v.version = version
    match rows.head? with
    | none => .error (.notFound s!"Version {version} was not found for model '{strip modelName}'")
    | some record => .ok record

/-- `list_versions`. -/
def listVersions (runtime : Runtime) (modelName : String) (c : Catalog τ) :
    Except ModelError (List (ModelVersion τ)) :=
  let normalizedName := runtime.normalizeName modelName
  match c.models.lookup normalizedName with
  | none => .error (.notFound s!"Model '{strip modelName}' was not found")
  | some _ =>
    .ok (orderBy (fun record => -record.version)
      (c.versionQuery fun v => v.normalizedName = normalizedName))

/-- `resolve`. -/
def resolve (runtime : Runtime) (modelName : String) (version : Option ℤ) (c : Catalog τ) :
    Except ModelError (ModelVersion τ) :=
  match version with
  | some version => c.get runtime modelName version
  | none =>
    let rows := c.versionQuery fun v =>
      v.normalizedName = runtime.normalizeName modelName ∧ v.status = .active
    match rows.head? with
    | none => .error (.notFound s!"Model '{strip modelName}' has no active version")
    | some record => .ok record

/-- `activation_history`. -/
def activationHistory (runtime : Runtime) (modelName : String) (c : Catalog τ) :
    List (ActivationRecord τ) :=
  let rows := c.activations.filter fun a => a.normalizedName = runtime.normalizeName modelName
  (orderBy ActivationRow.id rows).filterMap fun a =>
    (c.models.lookup a.normalizedName).map fun m => ⟨m.name, a.version, a.activatedAt⟩

end Catalog

end TextExtraction
