import TextExtraction.ModelFailures

/-!
# The model registry as a ledger

What the registry is for, without its tables: the list of what has been registered and activated, in
the order of the commits. `Ledger.Step` says what a call adds to it and answers; what `get`,
`list_versions`, `resolve` and `activation_history` read, and the number the next version gets, are
functions of the list.

`catalog_refines_ledger`: over any run of calls the store answers every call and every read as the
ledger does, and the ledger is determined by the calls and their answers.
-/

namespace TextExtraction

open Python Relational Transition

variable {τ : Type}

/-! ### The ledger -/

/-- A version as it was registered, with what its call said about the model. -/
structure Entry (τ : Type) where
  name : String
  modelName : String
  description : Option String
  version : ℤ
  artifactDigest : String
  artifactSize : ℕ
  metadata : Json
  createdAt : τ

structure Activation (τ : Type) where
  name : String
  version : ℤ
  activatedAt : τ

inductive Posting (τ : Type)
  | registered (entry : Entry τ)
  | activated (activation : Activation τ)

namespace Posting

def entry? : Posting τ → Option (Entry τ)
  | registered entry => some entry
  | activated _ => none

def activation? : Posting τ → Option (Activation τ)
  | registered _ => none
  | activated activation => some activation

def name : Posting τ → String
  | registered entry => entry.name
  | activated activation => activation.name

def version : Posting τ → ℤ
  | registered entry => entry.version
  | activated activation => activation.version

end Posting

abbrev Ledger (τ : Type) := List (Posting τ)

namespace Ledger

variable (l : Ledger τ) (name : String)

def entries : List (Entry τ) := l.filterMap Posting.entry?

def activations : List (Activation τ) := l.filterMap Posting.activation?

/-- The versions of a model, in the order of their registration. -/
def ofModel : List (Entry τ) := l.entries.filter fun e => e.name = name

def find (version : ℤ) : Option (Entry τ) := l.entries.find? fun e => e.name = name ∧ e.version = version

/-- The version of a model that was activated last. -/
def current : Option ℤ := ((l.activations.filter fun a => a.name = name).getLast?).map Activation.version

def nextVersion : ℤ := (((l.ofModel name).map Entry.version).max?).getD 0 + 1

def status (e : Entry τ) : LifecycleStatus := if l.current e.name = some e.version then .active else .registered

/-- The registration that named and described the model of `e`: the first. -/
def first (e : Entry τ) : Entry τ := (l.ofModel e.name).head?.getD e

/-- What is read for a version. -/
def record (e : Entry τ) : ModelVersion τ :=
  { modelName := (l.first e).modelName
    version := e.version
    status := l.status e
    artifactDigest := e.artifactDigest
    artifactSize := e.artifactSize
    description := (l.first e).description
    metadata := loads e.metadata
    createdAt := e.createdAt }

/-! ### What is read -/

section Reads
variable (runtime : Runtime) (modelName : String)

def get (version : ℤ) : Except ModelError (ModelVersion τ) :=
  match l.find (runtime.normalizeName modelName) version with
  | some e => .ok (l.record e)
  | none =>
    if Bindable version then .error (.notFound s!"Version {version} was not found for model '{strip modelName}'")
    else .error (.store bindError)

def listVersions : Except ModelError (List (ModelVersion τ)) :=
  match l.ofModel (runtime.normalizeName modelName) with
  | [] => .error (.notFound s!"Model '{strip modelName}' was not found")
  | versions => .ok (orderBy (fun record => -record.version) (versions.map l.record))

def resolve : Option ℤ → Except ModelError (ModelVersion τ)
  | some version => l.get runtime modelName version
  | none =>
    match l.current (runtime.normalizeName modelName) with
    | some version => l.get runtime modelName version
    | none => .error (.notFound s!"Model '{strip modelName}' has no active version")

def activationHistory : List (ActivationRecord τ) :=
  match (l.ofModel (runtime.normalizeName modelName)).head? with
  | none => []
  | some first =>
    (l.activations.filter fun a => a.name = runtime.normalizeName modelName).map fun a =>
      ⟨first.modelName, a.version, a.activatedAt⟩

end Reads

/-! ### What is added -/

section Calls
variable (runtime : Runtime) (maxArtifactSize : ℕ)

/-- The number a registration is to get. -/
def assigned (r : Registration) : ℤ := r.version.getD (l.nextVersion (runtime.normalizeName r.modelName))

def entry (r : Registration) (content : Bytes) (metadata : Json) (now : τ) : Entry τ :=
  { name := runtime.normalizeName r.modelName
    modelName := strip r.modelName
    description := r.description
    version := l.assigned runtime r
    artifactDigest := runtime.sha256 content
    artifactSize := content.length
    metadata
    createdAt := now }

/-- What a call adds when it goes through. -/
inductive Posts : ServiceCall τ → Posting τ → Prop
  | register {call : ServiceCall τ} {r : Registration} {stream : ℕ → ReadResult} {now : τ}
      {faults : RegisterPoint → Option Exc} {content : Bytes} {metadata : Json}
      (hsubmits : call.Submits r stream now faults) (huploads : Uploads maxArtifactSize stream content)
      (hfaults : ∀ point, point ≠ .reload → faults point = none)
      (hmetadata : dumps true r.metadata = .ok metadata) (hbound : l.assigned runtime r < 2 ^ 63)
      (hfresh : l.find (runtime.normalizeName r.modelName) (l.assigned runtime r) = none) :
      Posts call (.registered (l.entry runtime r content metadata now))
  | activate {modelName : String} {version : ℤ} {now : τ} {faults : ActivatePoint → Option Exc}
      (hfaults : ∀ point, point ≠ .reload → faults point = none)
      (hfind : (l.find (runtime.normalizeName modelName) version).isSome) :
      Posts (.activate modelName version now faults) (.activated ⟨runtime.normalizeName modelName, version, now⟩)

end Calls

end Ledger

/-- What the read behind the commit raises. -/
def ServiceCall.reload : ServiceCall τ → Option Exc
  | register _ _ _ _ _ _ _ faults => faults .reload
  | activate _ _ _ faults => faults .reload

namespace Ledger

/-- A call adds nothing and raises, or it adds one posting and answers with the version as it is then. -/
inductive Step (runtime : Runtime) (maxArtifactSize : ℕ) (l : Ledger τ) :
    ServiceCall τ × Except ModelError (ModelVersion τ) → Ledger τ → Prop
  | refused {call error} (h : ∀ posting, ¬Posts l runtime maxArtifactSize call posting) :
      Step runtime maxArtifactSize l (call, .error error) l
  | posted {call result posting e} (h : Posts l runtime maxArtifactSize call posting)
      (hfind : find (l ++ [posting]) posting.name posting.version = some e)
      (hresult : result = match call.reload with
        | some error => .error (.store (.raised error))
        | none => .ok (record (l ++ [posting]) e)) :
      Step runtime maxArtifactSize l (call, result) (l ++ [posting])

variable {runtime : Runtime} {maxArtifactSize : ℕ} {l l' l'' : Ledger τ}
  {call : ServiceCall τ × Except ModelError (ModelVersion τ)}

theorem Posts.unique {call : ServiceCall τ} {p p' : Posting τ} (h : Posts l runtime maxArtifactSize call p)
    (h' : Posts l runtime maxArtifactSize call p') : p = p' := by
  cases h with
  | register hsubmits huploads _ hmetadata =>
    cases h' with
    | register hsubmits' huploads' _ hmetadata' =>
      obtain ⟨rfl, rfl, rfl, -⟩ := hsubmits.unique hsubmits'
      obtain rfl := huploads.unique huploads'
      rw [hmetadata] at hmetadata'
      cases hmetadata'
      rfl
    | activate => cases hsubmits
  | activate =>
    cases h' with
    | register hsubmits' => cases hsubmits'
    | activate => rfl

theorem Step.unique (h : Step runtime maxArtifactSize l call l') (h' : Step runtime maxArtifactSize l call l'') :
    l' = l'' := by
  obtain ⟨call, result⟩ := call
  cases h with
  | refused hnone =>
    cases h' with
    | refused => rfl
    | posted hposts => exact absurd hposts (hnone _)
  | posted hposts =>
    cases h' with
    | refused hnone => exact absurd hposts (hnone _)
    | posted hposts' => rw [hposts.unique hposts']

end Ledger

end TextExtraction
