import TextExtraction.Lib.Uuid
import TextExtraction.ModelReads
import TextExtraction.RequestAcceptance

/-!
# Response schemas

The response models of `schemas.py`. Each structure carries what its fields are checked for, so a response
that breaks its schema cannot be built; building one from a domain value answers `none` where pydantic
raises. `optionalFloat` is pydantic's reading of an `Optional[float]`.
-/

namespace TextExtraction

open Python

/-- `0 <= f <= 1`. -/
def inUnit : PyFloat → Bool
  | .finite repr => 0 ≤ double repr ∧ double repr ≤ 1
  | .inf | .negInf | .nan => false

/-- The member with that value. -/
def ExtractionTaskStatus.ofText (text : String) : Option ExtractionTaskStatus :=
  [queued, processing, completed, partiallyCompleted, failed].find? fun status => status.value = text

@[simp] theorem ExtractionTaskStatus.ofText_value (s : ExtractionTaskStatus) : ofText s.value = some s := by
  cases s <;> decide

namespace Schemas

/-! ### Extraction results -/

structure ResolvedModelReference where
  name : String
  version : String

structure UncertaintyResult where
  value : Option PyFloat
  status : UncertaintyStatus
  value_mem : value.all inUnit = true

structure PropertyResult where
  value : Value
  inferenceStatus : InferenceStatus
  uncertainty : UncertaintyResult

structure ExtractionOutcome where
  sourceId : String
  status : OutcomeStatus
  properties : List (String × PropertyResult)
  error : Option ItemError

structure ExtractionResponse where
  executionMode : ExecutionMode
  model : ResolvedModelReference
  outcomes : List ExtractionOutcome

/-- A `str` field. -/
def strField : Value → Option String
  | .str s => some s
  | _ => none

def ResolvedModelReference.validate (model : TextExtraction.ResolvedModelReference) :
    Option ResolvedModelReference := do
  let name ← strField model.name
  let version ← strField model.version
  return ⟨name, version⟩

section Outcomes
variable (optionalFloat : Value → Option (Option PyFloat))

def UncertaintyResult.validate (uncertainty : TextExtraction.UncertaintyResult) : Option UncertaintyResult :=
  match optionalFloat uncertainty.value with
  | none => none
  | some value => if h : value.all inUnit = true then some ⟨value, uncertainty.status, h⟩ else none

def PropertyResult.validate (result : TextExtraction.PropertyResult) : Option PropertyResult := do
  let uncertainty ← UncertaintyResult.validate optionalFloat result.uncertainty
  return ⟨result.value, result.inferenceStatus, uncertainty⟩

/-- `dict[str, PropertyResult]`. -/
def propertiesField : List (Key × TextExtraction.PropertyResult) → Option (List (String × PropertyResult))
  | [] => some []
  | (.str name, result) :: rest => do
    let result ← PropertyResult.validate optionalFloat result
    let rest ← propertiesField rest
    return (name, result) :: rest
  | _ :: _ => none

def ExtractionOutcome.validate (outcome : TextExtraction.ExtractionOutcome) : Option ExtractionOutcome := do
  let properties ← propertiesField optionalFloat outcome.properties
  return ⟨outcome.sourceId, outcome.status, properties, outcome.error⟩

def outcomesField : List TextExtraction.ExtractionOutcome → Option (List ExtractionOutcome)
  | [] => some []
  | outcome :: outcomes => do
    let outcome ← ExtractionOutcome.validate optionalFloat outcome
    let outcomes ← outcomesField outcomes
    return outcome :: outcomes

/-- `ExtractionResponse.model_validate`. -/
def ExtractionResponse.validate (result : ExtractionResult) : Option ExtractionResponse := do
  let model ← ResolvedModelReference.validate result.model
  let outcomes ← outcomesField optionalFloat result.outcomes
  return ⟨result.executionMode, model, outcomes⟩

end Outcomes

/-! ### Tasks -/

structure TaskProgress where
  accepted : ℕ
  processed : ℕ
  successful : ℕ
  failed : ℕ
  accepted_ge : 1 ≤ accepted

structure TaskStatusResponse (τ : Type) where
  taskId : Uuid
  status : ExtractionTaskStatus
  progress : TaskProgress
  createdAt : τ
  updatedAt : τ
  expiresAt : τ
  error : Option ItemError

structure TaskResultsResponse (τ : Type) extends TaskStatusResponse τ where
  executionMode : ExecutionMode
  model : ResolvedModelReference
  outcomes : List ExtractionOutcome

structure RunningTaskCounts where
  total : ℕ
  queued : ℕ
  processing : ℕ

structure RunningTaskProgress where
  accepted : ℕ
  processed : ℕ
  successful : ℕ
  failed : ℕ

structure RunningTaskSummaryResponse where
  status : String := "running"
  tasks : RunningTaskCounts
  progress : RunningTaskProgress

structure ResultsPendingResponse where
  detail : String
  status : ExtractionTaskStatus

/-! ### Model versions -/

structure ModelVersionResponse (τ : Type) where
  modelName : String
  version : ℤ
  status : LifecycleStatus
  artifactDigest : String
  artifactSize : ℕ
  description : Option String
  metadata : List (String × Value)
  createdAt : τ
  version_ge : 1 ≤ version
  artifactSize_ge : 1 ≤ artifactSize

/-- The items of a `dict[str, Any]`. -/
def stringItems : List (Key × Value) → Option (List (String × Value))
  | [] => some []
  | (.str name, value) :: rest => do
    let rest ← stringItems rest
    return (name, value) :: rest
  | _ :: _ => none

/-- A `dict[str, Any]` field. -/
def dictField : Value → Option (List (String × Value))
  | .dict items => stringItems items
  | _ => none

/-- `ModelVersionResponse.model_validate`. -/
def ModelVersionResponse.validate {τ : Type} (record : ModelVersion τ) : Option (ModelVersionResponse τ) :=
  match dictField record.metadata with
  | none => none
  | some metadata =>
    if h : 1 ≤ record.version ∧ 1 ≤ record.artifactSize then
      some
        { modelName := record.modelName, version := record.version, status := record.status
          artifactDigest := record.artifactDigest, artifactSize := record.artifactSize
          description := record.description, metadata, createdAt := record.createdAt
          version_ge := h.1, artifactSize_ge := h.2 }
    else none

structure ModelVersionHistoryResponse (τ : Type) where
  modelName : String
  versions : List (ModelVersionResponse τ)

/-! ### Errors -/

structure ErrorResponse where
  detail : String
  limit : Option ℕ := none

/-- The field `error: Optional[ItemError]`, from a decoded column. -/
def errorField (error : Value) : Option (Option ItemError) :=
  if error.isNone then some none
  else
    match Value.strItem error "code", Value.strItem error "detail" with
    | .ok code, .ok detail => some (some ⟨code, detail⟩)
    | _, _ => none

end Schemas

end TextExtraction
