import TextExtraction.Lib.PyJson

/-!
# Extraction domain and service

The domain values of `extraction.py`, the provider boundaries of `inference.py` and
`uncertainty.py`, and `process_source_with_model`, the per-source step that both the synchronous
and the asynchronous path run.
-/

namespace TextExtraction

open Python

/-! ### Domain values -/

inductive ExecutionMode
  | stub | model
deriving DecidableEq, Repr

inductive OutcomeStatus
  | completed | failed
deriving DecidableEq, Repr

inductive InferenceStatus
  | inferred | notFound | notInferred
deriving DecidableEq, Repr

inductive UncertaintyStatus
  | calculated | notCalculated
deriving DecidableEq, Repr

/-- `Enum(value)`: the member with that value, or `ValueError`. -/
def enumOf {α : Type} (name : String) (members : List (String × α)) (value : Value) :
    Except Exc α :=
  match value with
  | .str s =>
    match members.find? fun m => m.1 = s with
    | some m => .ok m.2
    | none => .error (.raised .valueError ("'" ++ s ++ "' is not a valid " ++ name))
  | v => .error (.raised .valueError (v.typeName ++ " is not a valid " ++ name))

namespace ExecutionMode

def value : ExecutionMode → String
  | stub => "stub"
  | model => "model"

def ofValue : Value → Except Exc ExecutionMode :=
  enumOf "ExecutionMode" [("stub", stub), ("model", model)]

@[simp] theorem ofValue_value (m : ExecutionMode) : ofValue (.str m.value) = .ok m := by
  cases m <;> decide

end ExecutionMode

namespace InferenceStatus

def value : InferenceStatus → String
  | inferred => "inferred"
  | notFound => "not_found"
  | notInferred => "not_inferred"

def ofValue : Value → Except Exc InferenceStatus :=
  enumOf "InferenceStatus"
    [("inferred", inferred), ("not_found", notFound), ("not_inferred", notInferred)]

@[simp] theorem ofValue_value (m : InferenceStatus) : ofValue (.str m.value) = .ok m := by
  cases m <;> decide

end InferenceStatus

namespace UncertaintyStatus

def value : UncertaintyStatus → String
  | calculated => "calculated"
  | notCalculated => "not_calculated"

def ofValue : Value → Except Exc UncertaintyStatus :=
  enumOf "UncertaintyStatus" [("calculated", calculated), ("not_calculated", notCalculated)]

@[simp] theorem ofValue_value (m : UncertaintyStatus) : ofValue (.str m.value) = .ok m := by
  cases m <;> decide

end UncertaintyStatus

/-- The fields are annotated `str`; dataclasses do not check that, and a worker fills them from
decoded JSON. -/
structure ResolvedModelReference where
  name : Value
  version : Value

structure UncertaintyResult where
  value : Value
  status : UncertaintyStatus

structure PropertyResult where
  value : Value
  inferenceStatus : InferenceStatus
  uncertainty : UncertaintyResult

structure ItemError where
  code : String
  detail : String
deriving DecidableEq

structure ExtractionOutcome where
  sourceId : String
  status : OutcomeStatus
  properties : List (Key × PropertyResult) := []
  error : Option ItemError := none

/-! ### Provider boundaries -/

structure InferenceValue where
  value : Value
  status : InferenceStatus

/-- What a provider hands back, seen through its `get`: a property is found, absent, or `get`
raises (the answer need not be a mapping at all). -/
abbrev Mapping := Value → Except Exc (Option InferenceValue)

structure InferenceProvider where
  executionMode : ExecutionMode
  infer (sourceId text : String) (propertyNames : List Value) : Except Exc Mapping

structure UncertaintyEstimator where
  estimate (sourceId : String) (propertyName value : Value) : Except Exc UncertaintyResult

structure ModelCatalog where
  resolve (name version : Option String) : Except Exc ResolvedModelReference

/-! ### `process_source_with_model` -/

structure ExtractionService where
  inferenceProvider : InferenceProvider
  uncertaintyEstimator : UncertaintyEstimator
  modelCatalog : ModelCatalog
  maxTexts : ℕ
  maxCharacters : ℕ

namespace ExtractionService

variable (service : ExtractionService)

/-- `_property_result`. -/
def propertyResult (sourceId : String) (propertyName : Value) (inferred : InferenceValue) :
    Except Exc PropertyResult := do
  let uncertainty ← service.uncertaintyEstimator.estimate sourceId propertyName inferred.value
  return ⟨inferred.value, inferred.status, uncertainty⟩

/-- The dict comprehension over `property_names`, filling `built`. -/
def propertyResults (sourceId : String) (inferred : Mapping) :
    List Value → List (Key × PropertyResult) → Except Exc (List (Key × PropertyResult))
  | [], built => .ok built
  | name :: names, built => do
    let found ← inferred name
    let result ← service.propertyResult sourceId name (found.getD ⟨.none, .notFound⟩)
    let key ← name.toKey
    propertyResults sourceId inferred names (setItem built key result)

/-- The body of the `try`. -/
def inferProperties (sourceId text : String) (propertyNames : List Value) :
    Except Exc (List (Key × PropertyResult)) := do
  let inferred ← service.inferenceProvider.infer sourceId text propertyNames
  service.propertyResults sourceId inferred propertyNames []

/-- `process_source_with_model`; the model reference is not used. Raises only when rendering the
caught exception does. -/
def processSourceWithModel (sourceId text : String) (propertyNames : List Value)
    (_model : ResolvedModelReference) : Except Exc ExtractionOutcome :=
  match service.inferProperties sourceId text propertyNames with
  | .ok properties => .ok { sourceId, status := .completed, properties }
  | .error error =>
    match error.str with
    | .ok message =>
      let detail := orElse message "Source processing failed"
      .ok { sourceId, status := .failed, error := some ⟨"processing_failed", detail⟩ }
    | .error raised => .error raised

theorem processSourceWithModel_cases {service} {sourceId text : String} {propertyNames : List Value}
    {model : ResolvedModelReference} {o : ExtractionOutcome}
    (h : processSourceWithModel service sourceId text propertyNames model = .ok o) :
    (∃ properties, o = { sourceId, status := .completed, properties } ∧
      inferProperties service sourceId text propertyNames = .ok properties) ∨
      ∃ failure, o = { sourceId, status := .failed, error := some failure } := by
  unfold processSourceWithModel at h
  split at h
  · rename_i properties hproperties
    cases h
    exact .inl ⟨properties, rfl, hproperties⟩
  · split at h <;> cases h
    exact .inr ⟨_, rfl⟩

section Congr
variable {service} {service' : ExtractionService}

theorem propertyResults_congr (hestimator : service.uncertaintyEstimator = service'.uncertaintyEstimator)
    (sourceId : String) (inferred : Mapping) (names : List Value) (built : List (Key × PropertyResult)) :
    service.propertyResults sourceId inferred names built =
      service'.propertyResults sourceId inferred names built := by
  induction names generalizing built with
  | nil => rfl
  | cons name names ih => simp only [propertyResults, propertyResult, hestimator, ih]

/-- Of the provider, only its answer about the source matters. -/
theorem processSourceWithModel_congr (hestimator : service.uncertaintyEstimator = service'.uncertaintyEstimator)
    {sourceId text : String} {propertyNames : List Value}
    (hinfer : service.inferenceProvider.infer sourceId text propertyNames =
      service'.inferenceProvider.infer sourceId text propertyNames) (model model' : ResolvedModelReference) :
    service.processSourceWithModel sourceId text propertyNames model =
      service'.processSourceWithModel sourceId text propertyNames model' := by
  have hproperties : service.inferProperties sourceId text propertyNames =
      service'.inferProperties sourceId text propertyNames := by
    simp only [inferProperties, hinfer, propertyResults_congr hestimator]
  simp only [processSourceWithModel, hproperties]

end Congr

end ExtractionService

end TextExtraction
