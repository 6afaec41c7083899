import TextExtraction.TaskService

/-!
# The stub adapters

The provider, estimator and catalog the application is wired with by default, and a small service
over them. The concrete runs of other modules use these.
-/

namespace TextExtraction

open Python

/-- `StubInferenceProvider`: one not-inferred value per property, or the simulated failure. -/
def stubInferenceProvider (failingSourceIds : List String) : InferenceProvider where
  executionMode := .stub
  infer sourceId _ propertyNames :=
    if sourceId ∈ failingSourceIds then
      .error (.raised .runtimeError ("Inference failed for source '" ++ sourceId ++ "'"))
    else do
      let keys ← propertyNames.mapM Value.toKey
      return fun name => do
        let key ← name.toKey
        return if keys.any key.same then some ⟨.none, .notInferred⟩ else none

section Infer
variable {failing : List String} {sourceId text : String} {names : List Value} {inferred : Mapping} {e : Exc}

theorem stub_infer_eq_error (h : (stubInferenceProvider failing).infer sourceId text names = .error e) :
    ∃ kind message, e = .raised kind message := by
  unfold stubInferenceProvider at h
  dsimp only at h
  split at h
  · cases h
    exact ⟨_, _, rfl⟩
  · rcases bind_eq_error_iff.1 h with h | ⟨keys, -, h⟩
    · obtain ⟨name, -, hname⟩ := mapM_eq_error h
      obtain ⟨message, rfl⟩ := Value.toKey_eq_error hname
      exact ⟨_, _, rfl⟩
    · cases h

/-- What is found under a name says nothing was inferred. -/
theorem stub_get (h : (stubInferenceProvider failing).infer sourceId text names = .ok inferred) (name : Value) :
    (∃ message, inferred name = .error (.raised .typeError message)) ∨ inferred name = .ok none ∨
      inferred name = .ok (some ⟨.none, .notInferred⟩) := by
  unfold stubInferenceProvider at h
  dsimp only at h
  split at h
  · cases h
  · obtain ⟨keys, -, h⟩ := bind_eq_ok_iff.1 h
    cases h
    dsimp only
    cases hkey : name.toKey with
    | error e =>
      obtain ⟨message, rfl⟩ := Value.toKey_eq_error hkey
      exact .inl ⟨message, rfl⟩
    | ok key =>
      by_cases hmem : keys.any key.same = true
      · exact .inr (.inr (congrArg Except.ok (if_pos hmem)))
      · exact .inr (.inl (congrArg Except.ok (if_neg hmem)))

end Infer

/-- `StubUncertaintyEstimator`. -/
def stubUncertaintyEstimator : UncertaintyEstimator where
  estimate _ _ _ := .ok ⟨.none, .notCalculated⟩

/-- `StubModelCatalog`. -/
def stubModelCatalog : ModelCatalog where
  resolve name version :=
    .ok ⟨.str (orElse (name.getD "") "stub-extraction-provider"), .str (orElse (version.getD "") "stub")⟩

/-- A task service over the stubs. -/
def stubService (failingSourceIds : List String) : ExtractionTaskService where
  extractionService :=
    { inferenceProvider := stubInferenceProvider failingSourceIds
      uncertaintyEstimator := stubUncertaintyEstimator
      modelCatalog := stubModelCatalog
      maxTexts := 10
      maxCharacters := 1000 }
  maxTexts := 100
  maxCharacters := 1000
  retention := 10
  tombstone := 10
  lease := 5

/-- One requested property. -/
def sampleSchema : ExtractionSchema where
  properties := [{ name := "p", type := .string, name_normalized := by decide }]
  properties_ne := by simp
  names_nodup := by simp

/-- Two sources. -/
def sampleRequest : ExtractionTaskRequest where
  texts := [⟨"a", "x", by decide, by decide⟩, ⟨"b", "y", by decide, by decide⟩]
  schema := sampleSchema
  texts_ne := by simp
  texts_length := by simp
  ids_nodup := by decide

end TextExtraction
