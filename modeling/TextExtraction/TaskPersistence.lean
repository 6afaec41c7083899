import TextExtraction.TaskResults

/-!
# What can be persisted

An item that was processed is still to be copied, encoded and written, under the handler of the
whole task. `Harmless` says in terms of the provider and the estimator alone when none of this
raises, and `persists_iff` that it is what decides whether a source comes through.
-/

namespace TextExtraction

open Python Relational

variable {τ : Type}

/-- What `finalize_item` is given for the source can be built and encoded. -/
def ExtractionTaskService.PersistsItem (service : ExtractionTaskService) (sub : Submission τ)
    (source : SourceText) : Prop :=
  ∃ outcome error oj ej, service.itemOutcome sub source = .ok (outcome, error) ∧
    canonicalJson? (outcome.map .dict) = .ok oj ∧ canonicalJson? (error.map strDict) = .ok ej

/-- Every source of the submission can be processed and what comes out of it persisted. -/
def Submission.Persists (service : ExtractionTaskService) (sub : Submission τ) : Prop :=
  ∀ source ∈ sub.request.texts, service.PersistsItem sub source

/-! ### Harmless answers -/

/-- `str(error)` does not raise. -/
def Prints (error : Exc) : Prop := ∃ message, error.str = .ok message

/-- `asdict` copies the value and `canonical_json` encodes the copy. -/
def Storable (v : Value) : Prop := ∃ w, ReadsBack v w

namespace ExtractionService

variable (service : ExtractionService)

/-- What the provider and the estimator have to say about one property. -/
def answer (sourceId : String) (inferred : Mapping) (name : Value) : Except Exc (Value × Value) := do
  let found ← inferred name
  let value := (found.getD ⟨.none, .notFound⟩).value
  let uncertainty ← service.uncertaintyEstimator.estimate sourceId name value
  return (value, uncertainty.value)

/-- What they have to say about a source: two values for each name, or the first exception. -/
def answers (source : SourceText) (names : List Value) : Except Exc (List (Value × Value)) := do
  let inferred ← service.inferenceProvider.infer source.id source.text names
  names.mapM (service.answer source.id inferred)

/-- Whatever is raised about the source has a text. -/
def Printable (source : SourceText) (names : List Value) : Prop :=
  ∀ error, service.answers source names = .error error → Prints error

/-- Whatever is raised about the source has a text, and if nothing is, every value encodes. -/
def Harmless (source : SourceText) (names : List Value) : Prop :=
  service.Printable source names ∧
    ∀ values, service.answers source names = .ok values → ∀ v ∈ values, Storable v.1 ∧ Storable v.2

end ExtractionService

/-- The two values of a property. -/
def PropertyResult.values (result : PropertyResult) : Value × Value :=
  (result.value, result.uncertainty.value)

section Answers
variable {service : ExtractionService}

theorem propertyResult_values (sourceId : String) (inferred : Mapping) (name : Value) :
    service.answer sourceId inferred name = (do
      let found ← inferred name
      let result ← service.propertyResult sourceId name (found.getD ⟨.none, .notFound⟩)
      return result.values) := by
  unfold ExtractionService.answer ExtractionService.propertyResult
  cases inferred name with
  | error e => rfl
  | ok found =>
    simp only [bind, Except.bind]
    cases service.uncertaintyEstimator.estimate sourceId name
      (found.getD ⟨.none, .notFound⟩).value <;> rfl

theorem propertyResults_values {sourceId : String} {inferred : Mapping} {names : List String}
    {built : List (Key × PropertyResult)} (hnd : names.Nodup)
    (hstr : ∀ kv ∈ built, kv.1.isStr = true) (hfresh : ∀ s ∈ names, Key.str s ∉ built.map Prod.fst) :
    (service.propertyResults sourceId inferred (names.map .str) built).map
        (List.map fun p => p.2.values) =
      ((names.map Value.str).mapM (service.answer sourceId inferred)).map
        fun values => built.map (fun p => p.2.values) ++ values := by
  induction names generalizing built with
  | nil => simp [ExtractionService.propertyResults, Except.map, pure, Except.pure]
  | cons name names ih =>
    obtain ⟨hname, hnames⟩ := List.nodup_cons.1 hnd
    rw [List.map_cons, ExtractionService.propertyResults, List.mapM_cons, propertyResult_values]
    cases hf : inferred (.str name) with
    | error e => rfl
    | ok found =>
    simp only [bind, Except.bind]
    cases hr : service.propertyResult sourceId (.str name) (found.getD ⟨.none, .notFound⟩) with
    | error e => rfl
    | ok result =>
    have hset : setItem built (.str name) result = built ++ [(.str name, result)] :=
      setItem_of_fresh hstr (hfresh name (by simp))
    simp only [Value.toKey, hset]
    rw [ih hnames ?_ ?_]
    · cases (names.map Value.str).mapM (service.answer sourceId inferred) with
      | error e => rfl
      | ok values => simp [Except.map, pure, Except.pure]
    · intro kv hkv
      rcases List.mem_append.1 hkv with hkv | hkv
      · exact hstr kv hkv
      · rw [List.mem_singleton.1 hkv]; rfl
    · intro s hs hmem
      rw [List.map_append, List.mem_append] at hmem
      rcases hmem with hmem | hmem
      · exact hfresh s (by simp [hs]) hmem
      · obtain rfl : s = name := by simpa using hmem
        exact hname hs

end Answers

/-- The answers are what processing the source has to go on. -/
theorem answers_eq (service : ExtractionService) (schema : ExtractionSchema) (source : SourceText) :
    service.answers source schema.propertyNames =
      (service.inferProperties source.id source.text schema.propertyNames).map
        (List.map fun p => p.2.values) := by
  rw [ExtractionService.answers, ExtractionService.inferProperties, schema.propertyNames_eq]
  cases service.inferenceProvider.infer source.id source.text
      ((schema.properties.map PropertyDefinition.name).map .str) with
  | error e => rfl
  | ok inferred =>
    have hvalues : (service.propertyResults source.id inferred _ []).map _ = _ :=
      propertyResults_values schema.names_nodup (by simp) (by simp)
    simp only [bind, Except.bind]
    rw [hvalues]
    cases ((schema.properties.map PropertyDefinition.name).map Value.str).mapM
      (service.answer source.id inferred) <;> rfl

/-! ### Encoding -/

theorem PropertyResult.asdict_ok {result : PropertyResult} (hvalue : Storable result.value)
    (huncertainty : Storable result.uncertainty.value) :
    ∃ v j, result.asdict = .ok v ∧ canonicalJson v = .ok j := by
  obtain ⟨-, x, jx, hx, hjx, -⟩ := hvalue
  obtain ⟨-, u, ju, hu, hju, -⟩ := huncertainty
  have hstatus : Encodes true [(Key.str "value", u), (.str "status", .str result.uncertainty.status.value)]
      [("value", ju), ("status", .str result.uncertainty.status.value)] :=
    .cons ⟨rfl, hju⟩ (.cons ⟨rfl, rfl⟩ .nil)
  have hentry : Encodes true [(Key.str "value", x),
      (.str "inference_status", .str result.inferenceStatus.value),
      (.str "uncertainty", .dict [(.str "value", u), (.str "status", .str result.uncertainty.status.value)])]
      [("value", jx), ("inference_status", .str result.inferenceStatus.value), ("uncertainty", _)] :=
    .cons ⟨rfl, hjx⟩ (.cons ⟨rfl, rfl⟩ (.cons ⟨rfl, dumps_dict hstatus⟩ .nil))
  refine ⟨_, _, ?_, dumps_dict hentry⟩
  rw [PropertyResult.asdict, hx, hu]

theorem outcomePayload_ok {names : List Value} {properties : List (Key × PropertyResult)}
    (hall : ∀ p ∈ properties, isRequested names p.1 = true)
    (h : ∀ p ∈ properties, ∃ v j, p.2.asdict = .ok v ∧ canonicalJson v = .ok j) :
    ∃ payload, outcomePayload names properties = .ok payload ∧
      payload.map Prod.fst = properties.map Prod.fst ∧
      ∀ kv ∈ payload, ∃ j, canonicalJson kv.2 = .ok j := by
  induction properties with
  | nil => exact ⟨[], rfl, rfl, by simp⟩
  | cons p properties ih =>
    obtain ⟨name, result⟩ := p
    obtain ⟨v, j, hv, hj⟩ := h (name, result) (by simp)
    obtain ⟨payload, hpayload, hkeys, hencoded⟩ := ih (fun p hp => hall p (by simp [hp]))
      fun p hp => h p (by simp [hp])
    refine ⟨(name, v) :: payload, ?_, by simp [hkeys], ?_⟩
    · rw [outcomePayload, if_pos (hall (name, result) (by simp)), hv]
      simp only [hpayload]
    · intro kv hkv
      rcases List.mem_cons.1 hkv with rfl | hkv
      · exact ⟨j, hj⟩
      · exact hencoded kv hkv

/-! ### What decides -/

section Item
variable {service : ExtractionTaskService} {sub : Submission τ} {source : SourceText}
  {o : ExtractionOutcome}

theorem persistsItem_of_storable
    (ho : service.extractionService.processSourceWithModel source.id source.text sub.propertyNames
      sub.model = .ok o)
    (h : ∀ p ∈ o.properties, Storable p.2.value ∧ Storable p.2.uncertainty.value) :
    service.PersistsItem sub source := by
  rcases processSource_cases ho with ⟨properties, rfl, -, hkeys⟩ | ⟨failure, rfl⟩
  · have hall := isRequested_of_keys hkeys
    rw [← sub.propertyNames_eq] at hall
    obtain ⟨payload, hpayload, hnames, hencoded⟩ := outcomePayload_ok hall fun p hp =>
      PropertyResult.asdict_ok (h p hp).1 (h p hp).2
    have hstr : ∀ kv ∈ payload, ∃ s, kv.1 = .str s := by
      intro kv hkv
      have hmem : kv.1 ∈ payload.map Prod.fst := List.mem_map_of_mem hkv
      rw [hnames, hkeys] at hmem
      obtain ⟨s, -, hs⟩ := List.mem_map.1 hmem
      exact ⟨s, hs.symm⟩
    obtain ⟨js, hjs⟩ := Python.Encodes.of_forall hstr hencoded
    refine ⟨some payload, none, some (.obj (orderBy Prod.fst js)), none,
      itemOutcome_ok.2 ⟨_, ho, ?_⟩, ?_, rfl⟩
    · rw [finalizeArguments]
      simp only [hpayload]
      rfl
    · rw [Option.map_some, canonicalJson?, canonicalJson, dumps_dict hjs]; rfl
  · refine ⟨none, some failure.asdict, none,
      some (.obj (orderBy Prod.fst (failure.asdict.map fun kv => (kv.1, .str kv.2)))),
      itemOutcome_ok.2 ⟨_, ho, rfl⟩, rfl, ?_⟩
    rw [Option.map_some, canonicalJson?, canonicalJson_strDict]; rfl

theorem processSource_of_properties {service : ExtractionService} {source : SourceText}
    {names : List Value} {model : ResolvedModelReference} {properties : List (Key × PropertyResult)}
    (h : service.inferProperties source.id source.text names = .ok properties) :
    service.processSourceWithModel source.id source.text names model =
      .ok { sourceId := source.id, status := .completed, properties } := by
  unfold ExtractionService.processSourceWithModel
  rw [h]

theorem processSource_of_error {service : ExtractionService} {schema : ExtractionSchema}
    {model : ResolvedModelReference} {error : Exc} {message : String}
    (h : service.answers source schema.propertyNames = .error error) (hmessage : error.str = .ok message) :
    service.processSourceWithModel source.id source.text schema.propertyNames model =
      .ok { sourceId := source.id, status := .failed,
            error := some ⟨"processing_failed", orElse message "Source processing failed"⟩ } := by
  rw [answers_eq] at h
  unfold ExtractionService.processSourceWithModel
  cases hp : service.inferProperties source.id source.text schema.propertyNames with
  | ok properties => rw [hp] at h; cases h
  | error e =>
    rw [hp] at h
    cases h
    simp only [hmessage]

theorem answers_of_properties {service : ExtractionService} {schema : ExtractionSchema}
    {properties : List (Key × PropertyResult)}
    (h : service.inferProperties source.id source.text schema.propertyNames = .ok properties) :
    service.answers source schema.propertyNames = .ok (properties.map fun p => p.2.values) := by
  rw [answers_eq, h]; rfl

theorem inferProperties_of_answers {service : ExtractionService} {values : List (Value × Value)}
    {schema : ExtractionSchema} (h : service.answers source schema.propertyNames = .ok values) :
    ∃ properties, service.inferProperties source.id source.text schema.propertyNames = .ok properties ∧
      values = properties.map fun p => p.2.values := by
  rw [answers_eq] at h
  obtain ⟨properties, hp, rfl⟩ := map_eq_ok_iff.1 h
  exact ⟨properties, hp, rfl⟩

/-- A source is processed unless something is raised about it that has no text. -/
theorem printable_iff {service : ExtractionService} {schema : ExtractionSchema} {source : SourceText}
    {model : ResolvedModelReference} :
    service.Printable source schema.propertyNames ↔
      ∃ o, service.processSourceWithModel source.id source.text schema.propertyNames model = .ok o := by
  unfold ExtractionService.Printable ExtractionService.processSourceWithModel
  rw [answers_eq]
  cases service.inferProperties source.id source.text schema.propertyNames with
  | ok properties => simp [Except.map]
  | error e =>
    simp only [Except.map, Except.error.injEq, forall_eq', Prints]
    cases e.str <;> simp

/-- A source comes through if and only if what the provider and the estimator say is harmless. -/
theorem persistsItem_iff :
    service.PersistsItem sub source ↔ service.extractionService.Harmless source sub.propertyNames := by
  constructor
  · rintro ⟨outcome, error, oj, ej, hok, hoj, hej⟩
    obtain ⟨o, ho, hargs⟩ := itemOutcome_ok.1 hok
    refine ⟨printable_iff.2 ⟨o, ho⟩, fun values hvalues v hv => ?_⟩
    obtain ⟨properties, hp, rfl⟩ := inferProperties_of_answers hvalues
    obtain ⟨p, hmem, rfl⟩ := List.mem_map.1 hv
    have hprocess : service.extractionService.processSourceWithModel source.id source.text
        sub.propertyNames sub.model = .ok { sourceId := source.id, status := .completed, properties } :=
      processSource_of_properties hp
    rw [hprocess] at ho
    cases ho
    -- the payload was built and encoded, so every entry was
    rw [finalizeArguments] at hargs
    obtain ⟨payload, houtcome, hpair⟩ := map_eq_ok_iff.1 hargs
    cases hpair
    obtain ⟨j, hj, rfl⟩ := canonicalJson?_some_iff.1 hoj
    obtain ⟨properties', hprocess', hkeys, hpayload⟩ := payload_of_itemOutcome hok
    rw [hprocess] at hprocess'
    cases hprocess'
    obtain ⟨-, restored, -, -, -, -, -, hback⟩ := storedItems_of_dumps hkeys sub.names_nodup hpayload hj
    obtain ⟨r, -, -, hr⟩ := exists_right_of_forall₂ hback (mem_orderBy.2 hmem)
    exact ⟨⟨_, hr.value⟩, ⟨_, hr.uncertainty⟩⟩
  · rintro ⟨hprints, hstorable⟩
    obtain ⟨o, ho⟩ := printable_iff.1 hprints
    refine persistsItem_of_storable ho fun p hp => ?_
    rcases processSource_cases ho with ⟨properties, rfl, hproperties, -⟩ | ⟨failure, rfl⟩
    · have hvalues : service.extractionService.answers source sub.propertyNames = .ok _ :=
        answers_of_properties hproperties
      exact hstorable _ hvalues p.2.values (List.mem_map.2 ⟨p, hp, rfl⟩)
    · simp at hp

theorem persists_iff :
    sub.Persists service ↔
      ∀ source ∈ sub.request.texts, service.extractionService.Harmless source sub.propertyNames :=
  forall₂_congr fun _ _ => persistsItem_iff

end Item

end TextExtraction
