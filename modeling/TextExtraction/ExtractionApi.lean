import TextExtraction.RequestErrors
import TextExtraction.TaskApiAgreement

/-!
# The extraction route

What `POST /extractions` answers to any body, read off the body, the limits, the provider and the estimator
(`Application.extraction_law`): a refusal with an error that is true of the body, or one outcome for each
source, in order, with either every property asked for or the first exception of the calls made about it.
-/

namespace TextExtraction

open Python Relational

/-! ### What the provider and the estimator say of a source -/

namespace ExtractionService
variable (service : ExtractionService)

/-- What they answer for one property; a property the provider does not return is not found. -/
structure Finds (sourceId : String) (inferred : Mapping) (name : String) (result : PropertyResult) : Prop where
  found : ∃ found, inferred (.str name) = .ok found ∧
    found.getD ⟨.none, .notFound⟩ = ⟨result.value, result.inferenceStatus⟩
  uncertainty : service.uncertaintyEstimator.estimate sourceId (.str name) result.value = .ok result.uncertainty

/-- One of the two calls for the property raises. -/
def Raises (sourceId : String) (inferred : Mapping) (name : String) (error : Exc) : Prop :=
  inferred (.str name) = .error error ∨
    ∃ found, inferred (.str name) = .ok found ∧
      service.uncertaintyEstimator.estimate sourceId (.str name) (found.getD ⟨.none, .notFound⟩).value = .error error

/-- The first call about the source that raises. -/
def FirstRaises (sourceId text : String) (names : List String) (error : Exc) : Prop :=
  service.inferenceProvider.infer sourceId text (names.map .str) = .error error ∨
    ∃ inferred, service.inferenceProvider.infer sourceId text (names.map .str) = .ok inferred ∧
      ∃ before name after, names = before ++ name :: after ∧
        (∀ earlier ∈ before, ∃ result, service.Finds sourceId inferred earlier result) ∧
        service.Raises sourceId inferred name error

/-- The outcome of a source, as the calls about it make it. -/
inductive Tells (sourceId text : String) (names : List String) : ExtractionOutcome → Prop
  | completed {inferred : Mapping} {properties : List (Key × PropertyResult)} :
      service.inferenceProvider.infer sourceId text (names.map .str) = .ok inferred →
      List.Forall₂ (fun name p => p.1 = .str name ∧ service.Finds sourceId inferred name p.2) names properties →
      Tells sourceId text names { sourceId, status := .completed, properties }
  | failed {error : Exc} {message : String} :
      service.FirstRaises sourceId text names error → error.str = .ok message →
      Tells sourceId text names
        { sourceId, status := .failed
          error := some ⟨"processing_failed", if message = "" then "Source processing failed" else message⟩ }

variable {service} {sourceId text : String} {names : List String}

/-- One turn of the dict comprehension. -/
theorem propertyResults_cons (service : ExtractionService) (sourceId : String) (inferred : Mapping) (name : String)
    (rest : List Value) :
    (∃ result, service.Finds sourceId inferred name result ∧ ∀ built,
      service.propertyResults sourceId inferred (.str name :: rest) built =
        service.propertyResults sourceId inferred rest (setItem built (.str name) result)) ∨
    ∃ error, service.Raises sourceId inferred name error ∧ ∀ built,
      service.propertyResults sourceId inferred (.str name :: rest) built = .error error := by
  cases hfound : inferred (.str name) with
  | error error =>
    refine .inr ⟨error, .inl hfound, fun built => ?_⟩
    rw [propertyResults, hfound]
    rfl
  | ok found =>
    cases hestimate : service.uncertaintyEstimator.estimate sourceId (.str name)
        (found.getD ⟨.none, .notFound⟩).value with
    | error error =>
      have hresult : service.propertyResult sourceId (.str name) (found.getD ⟨.none, .notFound⟩) = .error error := by
        rw [propertyResult, hestimate]
        rfl
      refine .inr ⟨error, .inr ⟨found, hfound, hestimate⟩, fun built => ?_⟩
      rw [propertyResults, hfound]
      simp only [bind, Except.bind, hresult]
    | ok uncertainty =>
      let inferred' := found.getD ⟨.none, .notFound⟩
      have hresult : service.propertyResult sourceId (.str name) (found.getD ⟨.none, .notFound⟩) =
          .ok ⟨inferred'.value, inferred'.status, uncertainty⟩ := by
        rw [propertyResult, hestimate]
        rfl
      refine .inl ⟨⟨inferred'.value, inferred'.status, uncertainty⟩, ⟨⟨found, hfound, rfl⟩, hestimate⟩, fun built => ?_⟩
      rw [propertyResults, hfound]
      simp only [bind, Except.bind, hresult, Value.toKey]

/-- The dict comprehension adds the properties in order, or stops at the first exception. -/
theorem propertyResults_cases {inferred : Mapping} {built : List (Key × PropertyResult)} (hnd : names.Nodup)
    (hstr : ∀ kv ∈ built, kv.1.isStr = true) (hfresh : ∀ s ∈ names, Key.str s ∉ built.map Prod.fst) :
    (∃ results, service.propertyResults sourceId inferred (names.map .str) built = .ok (built ++ results) ∧
      List.Forall₂ (fun name p => p.1 = .str name ∧ service.Finds sourceId inferred name p.2) names results) ∨
    ∃ error, service.propertyResults sourceId inferred (names.map .str) built = .error error ∧
      ∃ before name after, names = before ++ name :: after ∧
        (∀ earlier ∈ before, ∃ result, service.Finds sourceId inferred earlier result) ∧
        service.Raises sourceId inferred name error := by
  induction names generalizing built with
  | nil => exact .inl ⟨[], by rw [List.append_nil]; rfl, .nil⟩
  | cons name names ih =>
    obtain ⟨hname, hnames⟩ := List.nodup_cons.1 hnd
    rw [List.map_cons]
    rcases propertyResults_cons service sourceId inferred name (names.map .str) with
      ⟨result, hfinds, hstep⟩ | ⟨error, hraises, hstep⟩
    · have hstr' : ∀ kv ∈ built ++ [(Key.str name, result)], kv.1.isStr = true := by
        intro kv hkv
        rcases List.mem_append.1 hkv with hkv | hkv
        · exact hstr kv hkv
        · rw [List.mem_singleton.1 hkv]
          rfl
      have hfresh' : ∀ s ∈ names, Key.str s ∉ (built ++ [(Key.str name, result)]).map Prod.fst := by
        intro s hs hmem
        rw [List.map_append, List.mem_append] at hmem
        rcases hmem with hmem | hmem
        · exact hfresh s (by simp [hs]) hmem
        · obtain rfl : s = name := by simpa using hmem
          exact hname hs
      rw [hstep, setItem_of_fresh hstr (hfresh name (by simp))]
      rcases ih hnames hstr' hfresh' with
        ⟨results, hok, hall⟩ | ⟨error, herror, before, next, after, rfl, hbefore, hraises⟩
      · exact .inl ⟨(.str name, result) :: results, by rw [hok, List.append_assoc]; rfl, .cons ⟨rfl, hfinds⟩ hall⟩
      · refine .inr ⟨error, herror, name :: before, next, after, rfl, ?_, hraises⟩
        intro earlier hearlier
        rcases List.mem_cons.1 hearlier with rfl | hearlier
        · exact ⟨result, hfinds⟩
        · exact hbefore earlier hearlier
    · exact .inr ⟨error, hstep built, [], name, names, rfl, by simp, hraises⟩

theorem inferProperties_cases (service : ExtractionService) (sourceId text : String) (hnd : names.Nodup) :
    (∃ inferred properties, service.inferenceProvider.infer sourceId text (names.map .str) = .ok inferred ∧
      service.inferProperties sourceId text (names.map .str) = .ok properties ∧
      List.Forall₂ (fun name p => p.1 = .str name ∧ service.Finds sourceId inferred name p.2) names properties) ∨
    ∃ error, service.inferProperties sourceId text (names.map .str) = .error error ∧
      service.FirstRaises sourceId text names error := by
  unfold inferProperties
  cases hinfer : service.inferenceProvider.infer sourceId text (names.map .str) with
  | error error => exact .inr ⟨error, rfl, .inl hinfer⟩
  | ok inferred =>
    have hcases : (∃ results,
        service.propertyResults sourceId inferred (names.map .str) [] = .ok ([] ++ results) ∧ _) ∨ _ :=
      propertyResults_cases hnd (by simp) (by simp)
    rcases hcases with ⟨results, hok, hall⟩ | ⟨error, herror, hfirst⟩
    · exact .inl ⟨inferred, results, rfl, hok, hall⟩
    · exact .inr ⟨error, herror, .inr ⟨inferred, hinfer, hfirst⟩⟩

theorem processSource_tells {model : ResolvedModelReference} {o : ExtractionOutcome} (hnd : names.Nodup)
    (h : service.processSourceWithModel sourceId text (names.map .str) model = .ok o) :
    service.Tells sourceId text names o := by
  unfold processSourceWithModel at h
  rcases inferProperties_cases service sourceId text hnd with
    ⟨inferred, properties, hinfer, hok, hall⟩ | ⟨error, herror, hfirst⟩
  · simp only [hok] at h
    cases h
    exact .completed hinfer hall
  · simp only [herror] at h
    cases hmessage : error.str with
    | error raised => simp only [hmessage] at h; cases h
    | ok message =>
      simp only [hmessage] at h
      cases h
      exact .failed hfirst hmessage

end ExtractionService

/-! ### The route -/

/-- The names asked for. -/
def BatchInput.propertyNames (payload : BatchInput) : List String :=
  payload.schema.properties.map fun property => strip property.name

/-- What the source texts amount to. -/
def BatchInput.characterCount (payload : BatchInput) : ℕ :=
  (payload.texts.map fun source => (strip source.text).length).sum

namespace Application
variable {app : Application} {payload : BatchInput}

/-- What `POST /extractions` answers to a body, whoever asks and whatever is stored. -/
structure ExtractionLaw (app : Application) (payload : BatchInput) : Prop where
  /-- A body that breaks a rule of its schema is told of one it breaks. -/
  invalid : ¬(payload.WellFormed ∧ payload.texts.length ≤ 10) → ∃ error, payload.Complaint 10 error ∧
    ∀ credentials fresh t db, app.respond credentials (.createExtraction payload) fresh t db =
      ({ status := .unprocessableEntity, body := .error { detail := error.message } }, db)
  tooManyTexts : payload.WellFormed → payload.texts.length ≤ 10 →
    app.taskService.extractionService.maxTexts < payload.texts.length →
    ∀ credentials fresh t db, app.respond credentials (.createExtraction payload) fresh t db =
      ({ status := .unprocessableEntity, body := .error
          ⟨s!"Text count exceeds the configured limit of {app.taskService.extractionService.maxTexts}",
            some app.taskService.extractionService.maxTexts⟩ }, db)
  tooManyCharacters : payload.WellFormed → payload.texts.length ≤ 10 →
    payload.texts.length ≤ app.taskService.extractionService.maxTexts →
    app.taskService.extractionService.maxCharacters < payload.characterCount →
    ∀ credentials fresh t db, app.respond credentials (.createExtraction payload) fresh t db =
      ({ status := .requestEntityTooLarge, body := .error
          ⟨"Combined text content exceeds the configured limit of " ++
              toString app.taskService.extractionService.maxCharacters ++ " characters",
            some app.taskService.extractionService.maxCharacters⟩ }, db)
  /-- Any other body is answered with the outcome of each of its sources. -/
  answered : payload.WellFormed → payload.texts.length ≤ 10 →
    payload.texts.length ≤ app.taskService.extractionService.maxTexts →
    payload.characterCount ≤ app.taskService.extractionService.maxCharacters → ∃ answer,
      (∀ credentials fresh t db, app.respond credentials (.createExtraction payload) fresh t db =
        ({ status := .ok, body := .extraction answer }, db)) ∧
      answer.executionMode = app.taskService.extractionService.inferenceProvider.executionMode ∧
      app.taskService.extractionService.modelCatalog.resolve (payload.model.map fun model => strip model.name)
        (payload.model.bind ModelSelectionInput.version) = .ok ⟨.str answer.model.name, .str answer.model.version⟩ ∧
      List.Forall₂ (fun source r => ∃ o : ExtractionOutcome, r.Shows app.optionalFloat o ∧
        app.taskService.extractionService.Tells (strip source.id) (strip source.text) payload.propertyNames o)
        payload.texts answer.outcomes

theorem respond_of_rejected {rejection : Rejection}
    (h : app.taskService.extractionService.createExtraction payload = .error rejection)
    (credentials : Option HTTPAuthorizationCredentials) (fresh : Uuid) (t : ℤ) (db : Db ℤ) :
    app.respond credentials (.createExtraction payload) fresh t db = (handleException (.rejected rejection), db) := by
  unfold respond handle createExtraction
  simp only [h]

theorem createExtraction_of_limits {service : ExtractionService} {batch : Batch 10} {error : ExtractionError}
    (hvalid : payload.validate 10 = .ok batch)
    (h : checkLimits service.maxTexts service.maxCharacters batch.texts = .error error) :
    service.createExtraction payload = .error (.extraction error) := by
  unfold ExtractionService.createExtraction ExtractionService.extract ExtractionService.validateLimits
  simp only [hvalid, h]

/-- The outcomes the synchronous route answers, source by source. -/
theorem answers_tells (hconforms : app.Conforms) (hprints : app.taskService.extractionService.PrintsErrors)
    (hacc : payload.Acceptable app.taskService.extractionService.maxTexts
      app.taskService.extractionService.maxCharacters) (hlength : payload.texts.length ≤ 10) :
    ∃ answer : Schemas.ExtractionResponse,
      app.createExtraction payload = .ok { status := .ok, body := .extraction answer } ∧
      answer.executionMode = app.taskService.extractionService.inferenceProvider.executionMode ∧
      app.taskService.extractionService.modelCatalog.resolve (payload.model.map fun model => strip model.name)
        (payload.model.bind ModelSelectionInput.version) = .ok ⟨.str answer.model.name, .str answer.model.version⟩ ∧
      List.Forall₂ (fun source r => ∃ o : ExtractionOutcome, r.Shows app.optionalFloat o ∧
        app.taskService.extractionService.Tells (strip source.id) (strip source.text) payload.propertyNames o)
        payload.texts answer.outcomes := by
  obtain ⟨request, hvalid⟩ := BatchInput.exists_validate_iff.2 ⟨hacc.wellFormed, hlength.trans (by decide : 10 ≤ 100)⟩
  have hnorm := BatchInput.validate_eq_ok_iff.1 hvalid
  obtain ⟨name, version, hcatalog⟩ := hconforms.catalog (payload.model.map fun model => strip model.name)
    (payload.model.bind ModelSelectionInput.version)
  -- the pipeline reads a body as a submission of it
  let sub : Submission ℤ := ⟨"", request, ⟨.str name, .str version⟩, 0⟩
  have hmodel : app.taskService.extractionService.resolveModel sub.request = .ok sub.model :=
    (hnorm.resolveModel _).trans hcatalog
  obtain ⟨outcomes, answer, houtcomes, hanswer, hmode, hresolved, hshown⟩ :=
    createExtraction_answers hconforms hprints hacc hlength hvalid hmodel
  refine ⟨answer, hanswer, hmode, ?_, ?_⟩
  · rw [hcatalog, ← hresolved]
  · have hnames : sub.propertyNames = payload.propertyNames.map .str := by
      rw [sub.propertyNames_eq, BatchInput.propertyNames, hnorm.names]
      rfl
    have hnodup : payload.propertyNames.Nodup := hacc.wellFormed.names_nodup
    have hprocessed : List.Forall₂ (fun text r => ∃ o : ExtractionOutcome,
        app.taskService.extractionService.processSourceWithModel text.id text.text sub.propertyNames sub.model = .ok o ∧
          r.Shows app.optionalFloat o) sub.request.texts answer.outcomes :=
      forall₂_trans (fun text o r ho hr => ⟨o, ho, hr⟩) (processSources_forall₂ houtcomes) hshown
    refine forall₂_trans (fun source text r hsource hr => ?_) hnorm.texts hprocessed
    obtain ⟨o, ho, hr⟩ := hr
    rw [hnames, ← hsource.id, ← hsource.text] at ho
    exact ⟨o, hr, ExtractionService.processSource_tells hnodup ho⟩

/-- The synchronous route answers every body as `ExtractionLaw` says. -/
theorem extraction_law (hconforms : app.Conforms) (hprints : app.taskService.extractionService.PrintsErrors)
    (payload : BatchInput) : app.ExtractionLaw payload := by
  refine ⟨fun hnot => ?_, fun hwell hlength hmany => ?_, fun hwell hlength htexts hlong => ?_,
    fun hwell hlength htexts hcharacters => ?_⟩
  · cases hvalid : payload.validate 10 with
    | ok batch => exact absurd (BatchInput.exists_validate_iff.1 ⟨batch, hvalid⟩) hnot
    | error errors =>
      obtain ⟨hne, hall⟩ := BatchInput.validate_errs errors hvalid
      obtain ⟨error, rest, rfl⟩ := List.exists_cons_of_ne_nil hne
      have hrejected : app.taskService.extractionService.createExtraction payload =
          .error (.validation (error :: rest)) := by
        unfold ExtractionService.createExtraction
        simp only [hvalid]
      exact ⟨error, hall error (by simp), respond_of_rejected hrejected⟩
  · obtain ⟨batch, hvalid⟩ := BatchInput.exists_validate_iff.2 ⟨hwell, hlength⟩
    have hcount : batch.texts.length = payload.texts.length :=
      (BatchInput.validate_eq_ok_iff.1 hvalid).texts.length_eq.symm
    have hlimits : checkLimits app.taskService.extractionService.maxTexts
        app.taskService.extractionService.maxCharacters batch.texts =
          .error (.request s!"Text count exceeds the configured limit of {app.taskService.extractionService.maxTexts}"
            app.taskService.extractionService.maxTexts) := by
      rw [checkLimits, if_pos (by omega)]
    exact respond_of_rejected (createExtraction_of_limits hvalid hlimits)
  · obtain ⟨batch, hvalid⟩ := BatchInput.exists_validate_iff.2 ⟨hwell, hlength⟩
    have hnorm := BatchInput.validate_eq_ok_iff.1 hvalid
    have hcount : batch.texts.length = payload.texts.length := hnorm.texts.length_eq.symm
    have hlimits : checkLimits app.taskService.extractionService.maxTexts
        app.taskService.extractionService.maxCharacters batch.texts =
          .error (.volume app.taskService.extractionService.maxCharacters) := by
      rw [checkLimits, if_neg (by omega), if_pos (by rw [← hnorm.characterCount]; exact hlong)]
    exact respond_of_rejected (createExtraction_of_limits hvalid hlimits)
  · obtain ⟨answer, hanswer, hrest⟩ := answers_tells hconforms hprints ⟨hwell, htexts, hcharacters⟩ hlength
    exact ⟨answer, fun credentials fresh t db => respond_createExtraction hanswer, hrest⟩

/-- The stub application. -/
theorem extraction_law_example : stubApplication.ExtractionLaw (plainBody 1) :=
  extraction_law stubApplication_conforms (stub_renders []).toPrintsErrors (plainBody 1)

end Application

end TextExtraction
