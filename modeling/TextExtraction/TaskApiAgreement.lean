import TextExtraction.TaskApiCreate
import TextExtraction.TaskIsolation
import TextExtraction.TaskWorkerStep

/-!
# The two extraction routes agree

One body posted to `/extractions` and to `/extraction-tasks`: the first answers at once, the second a task
whose results are 409 until it is finished and from then on, until it expires, the outcomes of the first.
What workers persisted and the results route restored is compared with what the synchronous route
computed up to the order of object keys (`Schemas.ExtractionOutcome.canon`): `Application.routes_agree`.
-/

namespace TextExtraction

open Python Relational Transition

/-! ### Outcomes up to the order of keys -/

namespace Schemas

/-- The property with its value in canonical form. -/
def PropertyResult.canon (result : PropertyResult) : PropertyResult := { result with value := result.value.canon }

/-- The outcome with the keys of its objects in order: outcomes that agree here are the same JSON. -/
def ExtractionOutcome.canon (outcome : ExtractionOutcome) : ExtractionOutcome :=
  { outcome with properties := (orderBy Prod.fst outcome.properties).map fun p => (p.1, p.2.canon) }

end Schemas

theorem Probability.canon {v : Value} (h : Probability v) : v.canon = v := by
  rcases h with rfl | ⟨f, rfl, -⟩ <;> rw [Value.canon]

/-- Canonical forms of nothing else are probabilities. -/
theorem Probability.of_canon {v w : Value} (h : Probability w) (hcanon : v.canon = w.canon) : v = w := by
  rw [h.canon] at hcanon
  rcases h with rfl | ⟨f, rfl, -⟩ <;> cases v <;> simp_all [Value.canon]

section Shown
variable {optionalFloat : Value → Option (Option PyFloat)}

/-- The field is the property. -/
structure ShowsProperty (optionalFloat : Value → Option (Option PyFloat)) (p : Key × PropertyResult)
    (q : String × Schemas.PropertyResult) : Prop where
  name : p.1 = .str q.1
  value : q.2.value = p.2.value
  inferenceStatus : q.2.inferenceStatus = p.2.inferenceStatus
  status : q.2.uncertainty.status = p.2.uncertainty.status
  uncertainty : optionalFloat p.2.uncertainty.value = some q.2.uncertainty.value

theorem ShowsProperty.canon {p p' : Key × PropertyResult} {q q' : String × Schemas.PropertyResult}
    (h : ShowsProperty optionalFloat p q) (h' : ShowsProperty optionalFloat p' q')
    (hprob : Probability p'.2.uncertainty.value) (hcanon : (p.1, p.2.canon) = (p'.1, p'.2.canon)) :
    (q.1, q.2.canon) = (q'.1, q'.2.canon) := by
  obtain ⟨hkey, hresult⟩ := Prod.mk.inj hcanon
  have hvalue : p.2.value.canon = p'.2.value.canon := congrArg PropertyResult.value hresult
  have hinference : p.2.canon.inferenceStatus = p'.2.canon.inferenceStatus := by rw [hresult]
  have hstatus : p.2.canon.uncertainty.status = p'.2.canon.uncertainty.status := by rw [hresult]
  have hfloat : p.2.uncertainty.value = p'.2.uncertainty.value :=
    hprob.of_canon (congrArg (fun r : PropertyResult => r.uncertainty.value) hresult)
  have hname : q.1 = q'.1 := Key.str.inj ((h.name.symm.trans hkey).trans h'.name)
  have hshown : q.2.uncertainty.value = q'.2.uncertainty.value := by
    have hsome := h.uncertainty
    rw [hfloat, h'.uncertainty] at hsome
    exact (Option.some.inj hsome).symm
  have hvalue' : q.2.value.canon = q'.2.value.canon := by rw [h.value, h'.value, hvalue]
  have hinference' : q.2.inferenceStatus = q'.2.inferenceStatus := by
    rw [h.inferenceStatus, h'.inferenceStatus]
    exact hinference
  have hstatus' : q.2.uncertainty.status = q'.2.uncertainty.status := by
    rw [h.status, h'.status]
    exact hstatus
  obtain ⟨name, ⟨v, i, ⟨u, us, hu⟩⟩⟩ := q
  obtain ⟨name', ⟨v', i', ⟨u', us', hu'⟩⟩⟩ := q'
  obtain rfl : name = name' := hname
  obtain rfl : i = i' := hinference'
  obtain rfl : u = u' := hshown
  obtain rfl : us = us' := hstatus'
  have hv : v.canon = v'.canon := hvalue'
  simp only [Schemas.PropertyResult.canon, hv]

/-- Outcomes with one canonical form are shown with one canonical form. -/
theorem shown_canon {r r' : Schemas.ExtractionOutcome} {o o' : ExtractionOutcome}
    (h : r.Shows optionalFloat o) (h' : r'.Shows optionalFloat o')
    (hprob : ∀ p ∈ o'.properties, Probability p.2.uncertainty.value) (hcanon : o.canon = o'.canon) :
    r.canon = r'.canon := by
  have hshown : ∀ {r : Schemas.ExtractionOutcome} {o : ExtractionOutcome}, r.Shows optionalFloat o →
      List.Forall₂ (ShowsProperty optionalFloat) o.properties r.properties := by
    intro r o h
    exact h.properties.imp fun _ _ hpq => ⟨hpq.1, hpq.2.1, hpq.2.2.1, hpq.2.2.2.1, hpq.2.2.2.2⟩
  have hkey : ∀ p q, ShowsProperty optionalFloat p q → p.1.text = q.1 := by
    intro p q hpq
    rw [hpq.name]
    rfl
  have hsorted := forall₂_orderBy (f := fun p => p.1.text) (g := Prod.fst) hkey (hshown h)
  have hsorted' := forall₂_orderBy (f := fun p => p.1.text) (g := Prod.fst) hkey (hshown h')
  have hproperties := map_congr_of_forall₂ (g := fun q => (q.1, q.2.canon)) hsorted hsorted'
    (fun p q p' q' hp' hpq hpq' heq => hpq.canon hpq' (hprob p' (mem_orderBy.1 hp')) heq)
    (congrArg ExtractionOutcome.properties hcanon)
  have hid : r.sourceId = r'.sourceId := by
    rw [h.sourceId, h'.sourceId]
    show o.canon.sourceId = o'.canon.sourceId
    rw [hcanon]
  have hstatus : r.status = r'.status := by
    rw [h.status, h'.status]
    show o.canon.status = o'.canon.status
    rw [hcanon]
  have herror : r.error = r'.error := by
    rw [h.error, h'.error]
    show o.canon.error = o'.canon.error
    rw [hcanon]
  obtain ⟨rid, rstatus, rproperties, rerror⟩ := r
  obtain ⟨rid', rstatus', rproperties', rerror'⟩ := r'
  obtain rfl : rid = rid' := hid
  obtain rfl : rstatus = rstatus' := hstatus
  obtain rfl : rerror = rerror' := herror
  simp only [Schemas.ExtractionOutcome.canon, hproperties]

end Shown

namespace System
variable {service : ExtractionTaskService} {s : System ℤ}

/-- An item of a finished task reports what its source gives. -/
theorem Reachable.report_canon (hjson : service.extractionService.JsonValued) (h : Reachable service s) {id : String}
    {sub : Submission ℤ} {a : Aggregate ℤ} (hsub : s.accepted id = some sub) (hv : s.db.view id = some a)
    (hterm : a.row.status.isTerminal = true) (hpurged : a.row.purgedAt = none) (hpersists : sub.Persists service) {n : ℕ}
    {source : SourceText} {i : ItemRow ℤ} {o o' : ExtractionOutcome} (hsource : sub.request.texts[n]? = some source)
    (hi : a.items[n]? = some i) (hreport : i.Reports o)
    (ho' : service.extractionService.processSourceWithModel source.id source.text sub.propertyNames sub.model =
      .ok o') : o.canon = o'.canon := by
  have hrec := (h.inv.holds hsub hv).items n source i hsource hi
  rw [hpurged] at hrec
  have hdone := (h.inv.aggregate hv).items_terminal hterm (List.mem_of_getElem? hi)
  cases hs : i.status with
  | completed => exact hrec.report_completed hjson hs hreport ho'
  | failed =>
    have hown := h.steady.own id sub a hsub hv hpurged (h.steady.unfailed id sub a hsub hpersists hv)
    obtain ⟨error, j, hown, hj, hej⟩ := hown n source i hsource hi hs
    exact congrArg _ (report_failed hown hj hej hs hrec.sourceId hreport ho')
  | queued | processing =>
    rw [hs] at hdone
    cases hdone

/-- The items of a finished task report what its sources give. -/
theorem Reachable.reports_canon (hjson : service.extractionService.JsonValued) (h : Reachable service s) {id : String}
    {sub : Submission ℤ} {a : Aggregate ℤ} (hsub : s.accepted id = some sub) (hv : s.db.view id = some a)
    (hterm : a.row.status.isTerminal = true) (hpurged : a.row.purgedAt = none) {outcomes reported : List ExtractionOutcome}
    (hsync : service.extractionService.processSources sub.propertyNames sub.model sub.request.texts = .ok outcomes)
    (hreports : List.Forall₂ ItemRow.Reports a.items reported) :
    reported.map ExtractionOutcome.canon = outcomes.map ExtractionOutcome.canon := by
  have hall := processSources_forall₂ hsync
  have hpersists : sub.Persists service := by
    intro source hsource
    obtain ⟨o, -, ho⟩ := exists_right_of_forall₂ hall hsource
    exact hjson.persistsItem ho
  have hlength : a.items.length = sub.request.texts.length := by
    rw [(h.inv.aggregate hv).length_items, (h.inv.holds hsub hv).accepted]
  refine List.ext_getElem (by simp [← hreports.length_eq, ← hall.length_eq, hlength]) fun n hn hn' => ?_
  rw [List.length_map] at hn hn'
  have hni : n < a.items.length := hreports.length_eq ▸ hn
  have hnt : n < sub.request.texts.length := hlength ▸ hni
  rw [List.getElem_map, List.getElem_map]
  exact h.report_canon hjson hsub hv hterm hpurged hpersists (List.getElem?_eq_getElem hnt)
    (List.getElem?_eq_getElem hni) (hreports.get hni hn) (hall.get hnt hn')

end System

/-! ### One body, two requests -/

namespace BatchInput.Normalizes
variable {m n : ℕ} {input : BatchInput} {batch : Batch m} {batch' : Batch n}

theorem texts_eq (h : input.Normalizes batch) (h' : input.Normalizes batch') : batch.texts = batch'.texts := by
  have hfields {k : ℕ} {b : Batch k} (hb : input.Normalizes b) :
      (input.texts.map fun source => (strip source.id, strip source.text)) =
        b.texts.map fun source => (source.id, source.text) :=
    Relational.map_eq_map_of_forall₂ (hb.texts.imp fun _ _ hs => by rw [hs.id, hs.text])
  have hinjective : Function.Injective fun source : SourceText => (source.id, source.text) := by
    rintro ⟨id, text, hid, htext⟩ ⟨id', text', hid', htext'⟩ heq
    obtain ⟨rfl, rfl⟩ := Prod.mk.inj heq
    rfl
  exact List.map_injective_iff.2 hinjective ((hfields h).symm.trans (hfields h'))

theorem propertyNames_eq (h : input.Normalizes batch) (h' : input.Normalizes batch') :
    batch.schema.propertyNames = batch'.schema.propertyNames := by
  rw [ExtractionSchema.propertyNames_eq, ExtractionSchema.propertyNames_eq, ← h.names, ← h'.names]

/-- The model a validated body selects. -/
theorem resolveModel (h : input.Normalizes batch) (service : ExtractionService) :
    service.resolveModel batch = service.modelCatalog.resolve (input.model.map fun model => strip model.name)
      (input.model.bind ModelSelectionInput.version) := by
  have hrel := h.model
  rw [ExtractionService.resolveModel]
  generalize input.model = model at hrel ⊢
  generalize batch.model = selection at hrel ⊢
  rcases hrel with hm | -
  · simp [hm.name, hm.version]
  · rfl

end BatchInput.Normalizes

namespace Application
variable {app : Application} {sub : Submission ℤ} {payload : BatchInput}

/-- The synchronous route answers the outcomes of the sources. -/
theorem createExtraction_answers (hconforms : app.Conforms) (hprints : app.taskService.extractionService.PrintsErrors)
    (hacc : payload.Acceptable app.taskService.extractionService.maxTexts
      app.taskService.extractionService.maxCharacters) (hlength : payload.texts.length ≤ 10)
    (hvalid : payload.validate 100 = .ok sub.request)
    (hmodel : app.taskService.extractionService.resolveModel sub.request = .ok sub.model) :
    ∃ outcomes answer,
      app.taskService.extractionService.processSources sub.propertyNames sub.model sub.request.texts = .ok outcomes ∧
      app.createExtraction payload = .ok { status := .ok, body := .extraction answer } ∧
      answer.executionMode = app.taskService.extractionService.inferenceProvider.executionMode ∧
      sub.model = ⟨.str answer.model.name, .str answer.model.version⟩ ∧
      List.Forall₂ (fun o r => Schemas.ExtractionOutcome.Shows app.optionalFloat r o) outcomes answer.outcomes := by
  obtain ⟨batch, hbatch, hlimits⟩ := exists_within_limits_iff.2 ⟨hacc, hlength⟩
  have hnorm := BatchInput.validate_eq_ok_iff.1 hbatch
  have hnorm' := BatchInput.validate_eq_ok_iff.1 hvalid
  obtain ⟨outcomes, houtcomes⟩ : ∃ outcomes, app.taskService.extractionService.processSources sub.propertyNames sub.model
      sub.request.texts = .ok outcomes := by
    exact processSources_ok fun source _ => hprints.processSource source.id source.text sub.propertyNames sub.model
  have hserializable : ∀ o ∈ outcomes, ∀ p ∈ o.properties, Serializable app.optionalFloat p := by
    intro o ho
    obtain ⟨source, -, hprocess⟩ := exists_right_of_forall₂ (processSources_forall₂ houtcomes).flip ho
    exact (hconforms.processed hprocess).2
  obtain ⟨responses, hresponses, hshown⟩ := outcomesField_ok hserializable
  obtain ⟨name, version, hcatalog⟩ := hconforms.catalog (sub.request.model.map ModelSelection.name)
    (sub.request.model.bind ModelSelection.version)
  have hsub : sub.model = ⟨.str name, .str version⟩ := Except.ok.inj (hmodel.symm.trans hcatalog)
  have hextract : app.taskService.extractionService.extract batch =
      .ok ⟨app.taskService.extractionService.inferenceProvider.executionMode, sub.model, outcomes⟩ := by
    unfold ExtractionService.extract ExtractionService.validateLimits
    rw [hlimits, hnorm.resolveModel, ← hnorm'.resolveModel, hmodel, hnorm.propertyNames_eq hnorm', hnorm.texts_eq hnorm']
    simp only [show app.taskService.extractionService.processSources sub.request.schema.propertyNames sub.model
      sub.request.texts = .ok outcomes from houtcomes]
  refine ⟨outcomes, ⟨app.taskService.extractionService.inferenceProvider.executionMode, ⟨name, version⟩, responses⟩,
    houtcomes, ?_, rfl, hsub, hshown⟩
  unfold createExtraction ExtractionService.createExtraction
  simp only [hbatch, hextract, Schemas.ExtractionResponse.validate, hresponses, hsub]
  rfl

/-- What the routes answer to one body, posted to `/extractions` at any time and to `/extraction-tasks` at `now`. -/
structure AgreementLaw (app : Application) (s : System ℤ) (now : ℤ) (credentials : Option HTTPAuthorizationCredentials)
    (principal : AuthenticatedPrincipal) (uuid : Uuid) (payload : BatchInput) (answer : Schemas.ExtractionResponse) :
    Prop where
  /-- The synchronous route answers without credentials, and stores nothing. -/
  extraction : ∀ credentials' fresh t db, app.respond credentials' (.createExtraction payload) fresh t db =
    ({ status := .ok, body := .extraction answer }, db)
  /-- Until it expires the task has no results, or has the outcomes of that answer. -/
  task : ∀ labels s' t, Run app.Step (app.serve credentials (.createExtractionTask payload) uuid now s) labels s' →
    (∀ l ∈ labels, ∀ time ∈ l.times, now ≤ time ∧ time ≤ t) → now ≤ t → t < app.taskService.retention + now →
    app.inRange (-app.taskService.tombstone +ᵥ t) = true →
    ∀ credentials' reader, app.getAuthenticatedPrincipal credentials' = .ok reader → reader.ownerId = principal.ownerId →
    ∀ fresh, ∃ a, s'.db.view uuid.text = some a ∧
      if a.row.status.isTerminal then
        ∃ results, (app.respond credentials' (.getExtractionTaskResults uuid.text) fresh t s'.db).1 =
            { status := .ok, body := .results results } ∧
          results.executionMode = answer.executionMode ∧ results.model = answer.model ∧
          results.outcomes.map Schemas.ExtractionOutcome.canon = answer.outcomes.map Schemas.ExtractionOutcome.canon
      else
        (app.respond credentials' (.getExtractionTaskResults uuid.text) fresh t s'.db).1 =
          { status := .conflict, body := .pending ⟨"Final task results are not yet available", a.row.status⟩ }

theorem respond_createExtraction {credentials : Option HTTPAuthorizationCredentials} {fresh : Uuid} {t : ℤ} {db : Db ℤ}
    {response : Response ℤ} (h : app.createExtraction payload = .ok response) :
    app.respond credentials (.createExtraction payload) fresh t db = (response, db) := by
  unfold respond handle
  simp only [h]

theorem resolvedModel_inj {m m' : Schemas.ResolvedModelReference}
    (h : (⟨.str m.name, .str m.version⟩ : ResolvedModelReference) = ⟨.str m'.name, .str m'.version⟩) : m = m' := by
  cases m
  cases m'
  cases h
  rfl

/-- The results of a live task against the answer of the synchronous route. -/
theorem results_of_answer {s : System ℤ} {a : Aggregate ℤ} {uuid : Uuid} {t : ℤ} {outcomes : List ExtractionOutcome}
    {results : Schemas.TaskResultsResponse ℤ} {answer : Schemas.ExtractionResponse} (hconforms : app.Conforms)
    (htombstone : 0 < app.taskService.tombstone) (hjson : app.taskService.extractionService.JsonValued)
    (hreachable : System.Reachable app.taskService s)
    (htimely : s.Timely app.taskService t) (hsub : s.accepted uuid.text = some sub) (hlive : t < sub.expiresAt)
    (hv : s.db.view uuid.text = some a) (hterm : a.row.status.isTerminal = true) (hshows : results.Shows app uuid a sub)
    (hsync : app.taskService.extractionService.processSources sub.propertyNames sub.model sub.request.texts =
      .ok outcomes)
    (hanswer : List.Forall₂ (fun o r => Schemas.ExtractionOutcome.Shows app.optionalFloat r o) outcomes answer.outcomes) :
    results.outcomes.map Schemas.ExtractionOutcome.canon = answer.outcomes.map Schemas.ExtractionOutcome.canon := by
  have hpurged : a.row.purgedAt = none := by
    rcases System.reads_cases hreachable.inv htimely hsub with ⟨-, a', hv', hpurged, -⟩ | ⟨hle, -⟩ | ⟨hle, -⟩
    · rw [hv] at hv'
      cases hv'
      exact hpurged
    · omega
    · omega
  obtain ⟨reported, hreports, hshown⟩ := hshows.outcomes
  refine map_congr_of_forall₂ hshown hanswer (fun o r o' r' ho' hr hr' heq => ?_)
    (hreachable.reports_canon hjson hsub hv hterm hpurged hsync hreports)
  obtain ⟨source, -, hprocess⟩ := exists_right_of_forall₂ (processSources_forall₂ hsync).flip ho'
  exact shown_canon hr hr' (hconforms.processed hprocess).1 heq

/-- Over every run of the API, a body within the limits of both routes is answered by both as `AgreementLaw` says. -/
theorem routes_agree (hconforms : app.Conforms) (htombstone : 0 < app.taskService.tombstone)
    (hprints : app.taskService.extractionService.PrintsErrors) (hjson : app.taskService.extractionService.JsonValued)
    {labels : List ApiLabel} {s : System ℤ} (h : Run app.Step System.init labels s) {now : ℤ}
    (htimes : ∀ l ∈ labels, ∀ time ∈ l.times, time ≤ now) {credentials : Option HTTPAuthorizationCredentials}
    {principal : AuthenticatedPrincipal} (hprincipal : app.getAuthenticatedPrincipal credentials = .ok principal)
    {uuid : Uuid} (hfresh : s.accepted uuid.text = none) (hacc : app.Accepts payload now)
    (hsync : payload.Acceptable app.taskService.extractionService.maxTexts
      app.taskService.extractionService.maxCharacters) (hlength : payload.texts.length ≤ 10) :
    ∃ answer, app.AgreementLaw s now credentials principal uuid payload answer := by
  have hinv : s.Inv app.taskService := (Run.reachable h htimes).1.inv
  obtain ⟨request, task, -, hvalid, hok, -, -⟩ :=
    create_accepted hconforms hinv.closed (hinv.view_eq_none hfresh) hprincipal hacc
  obtain ⟨sub, a, hsub, howner, rfl, hexpires, hview, -⟩ :=
    serve_of_accepts uuid hconforms hinv.closed hprincipal hvalid hacc.2.2 hok
  obtain ⟨hserved, -⟩ := later_of_served h htimes hfresh hsub hview (.nil _) (by simp) le_rfl
  obtain ⟨outcomes, answer, houtcomes, hanswer, hmode, hmodel, hshown⟩ :=
    createExtraction_answers hconforms hprints hsync hlength hvalid (hserved.resolved hsub)
  refine ⟨answer, fun credentials' fresh t db => respond_createExtraction hanswer, ?_⟩
  intro labels' s' t hrun' htimes' hle hlt hclock credentials' reader hreader hsame fresh
  obtain ⟨hreachable, htimely, hlater, -⟩ := later_of_served h htimes hfresh hsub hview hrun' htimes' hle
  have hlive : t < sub.expiresAt := by rw [hexpires]; exact hlt
  have hanswered := read_owned hconforms htombstone hreachable htimely hclock hreader (Uuid.parse_text _ uuid) hlater
    (howner.trans hsame.symm) fresh
  rw [Answered, show sub.phase app.taskService.tombstone t = .live from if_pos hlive] at hanswered
  obtain ⟨a', hv', -, hresults⟩ := hanswered
  refine ⟨a', hv', ?_⟩
  split at hresults
  · rename_i hterm
    rw [if_pos hterm]
    obtain ⟨results, hrespond, hshows⟩ := hresults
    refine ⟨results, hrespond, hshows.executionMode.trans hmode.symm, resolvedModel_inj (hshows.model.symm.trans hmodel),
      results_of_answer hconforms htombstone hjson hreachable htimely hlater hlive hv' hterm hshows houtcomes hshown⟩
  · rename_i hrun
    rw [if_neg hrun]
    exact hresults

/-- The state after two sources are submitted to the stub application that has served others, and a worker has
finished them. -/
def sampleAgreed : System ℤ :=
  let w := System.work (stubService []) "v" 3
  sampleServed.submit (stubService []) "00000000-0000-0000-0000-000000000003" "o" plainRequest 2
    |> w |> w |> w |> w |> w |> w |> w |> w |> w

/-- The results then read are those of the synchronous route. -/
theorem routes_agree_example : ∃ answer,
    stubApplication.AgreementLaw sampleServed 2 (some ⟨"bearer", "token"⟩) ⟨"o"⟩ ⟨3, by decide⟩ (plainBody 2) answer ∧
    Run stubApplication.Step
      (stubApplication.serve (some ⟨"bearer", "token"⟩) (.createExtractionTask (plainBody 2)) ⟨3, by decide⟩ 2 sampleServed)
      (List.replicate 9 (.work "v" 3)) sampleAgreed ∧
    ∃ results, (stubApplication.respond (some ⟨"bearer", "token"⟩)
        (.getExtractionTaskResults "00000000-0000-0000-0000-000000000003") ⟨4, by decide⟩ 9 sampleAgreed.db).1 =
        { status := .ok, body := .results results } ∧
      results.outcomes.map Schemas.ExtractionOutcome.canon = answer.outcomes.map Schemas.ExtractionOutcome.canon := by
  have htext : (⟨3, by decide⟩ : Uuid).text = "00000000-0000-0000-0000-000000000003" := by decide +kernel
  have htimes : ∀ l ∈ sampleLabels, ∀ time ∈ l.times, time ≤ 2 := by decide
  have hsync : (plainBody 2).Acceptable 10 1000 := plainBody_acceptable (by decide) (by decide) (by decide)
  have haccepts : stubApplication.Accepts (plainBody 2) 2 :=
    ⟨plainBody_acceptable (by decide) (by decide) (by decide), by decide, rfl⟩
  obtain ⟨answer, hanswer⟩ := routes_agree stubApplication_conforms (by decide) (stub_renders []).toPrintsErrors
    (System.stubService_jsonValued []) sample_served htimes stubApplication_principal.1 (by rw [htext]; rfl) haccepts
    hsync (by decide)
  have hserve := serve_of_submission (sample_submission.1 2) ⟨3, by decide⟩ sampleServed
  rw [htext] at hserve
  have hrun : Run stubApplication.Step
      (stubApplication.serve (some ⟨"bearer", "token"⟩) (.createExtractionTask (plainBody 2)) ⟨3, by decide⟩ 2 sampleServed)
      (List.replicate 9 (.work "v" 3)) sampleAgreed := by
    rw [hserve]
    exact .cons .work (.cons .work (.cons .work (.cons .work (.cons .work (.cons .work (.cons .work (.cons .work
      (.single .work))))))))
  obtain ⟨a, hv, hresults⟩ := hanswer.task _ _ 9 hrun (by decide) (by decide) (by decide) rfl _ _
    stubApplication_principal.1 rfl ⟨4, by decide⟩
  rw [htext] at hv hresults
  cases hv
  obtain ⟨results, hread, -, -, hsame⟩ := hresults
  exact ⟨answer, hanswer, hrun, results, hread, hsame⟩

end Application

end TextExtraction
