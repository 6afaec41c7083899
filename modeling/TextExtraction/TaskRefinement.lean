import TextExtraction.TaskSteady
import TextExtraction.TaskTornReads

/-!
# The workers compute what the synchronous pipeline computes

In a finished task that was not failed as a whole every item holds what its own source gave, and for
JSON values what is read back is what `process_source_with_model` returns
(`System.results_refine`): one outcome for each submitted text, in order, under every interleaving.
-/

namespace TextExtraction

open Python Relational Transition

variable {τ : Type}

/-! ### JSON values -/

/-- Provider and estimator give JSON values. -/
structure ExtractionService.JsonValued (service : ExtractionService) : Prop where
  infer : ∀ sourceId text names inferred name found,
    service.inferenceProvider.infer sourceId text names = .ok inferred →
    inferred name = .ok (some found) → found.value.IsJson
  estimate : ∀ sourceId name value result,
    service.uncertaintyEstimator.estimate sourceId name value = .ok result → result.value.IsJson

def PropertyResult.IsJson (result : PropertyResult) : Prop :=
  result.value.IsJson ∧ result.uncertainty.value.IsJson

/-- The property with its values in canonical form. -/
def PropertyResult.canon (result : PropertyResult) : PropertyResult :=
  { result with
    value := result.value.canon
    uncertainty := { result.uncertainty with value := result.uncertainty.value.canon } }

/-- The outcome with its dicts in order: outcomes that agree here are `==`. -/
def ExtractionOutcome.canon (o : ExtractionOutcome) : ExtractionOutcome :=
  { o with
    properties := (orderBy (fun p => p.1.text) o.properties).map fun p => (p.1, p.2.canon) }

theorem forall_setItem {α : Type} {P : α → Prop} {d : List (Key × α)} {k : Key} {v : α}
    (hd : ∀ kv ∈ d, P kv.2) (hv : P v) : ∀ kv ∈ setItem d k v, P kv.2 := by
  intro kv hkv
  rw [setItem] at hkv
  split at hkv
  · obtain ⟨kv', hkv', rfl⟩ := List.mem_map.1 hkv
    split
    · exact hv
    · exact hd kv' hkv'
  · rcases List.mem_append.1 hkv with hkv | hkv
    · exact hd kv hkv
    · rw [List.mem_singleton.1 hkv]; exact hv

section Json
variable {service : ExtractionService}

theorem ExtractionService.JsonValued.propertyResults (hjson : service.JsonValued) {sourceId : String}
    {inferred : Mapping} (hinferred : ∀ name found, inferred name = .ok (some found) → found.value.IsJson)
    {names : List Value} {built properties : List (Key × PropertyResult)}
    (hbuilt : ∀ p ∈ built, p.2.IsJson)
    (h : service.propertyResults sourceId inferred names built = .ok properties) :
    ∀ p ∈ properties, p.2.IsJson := by
  induction names generalizing built with
  | nil => cases h; exact hbuilt
  | cons name names ih =>
    rw [ExtractionService.propertyResults] at h
    obtain ⟨found, hf, h⟩ := bind_eq_ok_iff.1 h
    obtain ⟨result, hr, h⟩ := bind_eq_ok_iff.1 h
    obtain ⟨key, -, h⟩ := bind_eq_ok_iff.1 h
    have hvalue : (found.getD ⟨.none, .notFound⟩).value.IsJson := by
      cases found with
      | none => trivial
      | some value => exact hinferred name value hf
    have hresult : result.IsJson := by
      obtain ⟨u, hu, hpure⟩ := bind_eq_ok_iff.1 hr
      cases hpure
      exact ⟨hvalue, hjson.estimate _ _ _ _ hu⟩
    exact ih (forall_setItem hbuilt hresult) h

theorem ExtractionService.JsonValued.properties (hjson : service.JsonValued) {sourceId text : String}
    {names : List Value} {model : ResolvedModelReference} {o : ExtractionOutcome}
    (h : service.processSourceWithModel sourceId text names model = .ok o) :
    ∀ p ∈ o.properties, p.2.IsJson := by
  rcases ExtractionService.processSourceWithModel_cases h with ⟨properties, rfl, hp⟩ | ⟨failure, rfl⟩
  · obtain ⟨inferred, hi, hp⟩ := bind_eq_ok_iff.1 hp
    exact hjson.propertyResults (fun name found => hjson.infer _ _ _ _ name found hi) (by simp) hp
  · simp

end Json

theorem storable_of_isJson {v : Value} (h : v.IsJson) : Storable v := by
  obtain ⟨j, hj, -⟩ := loads_dumps v h
  exact ⟨loads j, v, j, asdictInner_of_isJson v h, hj, rfl⟩

theorem ExtractionService.JsonValued.persistsItem {service : ExtractionTaskService} {sub : Submission τ}
    (hjson : service.extractionService.JsonValued) {source : SourceText} {o : ExtractionOutcome}
    (ho : service.extractionService.processSourceWithModel source.id source.text sub.propertyNames
      sub.model = .ok o) : service.PersistsItem sub source :=
  persistsItem_of_storable ho fun p hp =>
    ⟨storable_of_isJson (hjson.properties ho p hp).1, storable_of_isJson (hjson.properties ho p hp).2⟩

/-! ### Reading back -/

theorem PropertyResult.Stored.unique {entry : Value} {r r' : PropertyResult}
    (h : PropertyResult.Stored entry r) (h' : PropertyResult.Stored entry r') : r = r' := by
  have hvalue : ∀ m m' : InferenceStatus, m.value = m'.value → m = m' := by
    intro m m' he
    cases m <;> cases m' <;> first | rfl | (simp [InferenceStatus.value] at he)
  have hstatus : ∀ m m' : UncertaintyStatus, m.value = m'.value → m = m' := by
    intro m m' he
    cases m <;> cases m' <;> first | rfl | (simp [UncertaintyStatus.value] at he)
  obtain ⟨v, st, ⟨u, us⟩⟩ := r
  obtain ⟨v', st', ⟨u', us'⟩⟩ := r'
  have hv := h.value.symm.trans h'.value
  have hs := h.inferenceStatus.symm.trans h'.inferenceStatus
  obtain ⟨d, hd, hdu, hds⟩ := h.uncertainty
  obtain ⟨d', hd', hdu', hds'⟩ := h'.uncertainty
  rw [hd] at hd'
  cases hd'
  have hu := hdu.symm.trans hdu'
  have ht := hds.symm.trans hds'
  simp only [Except.ok.injEq, Value.str.injEq] at hv hs hu ht
  rw [hv, hvalue _ _ hs, hu, hstatus _ _ ht]

/-- What a stored entry list stands for is determined by it. -/
theorem StoredItems.unique {items : List (Key × Value)} {ps ps' : List (Key × PropertyResult)}
    (h : StoredItems items ps) (h' : StoredItems items ps') : ps = ps' := by
  induction h generalizing ps' with
  | nil => cases h'; rfl
  | @cons kv p items ps hkv _ ih =>
    cases h' with
    | @cons _ p' _ ps' hkv' hrest =>
      obtain ⟨k, r⟩ := p
      obtain ⟨k', r'⟩ := p'
      have hk : k = k' := hkv.1.symm.trans hkv'.1
      have hr : r = r' := hkv.2.unique hkv'.2
      rw [ih hrest, hk, hr]

theorem ReadsBack.canon {v w : Value} (h : ReadsBack v w) (hjson : v.IsJson) : w = v.canon := by
  obtain ⟨x, j, hx, hj, rfl⟩ := h
  rw [asdictInner_of_isJson v hjson] at hx
  cases hx
  obtain ⟨j', hj', hload⟩ := loads_dumps v hjson
  rw [canonicalJson, hj'] at hj
  cases hj
  exact hload

theorem PropertyResult.ReadsBack.canon {r restored : PropertyResult} (h : r.ReadsBack restored)
    (hjson : r.IsJson) : restored = r.canon := by
  obtain ⟨v, st, ⟨u, us⟩⟩ := restored
  have hv : v = r.value.canon := h.value.canon hjson.1
  have hst : st = r.inferenceStatus := h.inferenceStatus
  have hu : u = r.uncertainty.value.canon := h.uncertainty.canon hjson.2
  have hus : us = r.uncertainty.status := h.status
  subst hv hst hu hus
  rfl

theorem readsBack_canon {ps restored : List (Key × PropertyResult)}
    (h : List.Forall₂ (fun p r => p.1 = r.1 ∧ p.2.ReadsBack r.2) ps restored)
    (hjson : ∀ p ∈ ps, p.2.IsJson) : restored = ps.map fun p => (p.1, p.2.canon) := by
  induction h with
  | nil => rfl
  | @cons p r ps restored hpr _ ih =>
    obtain ⟨k, r⟩ := r
    have hk : p.1 = k := hpr.1
    have hr : r = p.2.canon := hpr.2.canon (hjson p (by simp))
    rw [List.map_cons, ih fun p hp => hjson p (by simp [hp]), hk, hr]

theorem PropertyResult.canon_canon (r : PropertyResult) : r.canon.canon = r.canon := by
  simp only [PropertyResult.canon, Python.canon_canon]

/-- Sorting properties already sorted and canonical changes nothing. -/
theorem canonProperties_idem (ps : List (Key × PropertyResult)) :
    let sorted := (orderBy (fun p => p.1.text) ps).map fun p => (p.1, p.2.canon)
    (orderBy (fun p => p.1.text) sorted).map (fun p => (p.1, p.2.canon)) = sorted := by
  intro sorted
  have hsort : orderBy (fun p : Key × PropertyResult => p.1.text) sorted = sorted := by
    have hmap : orderBy (fun p : Key × PropertyResult => p.1.text) sorted =
        (orderBy (fun p => p.1.text) (orderBy (fun p => p.1.text) ps)).map
          fun p => (p.1, p.2.canon) := orderBy_map (fun _ => rfl) _
    rw [hmap, orderBy_orderBy]
  rw [hsort, List.map_map]
  refine List.map_congr_left fun p _ => ?_
  simp only [Function.comp_apply, PropertyResult.canon_canon]

section Report
variable {service : ExtractionTaskService} {sub : Submission τ} {source : SourceText} {i : ItemRow τ}
  {o o' : ExtractionOutcome}

theorem Recorded.report_completed (hrec : Recorded service sub false source i)
    (hjson : service.extractionService.JsonValued) (hs : i.status = .completed) (hreports : i.Reports o)
    (ho : service.extractionService.processSourceWithModel source.id source.text sub.propertyNames
      sub.model = .ok o') : o.canon = o'.canon := by
  obtain ⟨payload, j, hok, hj, hoj⟩ := hrec.completed hs rfl
  obtain ⟨properties, hprocess, hkeys, hpayload⟩ := payload_of_itemOutcome hok
  rw [hprocess] at ho
  have hproperties := hjson.properties hprocess
  cases ho
  obtain ⟨items, restored, hload, -, -, -, hstored, hback⟩ :=
    storedItems_of_dumps hkeys sub.names_nodup hpayload hj
  obtain ⟨hstatus, herror, j', items', hoj', hload', hstored'⟩ := hreports.completed hs
  rw [hoj] at hoj'
  cases hoj'
  rw [hload] at hload'
  cases hload'
  have hrestored : restored = (orderBy (fun p => p.1.text) properties).map fun p => (p.1, p.2.canon) :=
    readsBack_canon hback fun p hp => hproperties p (mem_orderBy.1 hp)
  have hsourceId := hreports.sourceId.trans hrec.sourceId
  obtain ⟨oid, ostatus, oproperties, oerror⟩ := o
  have hps : oproperties = restored := hstored'.unique hstored
  simp only at hstatus herror hsourceId
  subst hstatus herror hsourceId hps
  rw [ExtractionOutcome.canon, ExtractionOutcome.canon, hrestored, canonProperties_idem]

/-- A failed item with an error of its own reports what the source gives. -/
theorem report_failed {error : List (String × String)} {j : Json}
    (hok : service.itemOutcome sub source = .ok (none, some error))
    (hj : canonicalJson (strDict error) = .ok j) (hej : i.errorJson = some j) (hs : i.status = .failed)
    (hid : i.sourceId = source.id) (hreports : i.Reports o)
    (ho : service.extractionService.processSourceWithModel source.id source.text sub.propertyNames
      sub.model = .ok o') : o = o' := by
  obtain ⟨failure, hprocess, rfl⟩ := error_of_itemOutcome hok
  rw [hprocess] at ho
  cases ho
  obtain ⟨hstatus, hproperties, j', error', hej', hj', herror⟩ := hreports.failed hs
  rw [hej] at hej'
  cases hej'
  have hsame : failure = error' := asdict_injective hj hj'
  have hsourceId := hreports.sourceId.trans hid
  obtain ⟨oid, ostatus, oproperties, oerror⟩ := o
  simp only at hstatus hproperties herror hsourceId
  subst hstatus hproperties herror hsourceId hsame
  rfl

end Report

theorem processSources_forall₂ {service : ExtractionService} {names : List Value}
    {model : ResolvedModelReference} {texts : List SourceText} {outcomes : List ExtractionOutcome}
    (h : service.processSources names model texts = .ok outcomes) :
    List.Forall₂ (fun source o =>
      service.processSourceWithModel source.id source.text names model = .ok o) texts outcomes := by
  induction texts generalizing outcomes with
  | nil => cases h; exact .nil
  | cons source texts ih =>
    rw [ExtractionService.processSources] at h
    split at h
    · simp at h
    rename_i o ho
    split at h
    · simp at h
    rename_i rest hrest
    cases h
    exact .cons ho (ih hrest)

namespace System
variable [LinearOrder τ] [VAdd ℤ τ] {service : ExtractionTaskService} {s : System τ}

/-- Whatever the workers of an accepted task did, crashes and takeovers included: once it is finished
and until it expires, its owner reads the outcomes the synchronous pipeline computes. -/
theorem results_refine (hjson : service.extractionService.JsonValued) (h : Reachable service s)
    {id : String} {sub : Submission τ} {a : Aggregate τ} (hsub : s.accepted id = some sub)
    (hv : s.db.view id = some a) (hterm : a.row.status.isTerminal = true)
    (hpurged : a.row.purgedAt = none) {now : τ} (hnow : now < a.row.expiresAt)
    {outcomes : List ExtractionOutcome}
    (hsync : service.extractionService.processSources sub.propertyNames sub.model sub.request.texts =
      .ok outcomes) :
    ∃ results, (service.getResults sub.ownerId id now s.db).1 = .ok results ∧
      results.outcomes.map ExtractionOutcome.canon = outcomes.map ExtractionOutcome.canon := by
  have hinv := h.inv
  have ha := hinv.aggregate hv
  have hholds := hinv.holds hsub hv
  have hall := processSources_forall₂ hsync
  have hpersists : sub.Persists service := by
    intro source hsource
    obtain ⟨o, -, ho⟩ := exists_right_of_forall₂ hall hsource
    exact hjson.persistsItem ho
  have hown := h.steady.own id sub a hsub hv hpurged (h.steady.unfailed id sub a hsub hpersists hv)
  obtain ⟨results, hok, -, hreports⟩ := hholds.getResults_ok ha hv hpurged hterm hnow
  refine ⟨results, hok, ?_⟩
  -- outcome by outcome
  refine List.ext_getElem? fun n => ?_
  rw [List.getElem?_map, List.getElem?_map]
  have hlength : a.items.length = sub.request.texts.length := by
    rw [ha.length_items, hholds.accepted]
  rcases getElem?_of_forall₂ hall n with ⟨hsource, ho'⟩ | ⟨source, o', hsource, ho', hprocess⟩
  · have ho : results.outcomes[n]? = none := by
      rw [List.getElem?_eq_none_iff] at hsource ⊢
      rw [← hreports.length_eq]
      omega
    rw [ho, ho']
  · rcases getElem?_of_forall₂ hreports n with ⟨hi, -⟩ | ⟨i, o, hi, ho, hreport⟩
    · rw [List.getElem?_eq_none_iff, hlength, ← List.getElem?_eq_none_iff, hsource] at hi
      simp at hi
    have hrec := hholds.items n source i hsource hi
    rw [hpurged] at hrec
    rw [ho, ho', Option.map_some, Option.map_some]
    congr 1
    have hdone := ha.items_terminal hterm (List.mem_of_getElem? hi)
    cases hs : i.status with
    | completed => exact hrec.report_completed hjson hs hreport hprocess
    | failed =>
      obtain ⟨error, j, hown', hj, hej⟩ := hown n source i hsource hi hs
      exact congrArg _ (report_failed hown' hj hej hs hrec.sourceId hreport hprocess)
    | queued | processing => rw [hs] at hdone; simp at hdone

omit [LinearOrder τ] [VAdd ℤ τ] in
theorem stubService_jsonValued (failing : List String) :
    (stubService failing).extractionService.JsonValued := by
  constructor
  · intro sourceId text names inferred name found h hfound
    rcases stub_get h name with ⟨message, hget⟩ | hget | hget <;> cases hget.symm.trans hfound
    trivial
  · intro sourceId name value result h
    cases h
    trivial

/-- One worker of the stub service, for which the source `a` fails. -/
theorem results_refine_example :
    ∃ results outcomes, ((stubService ["a"]).getResults "o" "t" 9 sampleFinished.db).1 = .ok results ∧
      (stubService ["a"]).extractionService.processSources [.str "p"]
        ⟨.str "stub-extraction-provider", .str "stub"⟩ sampleRequest.texts = .ok outcomes ∧
      results.outcomes.map ExtractionOutcome.canon = outcomes.map ExtractionOutcome.canon ∧
      outcomes.map ExtractionOutcome.status = [.failed, .completed] := by
  have hsub : sampleFinished.accepted "t" =
      some ⟨"o", sampleRequest, ⟨.str "stub-extraction-provider", .str "stub"⟩, 10⟩ := rfl
  obtain ⟨results, hok, hsame⟩ := results_refine (stubService_jsonValued ["a"])
    reachable_sampleFinished hsub rfl rfl rfl (by decide : (9 : ℤ) < 10) rfl
  exact ⟨results, _, hok, rfl, hsame, rfl⟩

end System

end TextExtraction
