import TextExtraction.TaskSystem

/-!
# Restoring results

What `_restore_outcome` makes of an item row. `PropertyResult.Stored` and `ItemRow.Reports` say what
a stored property and a finished item mean, without the code that reads them; a row that records the
outcome of its source restores to the outcome it reports (`Recorded.restore`), and so do all rows of
a finished task (`Submission.Holds.taskResults_ok`).
-/

namespace TextExtraction

open Python Relational

variable {τ : Type}

/-- `result` is what the decoded entry `entry` says. -/
structure PropertyResult.Stored (entry : Value) (result : PropertyResult) : Prop where
  value : entry.getItem "value" = .ok result.value
  inferenceStatus : entry.getItem "inference_status" = .ok (.str result.inferenceStatus.value)
  uncertainty : ∃ u, entry.getItem "uncertainty" = .ok u ∧
    u.getItem "value" = .ok result.uncertainty.value ∧
    u.getItem "status" = .ok (.str result.uncertainty.status.value)

/-- The properties `properties` are the entries `items` of a decoded outcome, in order. -/
def StoredItems (items : List (Key × Value)) (properties : List (Key × PropertyResult)) : Prop :=
  List.Forall₂ (fun kv p => kv.1 = p.1 ∧ PropertyResult.Stored kv.2 p.2) items properties

/-- `outcome` is the one the finished item `i` has recorded. -/
structure ItemRow.Reports (i : ItemRow τ) (outcome : ExtractionOutcome) : Prop where
  sourceId : outcome.sourceId = i.sourceId
  completed : i.status = .completed → outcome.status = .completed ∧ outcome.error = none ∧
    ∃ j items, i.outcomeJson = some j ∧ loads j = .dict items ∧ StoredItems items outcome.properties
  failed : i.status = .failed → outcome.status = .failed ∧ outcome.properties = [] ∧
    ∃ j error, i.errorJson = some j ∧ canonicalJson (strDict error.asdict) = .ok j ∧
      outcome.error = some error

/-- `w` is what `v` reads back as after being copied, encoded and decoded. -/
def ReadsBack (v w : Value) : Prop :=
  ∃ x j, asdictInner v = .ok x ∧ canonicalJson x = .ok j ∧ w = loads j

/-- `restored` is `result` with its values read back. -/
structure PropertyResult.ReadsBack (result restored : PropertyResult) : Prop where
  value : TextExtraction.ReadsBack result.value restored.value
  inferenceStatus : restored.inferenceStatus = result.inferenceStatus
  uncertainty : TextExtraction.ReadsBack result.uncertainty.value restored.uncertainty.value
  status : restored.uncertainty.status = result.uncertainty.status

/-! ### One property -/

theorem PropertyResult.asdict_stored {result : PropertyResult} {v : Value} {j : Json}
    (h : result.asdict = .ok v) (hj : canonicalJson v = .ok j) :
    ∃ restored, result.ReadsBack restored ∧ PropertyResult.Stored (loads j) restored := by
  rw [PropertyResult.asdict] at h
  split at h
  · simp at h
  rename_i x hx
  split at h
  · simp at h
  rename_i u hu
  cases h
  have hstr : ∀ kv ∈ [(Key.str "value", x),
      (.str "inference_status", .str result.inferenceStatus.value),
      (.str "uncertainty", .dict [(.str "value", u), (.str "status", .str result.uncertainty.status.value)])],
      ∃ s, kv.1 = .str s := by simp
  obtain ⟨jx, hjx, hvalue⟩ := getItem_of_dumps hj hstr (by simp) (.head _)
  obtain ⟨js, hjs, hstatus⟩ := getItem_of_dumps hj hstr (by simp) (.tail _ (.head _))
  obtain ⟨jd, hjd, huncertainty⟩ := getItem_of_dumps hj hstr (by simp) (.tail _ (.tail _ (.head _)))
  obtain ⟨ju, hju, huvalue⟩ := getItem_of_dumps hjd (by simp) (by simp) (.head _)
  obtain ⟨jt, hjt, hustatus⟩ := getItem_of_dumps hjd (by simp) (by simp) (.tail _ (.head _))
  cases hjs
  cases hjt
  exact ⟨⟨loads jx, result.inferenceStatus, ⟨loads ju, result.uncertainty.status⟩⟩,
    ⟨⟨x, jx, hx, hjx, rfl⟩, rfl, ⟨u, ju, hu, hju, rfl⟩, rfl⟩,
    ⟨hvalue, hstatus, _, huncertainty, huvalue, hustatus⟩⟩

theorem restoreProperty_ok {entry : Value} {result : PropertyResult}
    (h : PropertyResult.Stored entry result) : restoreProperty entry = .ok result := by
  obtain ⟨u, hu, huvalue, hustatus⟩ := h.uncertainty
  unfold restoreProperty
  rw [hu, h.value, h.inferenceStatus]
  simp only [bind, Except.bind, InferenceStatus.ofValue_value, huvalue, hustatus,
    UncertaintyStatus.ofValue_value]
  rfl

/-- The restored dict has the entries of the stored one, in its order. -/
theorem restoreProperties_ok {items : List (Key × Value)} {properties : List (Key × PropertyResult)}
    (h : StoredItems items properties) (hitems : ∀ kv ∈ items, kv.1.isStr = true)
    (hnd : (items.map Prod.fst).Nodup) {built : List (Key × PropertyResult)}
    (hstr : ∀ kv ∈ built, kv.1.isStr = true) (hfresh : ∀ k ∈ items.map Prod.fst, k ∉ built.map Prod.fst) :
    restoreProperties items built = .ok (built ++ properties) := by
  induction h generalizing built with
  | nil => rw [List.append_nil]; rfl
  | @cons kv p items properties hkv _ ih =>
    obtain ⟨k, entry⟩ := kv
    obtain ⟨k', result⟩ := p
    obtain ⟨hk, hstored⟩ := hkv
    obtain rfl : k = k' := hk
    have hkstr : k.isStr = true := hitems (k, entry) (by simp)
    obtain ⟨s, rfl⟩ : ∃ s, k = .str s := by
      cases k with
      | str s => exact ⟨s, rfl⟩
      | _ => cases hkstr
    rw [List.map_cons, List.nodup_cons] at hnd
    have hset : setItem built (.str s) result = built ++ [(.str s, result)] :=
      setItem_of_fresh hstr (hfresh _ (by simp))
    rw [restoreProperties, restoreProperty_ok hstored]
    simp only [bind, Except.bind, hset]
    rw [ih (fun kv hkv => hitems kv (by simp [hkv])) hnd.2, List.append_assoc]
    · rfl
    · intro kv hkv
      rcases List.mem_append.1 hkv with hkv | hkv
      · exact hstr kv hkv
      · rw [List.mem_singleton.1 hkv]; rfl
    · intro k' hk' hmem
      rw [List.map_append, List.mem_append] at hmem
      rcases hmem with hmem | hmem
      · exact hfresh k' (by simp only [List.map_cons, List.mem_cons]; exact .inr hk') hmem
      · obtain rfl : k' = .str s := by simpa using hmem
        exact hnd.1 hk'

/-! ### What was persisted -/

theorem propertyResults_keys {service : ExtractionService} {sourceId : String} {inferred : Mapping}
    {names : List String} {built properties : List (Key × PropertyResult)} (hnd : names.Nodup)
    (hstr : ∀ kv ∈ built, kv.1.isStr = true) (hfresh : ∀ s ∈ names, Key.str s ∉ built.map Prod.fst)
    (h : service.propertyResults sourceId inferred (names.map .str) built = .ok properties) :
    properties.map Prod.fst = built.map Prod.fst ++ names.map .str := by
  induction names generalizing built with
  | nil => cases h; simp
  | cons name names ih =>
    obtain ⟨hname, hnames⟩ := List.nodup_cons.1 hnd
    rw [List.map_cons, ExtractionService.propertyResults] at h
    obtain ⟨found, -, h⟩ := bind_eq_ok_iff.1 h
    obtain ⟨result, -, h⟩ := bind_eq_ok_iff.1 h
    obtain ⟨key, hkey, h⟩ := bind_eq_ok_iff.1 h
    obtain rfl : Key.str name = key := Except.ok.inj hkey
    rw [setItem_of_fresh hstr (hfresh name (by simp))] at h
    have hkeys := ih hnames ?_ ?_ h
    · rw [hkeys]; simp
    · intro kv hkv
      rcases List.mem_append.1 hkv with hkv | hkv
      · exact hstr kv hkv
      · rw [List.mem_singleton.1 hkv]; rfl
    · intro s hs hmem
      rw [List.map_append, List.mem_append] at hmem
      rcases hmem with hmem | hmem
      · exact hfresh s (by simp [hs]) hmem
      · obtain rfl : s = name := by simpa using hmem
        exact hname hs

theorem isRequested_str {names : List String} {s : String} (hs : s ∈ names) :
    isRequested (names.map .str) (.str s) = true := by
  rw [isRequested, List.any_map, List.any_eq_true]
  exact ⟨s, hs, by simp [Value.toKey]⟩

theorem outcomePayload_forall₂ {names : List Value} {properties : List (Key × PropertyResult)}
    {payload : List (Key × Value)} (hall : ∀ p ∈ properties, isRequested names p.1 = true)
    (h : outcomePayload names properties = .ok payload) :
    List.Forall₂ (fun p kv => kv.1 = p.1 ∧ p.2.asdict = .ok kv.2) properties payload := by
  induction properties generalizing payload with
  | nil => cases h; exact .nil
  | cons p properties ih =>
    obtain ⟨name, result⟩ := p
    rw [outcomePayload, if_pos (hall (name, result) (by simp))] at h
    split at h
    · simp at h
    rename_i value hvalue
    split at h
    · simp at h
    rename_i payload' hpayload
    cases h
    exact .cons ⟨rfl, hvalue⟩ (ih (fun p hp => hall p (by simp [hp])) hpayload)

namespace Submission

/-- The requested names. -/
def names (sub : Submission τ) : List String := sub.request.schema.properties.map PropertyDefinition.name

theorem propertyNames_eq (sub : Submission τ) : sub.propertyNames = sub.names.map .str :=
  sub.request.schema.propertyNames_eq

theorem names_nodup (sub : Submission τ) : sub.names.Nodup := sub.request.schema.names_nodup

theorem names_ne (sub : Submission τ) : sub.names ≠ [] := by
  intro h
  exact sub.request.schema.properties_ne (List.map_eq_nil_iff.1 h)

end Submission

theorem isRequested_of_keys {names : List String} {properties : List (Key × PropertyResult)}
    (hkeys : properties.map Prod.fst = names.map .str) :
    ∀ p ∈ properties, isRequested (names.map .str) p.1 = true := by
  intro p hp
  have hmem : p.1 ∈ properties.map Prod.fst := List.mem_map_of_mem hp
  rw [hkeys] at hmem
  obtain ⟨s, hs, hps⟩ := List.mem_map.1 hmem
  rw [← hps]
  exact isRequested_str hs

/-- The outcome of a source: a result for every requested name, or an error. -/
theorem processSource_cases {service : ExtractionService} {sub : Submission τ} {source : SourceText}
    {o : ExtractionOutcome}
    (h : service.processSourceWithModel source.id source.text sub.propertyNames sub.model = .ok o) :
    (∃ properties, o = { sourceId := source.id, status := .completed, properties } ∧
      service.inferProperties source.id source.text sub.propertyNames = .ok properties ∧
      properties.map Prod.fst = sub.names.map .str) ∨
    ∃ failure, o = { sourceId := source.id, status := .failed, error := some failure } := by
  rcases ExtractionService.processSourceWithModel_cases h with ⟨properties, rfl, hp⟩ | hfailed
  · refine .inl ⟨properties, rfl, hp, ?_⟩
    obtain ⟨inferred, -, hp⟩ := bind_eq_ok_iff.1 hp
    rw [sub.propertyNames_eq] at hp
    exact propertyResults_keys sub.names_nodup (by simp) (by simp) hp
  · exact .inr hfailed

theorem itemOutcome_ok {service : ExtractionTaskService} {sub : Submission τ} {source : SourceText}
    {outcome : Option (List (Key × Value))} {error : Option (List (String × String))} :
    service.itemOutcome sub source = .ok (outcome, error) ↔
      ∃ o, service.extractionService.processSourceWithModel source.id source.text sub.propertyNames
        sub.model = .ok o ∧ finalizeArguments sub.propertyNames o = .ok (outcome, error) := by
  rw [ExtractionTaskService.itemOutcome, bind_eq_ok_iff]

/-- Where a persisted payload comes from: the properties of the source, encoded one by one. -/
theorem payload_of_itemOutcome {service : ExtractionTaskService} {sub : Submission τ}
    {source : SourceText} {payload : List (Key × Value)}
    (h : service.itemOutcome sub source = .ok (some payload, none)) :
    ∃ properties, service.extractionService.processSourceWithModel source.id source.text
        sub.propertyNames sub.model = .ok { sourceId := source.id, status := .completed, properties } ∧
      properties.map Prod.fst = sub.names.map .str ∧
      List.Forall₂ (fun p kv => kv.1 = p.1 ∧ p.2.asdict = .ok kv.2) properties payload := by
  obtain ⟨o, ho, hargs⟩ := itemOutcome_ok.1 h
  rcases processSource_cases ho with ⟨properties, rfl, -, hkeys⟩ | ⟨failure, rfl⟩
  · have hall := isRequested_of_keys hkeys
    rw [← sub.propertyNames_eq] at hall
    refine ⟨properties, ho, hkeys, outcomePayload_forall₂ hall ?_⟩
    rw [finalizeArguments] at hargs
    obtain ⟨payload', hp, hpair⟩ := map_eq_ok_iff.1 hargs
    cases hpair
    exact hp
  · cases hargs

theorem error_of_itemOutcome {service : ExtractionTaskService} {sub : Submission τ}
    {source : SourceText} {error : List (String × String)}
    (h : service.itemOutcome sub source = .ok (none, some error)) :
    ∃ failure, service.extractionService.processSourceWithModel source.id source.text
        sub.propertyNames sub.model =
          .ok { sourceId := source.id, status := .failed, error := some failure } ∧
      error = failure.asdict := by
  obtain ⟨o, ho, hargs⟩ := itemOutcome_ok.1 h
  rcases processSource_cases ho with ⟨properties, rfl, -, -⟩ | ⟨failure, rfl⟩
  · rw [finalizeArguments] at hargs
    cases hp : outcomePayload sub.propertyNames properties with
    | error e => simp only [hp] at hargs; cases hargs
    | ok payload' => simp only [hp] at hargs; cases hargs
  · cases hargs
    exact ⟨failure, ho, rfl⟩

/-- The decoded payload of string-keyed properties stores them, sorted by name and read back. -/
theorem storedItems_of_dumps {names : List String} {properties : List (Key × PropertyResult)}
    {payload : List (Key × Value)} {j : Json} (hkeys : properties.map Prod.fst = names.map .str)
    (hnd : names.Nodup)
    (h : List.Forall₂ (fun p kv => kv.1 = p.1 ∧ p.2.asdict = .ok kv.2) properties payload)
    (hj : canonicalJson (.dict payload) = .ok j) :
    ∃ items restored, loads j = .dict items ∧ (∀ kv ∈ items, kv.1.isStr = true) ∧
      (items.map Prod.fst).Nodup ∧ items.length = names.length ∧ StoredItems items restored ∧
      List.Forall₂ (fun p r => p.1 = r.1 ∧ p.2.ReadsBack r.2)
        (orderBy (fun p => p.1.text) properties) restored := by
  have hpayload : payload.map Prod.fst = names.map .str := by
    rw [← hkeys]
    clear hj hkeys
    induction h with
    | nil => rfl
    | cons hkv _ ih => rw [List.map_cons, List.map_cons, ih, hkv.1]
  have hstr : ∀ kv ∈ payload, ∃ s, kv.1 = .str s := by
    intro kv hkv
    have hmem : kv.1 ∈ payload.map Prod.fst := List.mem_map_of_mem hkv
    rw [hpayload] at hmem
    obtain ⟨s, -, hs⟩ := List.mem_map.1 hmem
    exact ⟨s, hs.symm⟩
  obtain ⟨js, henc, rfl⟩ := (dumps_dict_iff hstr).1 hj
  have hrestored : ∃ restored : List (Key × PropertyResult),
      List.Forall₂ (fun kj r => Key.str kj.1 = r.1 ∧ PropertyResult.Stored (loads kj.2) r.2) js restored ∧
      List.Forall₂ (fun p r => p.1 = r.1 ∧ p.2.ReadsBack r.2) properties restored := by
    clear hj hkeys hpayload hstr
    induction h generalizing js with
    | nil => cases henc; exact ⟨[], .nil, .nil⟩
    | @cons p kv properties payload hkv _ ih =>
      cases henc with
      | @cons _ kj _ js hkj hjs =>
        obtain ⟨restored, hstored, hback⟩ := ih js hjs
        obtain ⟨r, hr, hrstored⟩ := PropertyResult.asdict_stored hkv.2 hkj.2
        exact ⟨(p.1, r) :: restored, .cons ⟨hkj.1.symm.trans hkv.1, hrstored⟩ hstored,
          .cons ⟨rfl, hr⟩ hback⟩
  obtain ⟨restored, hstored, hback⟩ := hrestored
  have hnames : ((orderBy Prod.fst js).map Prod.fst).Nodup := by
    refine ((orderBy_perm Prod.fst js).map Prod.fst).nodup_iff.2 (henc.names_nodup ?_)
    rw [hpayload]
    exact hnd.map fun _ _ he => Key.str.inj he
  refine ⟨_, orderBy (fun r => r.1.text) restored, loads_obj hnames, ?_, ?_, ?_, ?_, ?_⟩
  · intro kv hkv
    obtain ⟨kj, -, rfl⟩ := List.mem_map.1 hkv
    rfl
  · rw [List.map_map]
    have hcomp : (Prod.fst ∘ fun kj : String × Json => (Key.str kj.1, loads kj.2)) = .str ∘ Prod.fst :=
      rfl
    rw [hcomp, ← List.map_map]
    exact hnames.map fun _ _ he => Key.str.inj he
  · have hlength := congrArg List.length hpayload
    rw [List.length_map, List.length_map] at hlength
    rw [List.length_map, (orderBy_perm Prod.fst js).length_eq, ← henc.length_eq, hlength]
  · unfold StoredItems
    rw [List.forall₂_map_left_iff]
    refine forall₂_orderBy (fun kj r hr => ?_) hstored
    rw [← hr.1]; rfl
  · refine forall₂_orderBy (fun p r hr => ?_) hback
    rw [hr.1]

/-! ### Items and tasks -/

theorem Recorded.restore_completed {service : ExtractionTaskService} {sub : Submission τ}
    {source : SourceText} {i : ItemRow τ} (h : Recorded service sub false source i)
    (hinv : i.Inv false) (hs : i.status = .completed) :
    ∃ o, restoreOutcome i.sourceId (decode i.outcomeJson) (decode i.errorJson) = .ok o ∧ i.Reports o := by
  obtain ⟨payload, j, hok, hj, hoj⟩ := h.completed hs rfl
  obtain ⟨properties, -, hkeys, hpayload⟩ := payload_of_itemOutcome hok
  obtain ⟨items, restored, hload, hstr, hnd, hlength, hstored, -⟩ :=
    storedItems_of_dumps hkeys sub.names_nodup hpayload hj
  have hne : items ≠ [] := by
    rintro rfl
    exact sub.names_ne (List.length_eq_zero_iff.1 hlength.symm)
  refine ⟨{ sourceId := i.sourceId, status := .completed, properties := restored }, ?_,
    ⟨rfl, fun _ => ⟨rfl, rfl, j, items, hoj, hload, hstored⟩, fun hf => ?_⟩⟩
  · have htruthy : (Value.dict items).truthy = true := by
      cases items with
      | nil => exact absurd rfl hne
      | cons _ _ => rfl
    have hrestore : restoreProperties items [] = .ok restored :=
      restoreProperties_ok hstored hstr hnd (by simp) (by simp)
    rw [hoj, (hinv.completed hs).1, decode_some, decode_none, hload]
    unfold restoreOutcome
    simp only [Value.isNone, if_true, htruthy, Value.dictItems, hrestore, bind, Except.bind]
    rfl
  · rw [hs] at hf; simp at hf

theorem strItem_of_asdict {error : ItemError} {j : Json} (h : canonicalJson (strDict error.asdict) = .ok j) :
    Value.strItem (loads j) "code" = .ok error.code ∧
      Value.strItem (loads j) "detail" = .ok error.detail ∧ (loads j).isNone = false := by
  obtain ⟨items, hitems⟩ := loads_of_dumps_dict h
  have hstr : ∀ kv ∈ error.asdict.map fun kv => (Key.str kv.1, Value.str kv.2), ∃ s, kv.1 = .str s := by
    intro kv hkv
    obtain ⟨e, -, rfl⟩ := List.mem_map.1 hkv
    exact ⟨_, rfl⟩
  have hnd : ((error.asdict.map fun kv => (Key.str kv.1, Value.str kv.2)).map Prod.fst).Nodup := by
    simp [ItemError.asdict]
  obtain ⟨jc, hjc, hcode⟩ := getItem_of_dumps h hstr hnd (.head _)
  obtain ⟨jd, hjd, hdetail⟩ := getItem_of_dumps h hstr hnd (.tail _ (.head _))
  cases hjc
  cases hjd
  refine ⟨?_, ?_, by rw [hitems]; rfl⟩
  · rw [Value.strItem, hcode]; rfl
  · rw [Value.strItem, hdetail]; rfl

theorem asdict_injective {error error' : ItemError} {j : Json}
    (h : canonicalJson (strDict error.asdict) = .ok j)
    (h' : canonicalJson (strDict error'.asdict) = .ok j) : error = error' := by
  obtain ⟨hcode, hdetail, -⟩ := strItem_of_asdict h
  obtain ⟨hcode', hdetail', -⟩ := strItem_of_asdict h'
  have hc := hcode.symm.trans hcode'
  have hd := hdetail.symm.trans hdetail'
  simp only [Except.ok.injEq] at hc hd
  obtain ⟨c, d⟩ := error
  obtain ⟨c', d'⟩ := error'
  simp only at hc hd
  rw [hc, hd]

/-- The error of a failed item, whether its own or the task's, is an item error. -/
theorem Recorded.failed_asdict {service : ExtractionTaskService} {sub : Submission τ}
    {source : SourceText} {i : ItemRow τ} (h : Recorded service sub false source i)
    (hs : i.status = .failed) : ∃ (error : ItemError) (j : Json),
      canonicalJson (strDict error.asdict) = .ok j ∧ i.errorJson = some j := by
  obtain ⟨error, j, hj, hej, hwhy⟩ := h.failed hs rfl
  rcases hwhy with hok | ⟨detail, rfl⟩
  · obtain ⟨failure, -, rfl⟩ := error_of_itemOutcome hok
    exact ⟨failure, j, hj, hej⟩
  · exact ⟨⟨"task_processing_failed", detail⟩, j, hj, hej⟩

theorem Recorded.restore_failed {service : ExtractionTaskService} {sub : Submission τ}
    {source : SourceText} {i : ItemRow τ} (h : Recorded service sub false source i)
    (hs : i.status = .failed) :
    ∃ o, restoreOutcome i.sourceId (decode i.outcomeJson) (decode i.errorJson) = .ok o ∧ i.Reports o := by
  obtain ⟨error, j, hj, hej⟩ := h.failed_asdict hs
  obtain ⟨hcode, hdetail, hnone⟩ := strItem_of_asdict hj
  refine ⟨{ sourceId := i.sourceId, status := .failed, error := some error }, ?_,
    ⟨rfl, fun hc => ?_, fun _ => ⟨rfl, rfl, j, error, hej, hj, rfl⟩⟩⟩
  · rw [hej, decode_some]
    unfold restoreOutcome
    simp only [hnone, Bool.false_eq_true, if_false, hcode, hdetail, bind, Except.bind]
    rfl
  · rw [hs] at hc; simp at hc

theorem restoreOutcomes_ok {items : List (ItemRow τ)}
    (h : ∀ i ∈ items, ∃ o,
      restoreOutcome i.sourceId (decode i.outcomeJson) (decode i.errorJson) = .ok o ∧ i.Reports o) :
    ∃ outcomes, restoreOutcomes (items.map itemFromRow) = .ok outcomes ∧
      List.Forall₂ ItemRow.Reports items outcomes := by
  induction items with
  | nil => exact ⟨[], rfl, .nil⟩
  | cons i items ih =>
    obtain ⟨o, ho, hreports⟩ := h i (by simp)
    obtain ⟨outcomes, houtcomes, hall⟩ := ih fun j hj => h j (by simp [hj])
    refine ⟨o :: outcomes, ?_, .cons hreports hall⟩
    rw [List.map_cons, restoreOutcomes]
    show (do let outcome ← restoreOutcome i.sourceId (decode i.outcomeJson) (decode i.errorJson); _) = _
    rw [ho, houtcomes]
    rfl

theorem Aggregate.Inv.items_terminal {a : Aggregate τ} (h : a.Inv) (hterm : a.row.status.isTerminal = true)
    {i : ItemRow τ} (hi : i ∈ a.items) : i.status.isTerminal = true := by
  have hall := h.terminal.1 hterm
  have htotal := a.count_total
  rw [h.length_items, ← hall, h.processed, h.successful, h.failed] at htotal
  have hzero : a.items.countP (fun i => i.status.isPending) = 0 := by omega
  have hpending := List.countP_eq_zero.1 hzero i hi
  rw [ExtractionTaskItemStatus.isPending_eq_not] at hpending
  simpa using hpending

namespace Submission.Holds
variable {service : ExtractionTaskService} {sub : Submission τ} {a : Aggregate τ}

theorem restore (h : sub.Holds service a) (hinv : a.Inv) (hpurged : a.row.purgedAt = none)
    {i : ItemRow τ} (hi : i ∈ a.items) (hterm : i.status.isTerminal = true) :
    ∃ o, restoreOutcome i.sourceId (decode i.outcomeJson) (decode i.errorJson) = .ok o ∧ i.Reports o := by
  obtain ⟨n, source, -, -, hrec⟩ := h.recorded hinv hpurged hi
  have hitem := hinv.items i hi
  rw [hpurged] at hitem
  cases hs : i.status with
  | completed => exact hrec.restore_completed hitem hs
  | failed => exact hrec.restore_failed hs
  | queued | processing => rw [hs] at hterm; simp at hterm

/-- What is read off the model snapshot never fails; the outcomes decide. -/
theorem taskResults_eq (h : sub.Holds service a) (hpurged : a.row.purgedAt = none)
    (items : List (ExtractionTaskItemRecord τ)) :
    ∃ model, taskResults (a.row.record true) items = (restoreOutcomes items).map fun outcomes =>
      { task := a.row.record true
        executionMode := service.extractionService.inferenceProvider.executionMode
        model, outcomes } := by
  obtain ⟨mj, hmodel, hmj⟩ := h.model hpurged
  have hstr : ∀ kv ∈ service.modelSnapshot sub.model, ∃ s, kv.1 = .str s := by
    simp [ExtractionTaskService.modelSnapshot]
  have hnd : ((service.modelSnapshot sub.model).map Prod.fst).Nodup := by
    simp [ExtractionTaskService.modelSnapshot]
  obtain ⟨jn, -, hname⟩ := getItem_of_dumps hmj hstr hnd (.head _)
  obtain ⟨jv, -, hversion⟩ := getItem_of_dumps hmj hstr hnd (.tail _ (.head _))
  obtain ⟨jm, hjm, hmode⟩ := getItem_of_dumps hmj hstr hnd (.tail _ (.tail _ (.head _)))
  cases hjm
  have hrm : (a.row.record true).model = loads mj := by simp [TaskRow.record, hmodel]
  refine ⟨⟨loads jn, loads jv⟩, ?_⟩
  unfold taskResults
  rw [hrm, hname, hversion, hmode]
  simp only [bind, Except.bind]
  cases restoreOutcomes items with
  | error e => rfl
  | ok outcomes =>
    have hvalue : ExecutionMode.ofValue
        (loads (.str service.extractionService.inferenceProvider.executionMode.value)) =
          .ok service.extractionService.inferenceProvider.executionMode := by
      rw [loads, ExecutionMode.ofValue_value]
    simp only [hvalue]
    rfl

/-- The results of a finished task: one outcome an item, as recorded. -/
theorem taskResults_ok (h : sub.Holds service a) (hinv : a.Inv) (hpurged : a.row.purgedAt = none)
    (hterm : a.row.status.isTerminal = true) :
    ∃ results, taskResults (a.row.record true) (a.items.map itemFromRow) = .ok results ∧
      results.task = a.row.record true ∧ List.Forall₂ ItemRow.Reports a.items results.outcomes := by
  obtain ⟨outcomes, houtcomes, hall⟩ := restoreOutcomes_ok fun i hi =>
    h.restore hinv hpurged hi (hinv.items_terminal hterm hi)
  obtain ⟨model, hresults⟩ := h.taskResults_eq hpurged (a.items.map itemFromRow)
  rw [houtcomes] at hresults
  exact ⟨_, hresults, rfl, hall⟩

/-- The owner's read of an unpurged task. -/
theorem readResults_eq (h : sub.Holds service a) (hinv : a.Inv) {db : Db τ} {id : String}
    (hv : db.view id = some a) (hpurged : a.row.purgedAt = none) (later : Db τ) :
    ExtractionTaskService.readResults sub.ownerId id db later =
      if a.row.status.isTerminal then
        match taskResults (a.row.record true) ((later.itemRows id).map itemFromRow) with
        | .error e => .error (.raised e)
        | .ok results => .ok results
      else .error (.resultsPending a.row.status.value) := by
  obtain ⟨mj, hmodel, hmj⟩ := h.model hpurged
  obtain ⟨items, hitems⟩ := loads_of_dumps_dict hmj
  have hmodelNone : (a.row.record true).model.isNone = false := by
    simp [TaskRow.record, hmodel, hitems, Value.isNone]
  rw [readResults_of_view hinv hv, if_pos h.ownerId, hpurged, hmodelNone]
  cases a.row.status.isTerminal <;> rfl

/-- Until it expires, the owner reads the results of a finished task. -/
theorem getResults_ok [LinearOrder τ] [VAdd ℤ τ] (h : sub.Holds service a) (hinv : a.Inv) {db : Db τ}
    {id : String} (hv : db.view id = some a) (hpurged : a.row.purgedAt = none)
    (hterm : a.row.status.isTerminal = true) {now : τ} (hnow : now < a.row.expiresAt) :
    ∃ results, (service.getResults sub.ownerId id now db).1 = .ok results ∧
      results.task = a.row.record true ∧ List.Forall₂ ItemRow.Reports a.items results.outcomes := by
  have hv' := view_maintainRetention_of_live service hv hpurged hnow
  obtain ⟨results, hok, htask, hreports⟩ := h.taskResults_ok hinv hpurged hterm
  refine ⟨results, ?_, htask, hreports⟩
  show ExtractionTaskService.readResults sub.ownerId id (service.maintainRetention now db)
    (service.maintainRetention now db) = .ok results
  rw [h.readResults_eq hinv hv' hpurged, if_pos hterm, (Db.view_eq_some.1 hv').2, hok]

end Submission.Holds

/-- Results are only ever read of a finished task that has not expired. -/
theorem finished_of_getResults [LinearOrder τ] [VAdd ℤ τ] {service : ExtractionTaskService} {db : Db τ}
    (hinv : ∀ id a, db.view id = some a → a.Inv) {ownerId id : String} {now : τ}
    {results : TaskResultsRecord τ} (h : (service.getResults ownerId id now db).1 = .ok results) :
    ∃ a, db.view id = some a ∧ a.row.purgedAt = none ∧ a.row.status.isTerminal = true ∧
      now < a.row.expiresAt := by
  have hread : ExtractionTaskService.readResults ownerId id (service.maintainRetention now db)
    (service.maintainRetention now db) = .ok results := h
  cases hv' : (service.maintainRetention now db).view id with
  | none => rw [readResults_of_none hv'] at hread; simp at hread
  | some b =>
    have hbind := view_maintainRetention service now db id
    rw [hv'] at hbind
    obtain ⟨a, hv, hmaintain⟩ := Option.bind_eq_some_iff.1 hbind.symm
    rcases (Aggregate.maintain_eq_some.1 hmaintain).1 with ⟨hlive, rfl⟩ | ⟨hexpired, rfl⟩
    · rw [readResults_of_view (hinv id b hv) hv'] at hread
      split at hread
      · split at hread
        · simp at hread
        rename_i hpurged
        split at hread
        · simp at hread
        rename_i hterm
        have hnone : b.row.purgedAt = none := by simpa using hpurged
        refine ⟨b, hv, hnone, by simpa using hterm, ?_⟩
        rw [← not_le]
        intro hle
        rw [TaskRow.expired_iff.2 ⟨hle, hnone⟩] at hlive
        simp at hlive
      · simp at hread
    · rw [readResults_of_view ((hinv id a hv).step (.purge hexpired)) hv'] at hread
      split at hread
      · rw [if_pos (show (a.purge now).row.purgedAt.isSome = true from rfl)] at hread
        simp at hread
      · simp at hread

end TextExtraction
