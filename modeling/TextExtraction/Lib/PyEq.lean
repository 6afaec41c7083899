import TextExtraction.Lib.PyJson

/-!
# `==` on Python values, and what JSON gives back

`Value.eq` compares values as containers compare their elements: two objects are equal if they are one
object or `==` says so, which only a NaN can tell apart. `eq_loads_iff`: a value that is written with
sorted keys and read again compares equal to what is read if and only if it is `Plain`. Whatever is
read from a document is (`plain_loads`). `exists_dumps_sorted_iff` compares what can be written with and
without sorted keys.
-/

open Relational

namespace Python

/-! ### Equality -/

theorem Key.same_self (k : Key) : k.same k = true := by
  unfold Key.same
  split
  · rename_i hk hk'
    rw [hk, Option.some.injEq] at hk'
    simp [hk']
  · simp

theorem Key.same_str_iff {k : Key} {s : String} : k.same (.str s) = true ↔ k = .str s := by
  cases k <;> simp [Key.same, Key.rank]

/-- A scalar, as the dict key it would be: `1`, `1.0` and `True` are equal. -/
def Value.atom : Value → Option Key
  | .none => some .none
  | .bool b => some (.bool b)
  | .int i => some (.int i)
  | .float f => some (.float f)
  | .str s => some (.str s)
  | _ => Option.none

/-- The scalar `k` against any value; `shared` says whether two NaNs are one object. -/
def Key.eqValue (shared : Bool) (k : Key) (w : Value) : Bool :=
  (k != .float .nan || shared) && w.atom.any k.same

mutual

/-- `v is w or v == w`, of scalars, lists, tuples and dicts; `shared` says whether all the NaNs of `v`
are the object that the NaNs of `w` are. -/
def Value.eq (shared : Bool) : Value → Value → Bool
  | .none, w => Key.none.eqValue shared w
  | .bool b, w => (Key.bool b).eqValue shared w
  | .int i, w => (Key.int i).eqValue shared w
  | .float f, w => (Key.float f).eqValue shared w
  | .str s, w => (Key.str s).eqValue shared w
  | .list xs, .list ys => eqList shared xs ys
  | .tuple xs, .tuple ys => eqList shared xs ys
  | .dict kvs, .dict kws => kvs.length = kws.length && eqItems shared kvs kws
  | _, _ => false

def eqList (shared : Bool) : List Value → List Value → Bool
  | [], [] => true
  | x :: xs, y :: ys => x.eq shared y && eqList shared xs ys
  | _, _ => false

/-- Each item of the first dict is found, with an equal value, in the second. -/
def eqItems (shared : Bool) : List (Key × Value) → List (Key × Value) → Bool
  | [], _ => true
  | (k, x) :: kvs, kws =>
    (match kws.find? fun kw => k.same kw.1 with
      | some kw => x.eq shared kw.2
      | none => false) && eqItems shared kvs kws

end

/-- The order of the items of a dict does not count. -/
example : (Value.dict [(.str "a", .int 1), (.str "b", .none)]).eq false
    (.dict [(.str "b", .none), (.str "a", .int 1)]) = true := rfl

/-! ### What is read -/

theorem keys_setItem {α : Type} (d : List (Key × α)) (k : Key) (v : α) :
    (setItem d k v).map Prod.fst =
      if d.any fun kv => kv.1.same k then d.map Prod.fst else d.map Prod.fst ++ [k] := by
  unfold setItem
  split
  · rw [List.map_map]
    refine List.map_congr_left fun kv _ => ?_
    show (if kv.1.same k then (kv.1, v) else kv).1 = kv.1
    split <;> rfl
  · simp

theorem nodup_setItem {α : Type} {d : List (Key × α)} (hnd : (d.map Prod.fst).Nodup) (k : Key) (v : α) :
    ((setItem d k v).map Prod.fst).Nodup := by
  rw [keys_setItem]
  split
  · exact hnd
  · rename_i hany
    refine List.Nodup.append hnd (List.nodup_singleton k) ?_
    rw [List.disjoint_singleton]
    intro hmem
    obtain ⟨kv, hkv, rfl⟩ := List.mem_map.1 hmem
    exact hany (List.any_eq_true.2 ⟨kv, hkv, kv.1.same_self⟩)

/-- What holds of the dict built so far and is kept by each item holds of the dict that is read. -/
theorem loadsItems_induction {P : List (Key × Value) → Prop} {js : List (String × Json)}
    {built : List (Key × Value)} (h : P built)
    (hset : ∀ d, P d → ∀ kj ∈ js, P (setItem d (.str kj.1) (loads kj.2))) : P (loadsItems js built) := by
  induction js generalizing built with
  | nil => exact h
  | cons kj js ih =>
    rw [loadsItems]
    exact ih (hset built h kj (by simp)) fun d hd kj' hkj' => hset d hd kj' (by simp [hkj'])

theorem nodup_loadsItems (js : List (String × Json)) : ((loadsItems js []).map Prod.fst).Nodup :=
  loadsItems_induction (P := fun d => (d.map Prod.fst).Nodup) .nil fun _ hd _ _ => nodup_setItem hd _ _

theorem names_loadsItems (js : List (String × Json)) :
    ∀ kv ∈ loadsItems js [], ∃ kj ∈ js, kv.1 = .str kj.1 := by
  refine loadsItems_induction (P := fun d => ∀ kv ∈ d, ∃ kj ∈ js, kv.1 = .str kj.1) (by simp) ?_
  intro d hd kj hkj kv hkv
  rcases mem_setItem hkv with hkv | ⟨hkey | hkey, -⟩
  · exact hd kv hkv
  · exact ⟨kj, hkj, hkey⟩
  · obtain ⟨kv', hkv', heq⟩ := List.mem_map.1 hkey
    rw [← heq]
    exact hd kv' hkv'

theorem plainItems_iff {nan : Bool} {kvs : List (Key × Value)} :
    PlainItems nan kvs ↔ ∀ kv ∈ kvs, kv.1.isStr = true ∧ kv.2.Plain nan := by
  induction kvs with
  | nil => simp [PlainItems]
  | cons kv kvs ih => simp [PlainItems, ih, and_assoc]

mutual

/-- Whatever is read is plain, NaN included. -/
theorem plain_loads : ∀ j : Json, (loads j).Plain true
  | .null | .bool _ | .int _ | .str _ => by simp [loads, Value.Plain]
  | .float _ => by simp [loads, Value.Plain]
  | .arr js => by
    rw [loads, Value.Plain]
    exact plain_loadsList js
  | .obj js => by
    rw [loads, Value.Plain]
    refine ⟨nodup_loadsItems js, plainItems_iff.2 ?_⟩
    refine loadsItems_induction (P := fun d => ∀ kv ∈ d, kv.1.isStr = true ∧ kv.2.Plain true) (by simp) ?_
    intro d hd kj hkj kv hkv
    rcases mem_setItem hkv with hkv | ⟨hkey, hvalue⟩
    · exact hd kv hkv
    · rw [hvalue]
      refine ⟨?_, plain_loads_items js kj hkj⟩
      rcases hkey with hkey | hkey
      · rw [hkey]
        rfl
      · obtain ⟨kv', hkv', heq⟩ := List.mem_map.1 hkey
        rw [← heq]
        exact (hd kv' hkv').1

theorem plain_loadsList : ∀ js : List Json, PlainList true (loadsList js)
  | [] => trivial
  | j :: js => ⟨plain_loads j, plain_loadsList js⟩

theorem plain_loads_items : ∀ js : List (String × Json), ∀ kj ∈ js, (loads kj.2).Plain true
  | [], _, h => by simp at h
  | (k, j) :: js, kj, h => by
    rcases List.mem_cons.1 h with rfl | h
    · exact plain_loads j
    · exact plain_loads_items js kj h

end

/-! ### Writing and reading again -/

theorem eqValue_atom {shared : Bool} {k : Key} {v : Value} (hv : v.atom = some k) :
    k.eqValue shared v = true ↔ shared = true ∨ k ≠ .float .nan := by
  simp [Key.eqValue, hv, Key.same_self, or_comm]

/-- A dict whose items are found in one that was read has string keys. -/
theorem strings_of_eqItems {shared : Bool} {kvs kws : List (Key × Value)} (h : eqItems shared kvs kws = true)
    (hkws : ∀ kw ∈ kws, ∃ s, kw.1 = .str s) : ∀ kv ∈ kvs, ∃ s, kv.1 = .str s := by
  induction kvs with
  | nil => simp
  | cons kv kvs ih =>
    rw [eqItems, Bool.and_eq_true] at h
    obtain ⟨hfirst, hrest⟩ := h
    intro kv' hkv'
    rcases List.mem_cons.1 hkv' with rfl | hkv'
    · split at hfirst
      · rename_i kw hfind
        obtain ⟨s, hs⟩ := hkws kw (List.mem_of_find?_eq_some hfind)
        have hsame := List.find?_some hfind
        simp only [hs] at hsame
        exact ⟨s, Key.same_str_iff.1 hsame⟩
      · simp at hfirst
    · exact ih hrest kv' hkv'

theorem strings_of_plainItems {nan : Bool} {kvs : List (Key × Value)} (h : PlainItems nan kvs) :
    ∀ kv ∈ kvs, ∃ s, kv.1 = .str s := by
  intro kv hkv
  have hstr := (plainItems_iff.1 h kv hkv).1
  cases hk : kv.1 with
  | str s => exact ⟨s, rfl⟩
  | _ => rw [hk] at hstr; simp [Key.isStr] at hstr

/-- Reading loses no item exactly when no name is repeated. -/
theorem length_loadsItems_iff (js : List (String × Json)) :
    (loadsItems js []).length = js.length ↔ (js.map Prod.fst).Nodup := by
  constructor
  · intro hlen
    have hsub : (loadsItems js []).map Prod.fst ⊆ js.map fun kj => Key.str kj.1 := by
      intro k hk
      obtain ⟨kv, hkv, rfl⟩ := List.mem_map.1 hk
      obtain ⟨kj, hkj, heq⟩ := names_loadsItems js kv hkv
      exact List.mem_map.2 ⟨kj, hkj, heq.symm⟩
    have hperm := (List.subperm_of_subset (nodup_loadsItems js) hsub).perm_of_length_le (by simp [hlen])
    have hnames := hperm.nodup_iff.1 (nodup_loadsItems js)
    refine List.Nodup.of_map Key.str ?_
    rwa [List.map_map]
  · intro hnd
    rw [loadsItems_of_nodup js [] hnd (by simp)]
    simp

theorem Encodes.length {b : Bool} {kvs : List (Key × Value)} {js : List (String × Json)} (h : Encodes b kvs js) :
    kvs.length = js.length :=
  List.Forall₂.length_eq h

theorem Encodes.nodup_iff {b : Bool} {kvs : List (Key × Value)} {js : List (String × Json)}
    (h : Encodes b kvs js) : (kvs.map Prod.fst).Nodup ↔ (js.map Prod.fst).Nodup := by
  refine ⟨h.names_nodup, fun hnd => ?_⟩
  have hkeys : kvs.map Prod.fst = (js.map Prod.fst).map Key.str := by
    rw [h.keys, List.map_map]
    rfl
  rw [hkeys]
  exact hnd.map fun _ _ => Key.str.inj

mutual

/-- Of what can be written, exactly the plain values come back equal. -/
theorem eq_loads_iff (shared : Bool) : ∀ (v : Value) (j : Json), dumps true v = .ok j →
    (v.eq shared (loads j) = true ↔ v.Plain shared)
  | .none, j, h => by
    obtain rfl : Json.null = j := Except.ok.inj h
    simp [loads, Value.eq, Value.Plain, eqValue_atom (v := Value.none) rfl]
  | .bool b, j, h => by
    obtain rfl : Json.bool b = j := Except.ok.inj h
    simp [loads, Value.eq, Value.Plain, eqValue_atom (v := Value.bool b) rfl]
  | .int i, j, h => by
    obtain rfl : Json.int i = j := Except.ok.inj h
    simp [loads, Value.eq, Value.Plain, eqValue_atom (v := Value.int i) rfl]
  | .float f, j, h => by
    obtain rfl : Json.float f = j := Except.ok.inj h
    simp [loads, Value.eq, Value.Plain, eqValue_atom (v := Value.float f) rfl]
  | .str s, j, h => by
    obtain rfl : Json.str s = j := Except.ok.inj h
    simp [loads, Value.eq, Value.Plain, eqValue_atom (v := Value.str s) rfl]
  | .list xs, j, h => by
    rw [dumps, map_eq_ok_iff] at h
    obtain ⟨js, hjs, rfl⟩ := h
    rw [loads, Value.eq, Value.Plain]
    exact eqList_loadsList_iff shared xs js hjs
  | .tuple xs, j, h => by
    rw [dumps, map_eq_ok_iff] at h
    obtain ⟨js, -, rfl⟩ := h
    simp [loads, Value.eq, Value.Plain]
  | .dict kvs, j, h => by
    by_cases hstr : ∀ kv ∈ kvs, ∃ s, kv.1 = .str s
    · obtain ⟨js, henc, rfl⟩ := (dumps_dict_iff hstr).1 h
      have hlength : kvs.length = (orderBy Prod.fst js).length :=
        henc.length.trans (orderBy_perm Prod.fst js).length_eq.symm
      have hnodup : (kvs.map Prod.fst).Nodup ↔ ((orderBy Prod.fst js).map Prod.fst).Nodup :=
        henc.nodup_iff.trans ((orderBy_perm Prod.fst js).map Prod.fst).nodup_iff.symm
      rw [loads, Value.eq, Value.Plain, Bool.and_eq_true, decide_eq_true_eq, hlength, eq_comm,
        length_loadsItems_iff, hnodup]
      refine and_congr_right fun hnd => ?_
      refine eqItems_loads_iff shared kvs js henc _ fun kj hkj => ?_
      rw [loadsItems_of_nodup _ [] hnd (by simp), List.nil_append]
      refine find?_names hnd (mem_orderBy.2 hkj) fun s => ?_
      rw [Key.same_str]
      exact decide_eq_decide.2 eq_comm
    · obtain ⟨items, hitems⟩ := loads_of_dumps_dict h
      have hplain := plain_loads j
      rw [hitems, Value.Plain] at hplain
      rw [hitems, Value.eq, Value.Plain, Bool.and_eq_true]
      exact iff_of_false (fun heq => hstr (strings_of_eqItems heq.2 (strings_of_plainItems hplain.2)))
        fun hkvs => hstr (strings_of_plainItems hkvs.2)
  | .dataclass _, j, h => by simp [dumps] at h
  | .object _ _, j, h => by simp [dumps] at h

theorem eqList_loadsList_iff (shared : Bool) : ∀ (xs : List Value) (js : List Json), dumpsList true xs = .ok js →
    (eqList shared xs (loadsList js) = true ↔ PlainList shared xs)
  | [], js, h => by
    obtain rfl : [] = js := Except.ok.inj h
    simp [loadsList, eqList, PlainList]
  | x :: xs, js, h => by
    rw [dumpsList] at h
    split at h
    · rename_i j js' hj hjs
      obtain rfl : j :: js' = js := Except.ok.inj h
      rw [loadsList, eqList, PlainList, Bool.and_eq_true, eq_loads_iff shared x j hj,
        eqList_loadsList_iff shared xs js' hjs]
    · simp at h
    · simp at h

theorem eqItems_loads_iff (shared : Bool) : ∀ (kvs : List (Key × Value)) (js : List (String × Json)),
    Encodes true kvs js → ∀ kws : List (Key × Value),
      (∀ kj ∈ js, kws.find? (fun kw => (Key.str kj.1).same kw.1) = some (.str kj.1, loads kj.2)) →
      (eqItems shared kvs kws = true ↔ PlainItems shared kvs)
  | [], _, _, _, _ => by simp [eqItems, PlainItems]
  | (k, x) :: kvs, _, .cons (b := (s, j)) hkj henc, kws, hfind => by
    obtain ⟨rfl, hj⟩ := hkj
    have hfirst := hfind (s, j) (by simp)
    rw [eqItems, PlainItems, Bool.and_eq_true, eqItems_loads_iff shared kvs _ henc kws
      fun kj hkj => hfind kj (by simp [hkj])]
    simp only at hfirst
    rw [hfirst]
    simp [eq_loads_iff shared x j hj, Key.isStr]

end

/-! ### Sorted keys and others -/

mutual

/-- In each dict the keys compare. -/
def Value.Sortable : Value → Prop
  | .list xs => SortableList xs
  | .tuple xs => SortableList xs
  | .dict items => Comparable (items.map Prod.fst) ∧ SortableItems items
  | _ => True

def SortableList : List Value → Prop
  | [] => True
  | x :: xs => x.Sortable ∧ SortableList xs

def SortableItems : List (Key × Value) → Prop
  | [] => True
  | (_, x) :: xs => x.Sortable ∧ SortableItems xs

end

theorem exists_dumpsList_cons_iff {b : Bool} {x : Value} {xs : List Value} :
    (∃ js, dumpsList b (x :: xs) = .ok js) ↔ (∃ j, dumps b x = .ok j) ∧ ∃ js, dumpsList b xs = .ok js := by
  rw [dumpsList]
  rcases dumps b x with e | j <;> rcases dumpsList b xs with e' | js <;> simp

mutual

/-- What can be written can be written with sorted keys if and only if its keys compare. -/
theorem exists_dumps_sorted_iff : ∀ v : Value,
    (∃ j, dumps true v = .ok j) ↔ v.Sortable ∧ ∃ j, dumps false v = .ok j
  | .none | .bool _ | .int _ | .float _ | .str _ | .dataclass _ | .object _ _ => by simp [dumps, Value.Sortable]
  | .list xs => by
    have hxs := exists_dumpsList_sorted_iff xs
    simpa [dumps, map_eq_ok_iff, Value.Sortable] using hxs
  | .tuple xs => by
    have hxs := exists_dumpsList_sorted_iff xs
    simpa [dumps, map_eq_ok_iff, Value.Sortable] using hxs
  | .dict kvs => by
    rw [exists_dumps_dict_iff, exists_dumps_dict_iff, Value.Sortable, forall₂_and, forall₂_and,
      dumpsItems_sorted_iff kvs]
    constructor
    · rintro ⟨hkeys, hnames, hsort, hvalues⟩
      exact ⟨⟨hkeys rfl, hsort⟩, by simp, hnames, hvalues⟩
    · rintro ⟨⟨hkeys, hsort⟩, -, hnames, hvalues⟩
      exact ⟨fun _ => hkeys, hnames, hsort, hvalues⟩

theorem exists_dumpsList_sorted_iff : ∀ xs : List Value,
    (∃ js, dumpsList true xs = .ok js) ↔ SortableList xs ∧ ∃ js, dumpsList false xs = .ok js
  | [] => by simp [dumpsList, SortableList]
  | x :: xs => by
    rw [exists_dumpsList_cons_iff, exists_dumpsList_cons_iff, SortableList, exists_dumps_sorted_iff x,
      exists_dumpsList_sorted_iff xs]
    exact and_and_and_comm

theorem dumpsItems_sorted_iff : ∀ kvs : List (Key × Value),
    (∀ kv ∈ kvs, ∃ j, dumps true kv.2 = .ok j) ↔ SortableItems kvs ∧ ∀ kv ∈ kvs, ∃ j, dumps false kv.2 = .ok j
  | [] => by simp [SortableItems]
  | (k, x) :: kvs => by
    rw [List.forall_mem_cons, List.forall_mem_cons, SortableItems, exists_dumps_sorted_iff x,
      dumpsItems_sorted_iff kvs]
    exact and_and_and_comm

end

end Python
