import TextExtraction.Lib.PyValue
import TextExtraction.Lib.Table

/-!
# `json.dumps` and `json.loads`

JSON texts are kept as documents (`Json`): a text and the document it spells carry the same
information, and nothing reads a stored text except `loads`. `dumps` follows the encoder: with
`sort_keys` the items are sorted first (mixed keys do not compare), then each key is turned into
text and each value is encoded, in order. `loads` builds dicts from left to right, so a repeated
name keeps its last value.

`loads_dumps` is the round trip on JSON values (string keys, no tuple, no NaN), up to the order of
dict keys, which Python's `==` ignores, and `loads_dumps_of_plain` the same with NaN admitted;
`exists_dumps_dict_iff` says which dicts can be written; `dumps_dict_iff` and `getItem_loads` read one
dict level of any encodable value.
-/

namespace Python

open Relational

inductive Json
  | null
  | bool (b : Bool)
  | int (i : ℤ)
  | float (f : PyFloat)
  | str (s : String)
  | arr (xs : List Json)
  | obj (items : List (String × Json))

instance : Inhabited Json := ⟨.null⟩

/-! ### Encoding -/

def PyFloat.text : PyFloat → String
  | .finite repr => repr
  | .inf => "Infinity"
  | .negInf => "-Infinity"
  | .nan => "NaN"

/-- The name a dict key gets in the document. -/
def Key.name : Key → Except Exc String
  | .none => .ok "null"
  | .bool b => .ok (if b then "true" else "false")
  | .int i => .ok (toString i)
  | .float f => .ok f.text
  | .str s => .ok s
  | .other type =>
    .error (.raised .typeError ("keys must be str, int, float, bool or None, not " ++ type))

/-- `sorted(d.items())`: keys compare among strings and among numbers only. -/
def sortItems {α : Type} (items : List (Key × α)) : Except Exc (List (Key × α)) :=
  if items.length ≤ 1 then .ok items
  else if items.all fun kv => kv.1.isStr then .ok (orderBy (fun kv => kv.1.text) items)
  else if items.all fun kv => kv.1.rank.isSome then
    .ok (orderBy (fun kv => kv.1.rank.getD (toLex (0, 0))) items)
  else .error (.raised .typeError "'<' not supported between instances of the dict's keys")

/-- Names the keys and collects the encoded values, stopping at the first failure. -/
def collect : List (Key × Except Exc Json) → Except Exc (List (String × Json))
  | [] => .ok []
  | (k, j) :: rest =>
    match k.name, j, collect rest with
    | .ok s, .ok j, .ok js => .ok ((s, j) :: js)
    | .error e, _, _ => .error e
    | _, .error e, _ => .error e
    | _, _, .error e => .error e

mutual

/-- `json.dumps(v, sort_keys=sortKeys)`. -/
def dumps (sortKeys : Bool) : Value → Except Exc Json
  | .none => .ok .null
  | .bool b => .ok (.bool b)
  | .int i => .ok (.int i)
  | .float f => .ok (.float f)
  | .str s => .ok (.str s)
  | .list xs => (dumpsList sortKeys xs).map .arr
  | .tuple xs => (dumpsList sortKeys xs).map .arr
  | .dict items =>
    match if sortKeys then sortItems (dumpsItems sortKeys items) else .ok (dumpsItems sortKeys items) with
    | .ok encoded => (collect encoded).map .obj
    | .error e => .error e
  | .dataclass _ => .error (.raised .typeError "Object of type dataclass is not JSON serializable")
  | .object _ refusal => .error refusal

def dumpsList (sortKeys : Bool) : List Value → Except Exc (List Json)
  | [] => .ok []
  | x :: xs =>
    match dumps sortKeys x, dumpsList sortKeys xs with
    | .ok j, .ok js => .ok (j :: js)
    | .error e, _ => .error e
    | _, .error e => .error e

def dumpsItems (sortKeys : Bool) : List (Key × Value) → List (Key × Except Exc Json)
  | [] => []
  | (k, x) :: xs => (k, dumps sortKeys x) :: dumpsItems sortKeys xs

end

/-! ### Decoding -/

mutual

/-- `json.loads`. -/
def loads : Json → Value
  | .null => .none
  | .bool b => .bool b
  | .int i => .int i
  | .float f => .float f
  | .str s => .str s
  | .arr xs => .list (loadsList xs)
  | .obj items => .dict (loadsItems items [])

def loadsList : List Json → List Value
  | [] => []
  | x :: xs => loads x :: loadsList xs

/-- Fills the dict `built` with the remaining items. -/
def loadsItems : List (String × Json) → List (Key × Value) → List (Key × Value)
  | [], built => built
  | (k, x) :: xs, built => loadsItems xs (setItem built (.str k) (loads x))

end

/-! ### One dict level -/

theorem dumpsItems_eq_map (b : Bool) (items : List (Key × Value)) :
    dumpsItems b items = items.map fun kv => (kv.1, dumps b kv.2) := by
  induction items with
  | nil => rfl
  | cons kv items ih => simp [dumpsItems, ih]

theorem loadsList_eq_map (xs : List Json) : loadsList xs = xs.map loads := by
  induction xs with
  | nil => rfl
  | cons x xs ih => simp [loadsList, ih]

theorem loadsItems_of_nodup (items : List (String × Json)) (built : List (Key × Value))
    (hnd : (items.map Prod.fst).Nodup)
    (hb : ∀ kv ∈ built, ∃ s, kv.1 = .str s ∧ s ∉ items.map Prod.fst) :
    loadsItems items built = built ++ items.map fun kj => (.str kj.1, loads kj.2) := by
  induction items generalizing built with
  | nil => simp [loadsItems]
  | cons kj items ih =>
    obtain ⟨k, j⟩ := kj
    rw [List.map_cons, List.nodup_cons] at hnd
    have hstr : ∀ kv ∈ built, kv.1.isStr = true := by
      intro kv hkv
      obtain ⟨s, hs, -⟩ := hb kv hkv
      rw [hs]; rfl
    have hfresh : Key.str k ∉ built.map Prod.fst := by
      intro hmem
      obtain ⟨kv, hkv, hk⟩ := List.mem_map.1 hmem
      obtain ⟨s, hs, hnot⟩ := hb kv hkv
      rw [hk, Key.str.injEq] at hs
      exact hnot (by simp [hs])
    rw [loadsItems, setItem_of_fresh hstr hfresh, ih _ hnd.2 ?_, List.append_assoc]
    · rfl
    · intro kv hkv
      rcases List.mem_append.1 hkv with hkv | hkv
      · obtain ⟨s, hs, hmem⟩ := hb kv hkv
        exact ⟨s, hs, fun h => hmem (by simp [h])⟩
      · rw [List.mem_singleton] at hkv
        exact ⟨k, by rw [hkv], hnd.1⟩

theorem loads_obj {items : List (String × Json)} (hnd : (items.map Prod.fst).Nodup) :
    loads (.obj items) = .dict (items.map fun kj => (.str kj.1, loads kj.2)) := by
  rw [loads, loadsItems_of_nodup items [] hnd (by simp), List.nil_append]

/-- The items `kvs` of a string-keyed dict are encoded as `js`, entry by entry. -/
def Encodes (b : Bool) (kvs : List (Key × Value)) (js : List (String × Json)) : Prop :=
  List.Forall₂ (fun kv kj => kv.1 = .str kj.1 ∧ dumps b kv.2 = .ok kj.2) kvs js

namespace Encodes

variable {b : Bool} {kvs : List (Key × Value)} {js : List (String × Json)}

theorem dumpsItems (h : Encodes b kvs js) :
    dumpsItems b kvs = js.map fun kj => (.str kj.1, .ok kj.2) := by
  induction h with
  | nil => rfl
  | cons h _ ih => simp only [Python.dumpsItems, ih, List.map_cons, h.1, h.2]

theorem keys (h : Encodes b kvs js) : kvs.map Prod.fst = js.map fun kj => .str kj.1 := by
  induction h with
  | nil => rfl
  | cons h _ ih => simp only [List.map_cons, ih, h.1]

theorem names_nodup (h : Encodes b kvs js) (hnd : (kvs.map Prod.fst).Nodup) :
    (js.map Prod.fst).Nodup := by
  rw [h.keys] at hnd
  refine List.Nodup.of_map Key.str ?_
  rwa [List.map_map]

theorem mem (h : Encodes b kvs js) {k : String} {v : Value} (hkv : (.str k, v) ∈ kvs) :
    ∃ j, (k, j) ∈ js ∧ dumps b v = .ok j := by
  induction h with
  | nil => cases hkv
  | @cons kv kj _ _ h _ ih =>
    rcases List.mem_cons.1 hkv with rfl | hkv
    · obtain ⟨k', j⟩ := kj
      obtain ⟨hk, hj⟩ := h
      cases hk
      exact ⟨j, by simp, hj⟩
    · obtain ⟨j, hj, hd⟩ := ih hkv
      exact ⟨j, List.mem_cons_of_mem _ hj, hd⟩

theorem of_forall (hstr : ∀ kv ∈ kvs, ∃ s, kv.1 = .str s) (h : ∀ kv ∈ kvs, ∃ j, dumps b kv.2 = .ok j) :
    ∃ js, Encodes b kvs js := by
  induction kvs with
  | nil => exact ⟨[], .nil⟩
  | cons kv kvs ih =>
    obtain ⟨s, hs⟩ := hstr kv (by simp)
    obtain ⟨j, hj⟩ := h kv (by simp)
    obtain ⟨js, hjs⟩ := ih (fun kv hkv => hstr kv (by simp [hkv])) fun kv hkv => h kv (by simp [hkv])
    exact ⟨(s, j) :: js, .cons ⟨hs, hj⟩ hjs⟩

end Encodes

theorem collect_ok (js : List (String × Json)) :
    collect (js.map fun kj => (.str kj.1, .ok kj.2)) = .ok js := by
  induction js with
  | nil => rfl
  | cons kj js ih => simp only [List.map_cons, collect, Key.name, ih]

theorem of_collect_ok {l : List (Key × Except Exc Json)} {js : List (String × Json)}
    (h : collect l = .ok js) : ∀ kj ∈ l, (∃ s, kj.1.name = .ok s) ∧ ∃ j, kj.2 = .ok j := by
  induction l generalizing js with
  | nil => simp
  | cons kj l ih =>
    simp only [collect] at h
    split at h <;> cases h
    rename_i hname hvalue hc
    intro kj' hkj'
    rcases List.mem_cons.1 hkj' with rfl | hkj'
    · exact ⟨⟨_, hname⟩, _, hvalue⟩
    · exact ih hc kj' hkj'

/-- `collect` fails at the name of a key or at a value. -/
theorem of_collect_error {l : List (Key × Except Exc Json)} {e : Exc} (h : collect l = .error e) :
    ∃ kj ∈ l, kj.1.name = .error e ∨ kj.2 = .error e := by
  induction l with
  | nil => cases h
  | cons kj l ih =>
    obtain ⟨k, j⟩ := kj
    unfold collect at h
    split at h
    · simp at h
    · cases h
      exact ⟨_, List.mem_cons_self, .inl (by assumption)⟩
    · cases h
      exact ⟨_, List.mem_cons_self, .inr rfl⟩
    · cases h
      obtain ⟨kj', hmem, herror⟩ := ih (by assumption)
      exact ⟨kj', List.mem_cons_of_mem _ hmem, herror⟩

theorem exists_collect_iff {l : List (Key × Except Exc Json)} :
    (∃ js, collect l = .ok js) ↔ ∀ kj ∈ l, (∃ s, kj.1.name = .ok s) ∧ ∃ j, kj.2 = .ok j := by
  refine ⟨fun ⟨js, hjs⟩ => of_collect_ok hjs, fun h => ?_⟩
  rcases hc : collect l with e | js
  · obtain ⟨kj, hmem, herror⟩ := of_collect_error hc
    obtain ⟨⟨s, hs⟩, j, hj⟩ := h kj hmem
    simp [hs, hj] at herror
  · exact ⟨js, rfl⟩

theorem mem_sortItems {α : Type} {items sorted : List (Key × α)} (h : sortItems items = .ok sorted)
    {kv : Key × α} : kv ∈ sorted ↔ kv ∈ items := by
  unfold sortItems at h
  split at h
  · cases h
    exact Iff.rfl
  · split at h
    · cases h
      exact mem_orderBy
    · split at h
      · cases h
        exact mem_orderBy
      · simp at h

/-- The keys compare with each other: strings, or numbers, or at most one key. -/
def Comparable (keys : List Key) : Prop :=
  keys.length ≤ 1 ∨ (∀ k ∈ keys, k.isStr = true) ∨ ∀ k ∈ keys, k.rank.isSome = true

theorem exists_sortItems_iff {α : Type} {items : List (Key × α)} :
    (∃ sorted, sortItems items = .ok sorted) ↔ Comparable (items.map Prod.fst) := by
  unfold sortItems Comparable
  rw [List.length_map, List.forall_mem_map, List.forall_mem_map]
  split
  · rename_i hlength
    exact iff_of_true ⟨_, rfl⟩ (.inl hlength)
  · rename_i hlength
    split
    · rename_i hstr
      exact iff_of_true ⟨_, rfl⟩ (.inr (.inl (List.all_eq_true.1 hstr)))
    · rename_i hstr
      split
      · rename_i hrank
        exact iff_of_true ⟨_, rfl⟩ (.inr (.inr (List.all_eq_true.1 hrank)))
      · rename_i hrank
        rw [List.all_eq_true] at hstr hrank
        exact iff_of_false (by simp) (by rintro (h | h | h) <;> contradiction)

/-- A dict can be written if every key has a name and every value can be written; to be sorted, its keys
have to compare too. -/
theorem exists_dumps_dict_iff {b : Bool} {kvs : List (Key × Value)} : (∃ j, dumps b (.dict kvs) = .ok j) ↔
    (b = true → Comparable (kvs.map Prod.fst)) ∧
      ∀ kv ∈ kvs, (∃ s, kv.1.name = .ok s) ∧ ∃ j, dumps b kv.2 = .ok j := by
  have hkeys : (dumpsItems b kvs).map Prod.fst = kvs.map Prod.fst := by
    rw [dumpsItems_eq_map, List.map_map]
    rfl
  have hcollect {encoded : List (Key × Except Exc Json)} (hmem : ∀ kj, kj ∈ encoded ↔ kj ∈ dumpsItems b kvs) :
      (∃ j, (collect encoded).map Json.obj = .ok j) ↔
        ∀ kv ∈ kvs, (∃ s, kv.1.name = .ok s) ∧ ∃ j, dumps b kv.2 = .ok j := by
    have hitems : (∀ kj ∈ dumpsItems b kvs, (∃ s, kj.1.name = .ok s) ∧ ∃ j, kj.2 = .ok j) ↔
        ∀ kv ∈ kvs, (∃ s, kv.1.name = .ok s) ∧ ∃ j, dumps b kv.2 = .ok j := by
      rw [dumpsItems_eq_map, List.forall_mem_map]
    simp only [← hitems, ← hmem, ← exists_collect_iff, map_eq_ok_iff]
    exact ⟨fun ⟨_, js, hjs, _⟩ => ⟨js, hjs⟩, fun ⟨js, hjs⟩ => ⟨_, js, hjs, rfl⟩⟩
  rw [dumps]
  cases b with
  | false => simpa using hcollect fun _ => Iff.rfl
  | true =>
    rw [if_pos rfl, ← hkeys, ← exists_sortItems_iff, forall_prop_of_true rfl]
    rcases hsort : sortItems (dumpsItems true kvs) with e | sorted
    · exact iff_of_false (by simp) (by simp)
    · simpa using hcollect fun _ => mem_sortItems hsort

/-- Encoding a dict fails with a text of the encoder's, or as one of the values does. -/
theorem of_dumps_dict_error {kvs : List (Key × Value)} {e : Exc} (h : dumps true (.dict kvs) = .error e) :
    (∃ message, e = .raised .typeError message) ∨ ∃ kv ∈ kvs, dumps true kv.2 = .error e := by
  rw [dumps, if_pos rfl, dumpsItems_eq_map] at h
  split at h
  · rename_i sorted hsorted
    cases hc : collect sorted with
    | ok js => rw [hc] at h; cases h
    | error e' =>
      rw [hc] at h
      cases h
      obtain ⟨kj, hmem, herror⟩ := of_collect_error hc
      obtain ⟨kv, hkv, rfl⟩ := List.mem_map.1 ((mem_sortItems hsorted).1 hmem)
      rcases herror with hname | hvalue
      · left
        unfold Key.name at hname
        split at hname <;> cases hname
        exact ⟨_, rfl⟩
      · exact .inr ⟨kv, hkv, hvalue⟩
  · rename_i e' hsorted
    cases h
    left
    unfold sortItems at hsorted
    split at hsorted
    · simp at hsorted
    · split at hsorted
      · simp at hsorted
      · split at hsorted
        · simp at hsorted
        · cases hsorted
          exact ⟨_, rfl⟩

theorem sortItems_str {js : List (String × Json)} :
    sortItems (js.map fun kj => ((Key.str kj.1, .ok kj.2) : Key × Except Exc Json)) =
      .ok ((orderBy Prod.fst js).map fun kj => (.str kj.1, .ok kj.2)) := by
  rw [sortItems]
  have hall : (js.map fun kj => ((Key.str kj.1, .ok kj.2) : Key × Except Exc Json)).all
      (fun kv => kv.1.isStr) = true := by
    simp [Key.isStr]
  by_cases hlen : js.length ≤ 1
  · rw [if_pos (by simpa using hlen), orderBy_of_pairwise]
    match js, hlen with
    | [], _ => exact .nil
    | [_], _ => exact List.pairwise_singleton _ _
  · rw [if_neg (by simpa using hlen), if_pos hall, orderBy_map (f := Prod.fst)]
    exact fun _ => rfl

theorem dumps_dict {kvs : List (Key × Value)} {js : List (String × Json)} (h : Encodes true kvs js) :
    dumps true (.dict kvs) = .ok (.obj (orderBy Prod.fst js)) := by
  rw [dumps, if_pos rfl, h.dumpsItems, sortItems_str]
  simp only [collect_ok]
  rfl

theorem dumps_dict_iff {kvs : List (Key × Value)} (hstr : ∀ kv ∈ kvs, ∃ s, kv.1 = .str s)
    {j : Json} :
    dumps true (.dict kvs) = .ok j ↔
      ∃ js, Encodes true kvs js ∧ j = .obj (orderBy Prod.fst js) := by
  constructor
  · intro h
    have hall : ∀ kv ∈ kvs, ∃ j, dumps true kv.2 = .ok j :=
      fun kv hkv => ((exists_dumps_dict_iff.1 ⟨j, h⟩).2 kv hkv).2
    obtain ⟨js, hjs⟩ := Encodes.of_forall hstr hall
    rw [dumps_dict hjs] at h
    cases h
    exact ⟨js, hjs, rfl⟩
  · rintro ⟨js, hjs, rfl⟩
    exact dumps_dict hjs

/-- Looking a name up among the items of a document without repeated names. -/
theorem find?_names {js : List (String × Json)} (hnd : (js.map Prod.fst).Nodup) {k : String} {j : Json}
    (hmem : (k, j) ∈ js) {p : Key → Bool} (hp : ∀ s, p (.str s) = decide (s = k)) :
    (js.map fun kj => ((Key.str kj.1, loads kj.2) : Key × Value)).find? (fun kv => p kv.1) =
      some (.str k, loads j) := by
  have hcomp : (fun kv : Key × Value => p kv.1) ∘ (fun kj : String × Json => (Key.str kj.1, loads kj.2)) =
      fun kj => decide (kj.1 = k) := by
    funext kj
    exact hp kj.1
  have hone : js.find? (fun kj => decide (kj.1 = k)) = some (k, j) :=
    Table.lookup_of_mem (t := ⟨_, hnd⟩) hmem
  rw [List.find?_map, hcomp, hone]
  rfl

theorem Encodes.sorted_nodup {b : Bool} {kvs : List (Key × Value)} {js : List (String × Json)}
    (h : Encodes b kvs js) (hnd : (kvs.map Prod.fst).Nodup) : ((orderBy Prod.fst js).map Prod.fst).Nodup :=
  ((orderBy_perm Prod.fst js).map Prod.fst).nodup_iff.2 (h.names_nodup hnd)

theorem getItem_loads {kvs : List (Key × Value)} {js : List (String × Json)}
    (h : Encodes true kvs js) (hnd : (kvs.map Prod.fst).Nodup) {k : String} {v : Value}
    (hkv : (.str k, v) ∈ kvs) :
    ∃ j, dumps true v = .ok j ∧ (loads (.obj (orderBy Prod.fst js))).getItem k = .ok (loads j) := by
  obtain ⟨j, hmem, hj⟩ := h.mem hkv
  refine ⟨j, hj, ?_⟩
  rw [loads_obj (h.sorted_nodup hnd), Value.getItem]
  have hfind := find?_names (h.sorted_nodup hnd) (mem_orderBy.2 hmem) (p := fun l => decide (l = .str k))
    (by simp)
  rw [hfind]

/-- Reading one entry back from whatever document the dict was written as. -/
theorem getItem_of_dumps {kvs : List (Key × Value)} {j : Json} (h : dumps true (.dict kvs) = .ok j)
    (hstr : ∀ kv ∈ kvs, ∃ s, kv.1 = .str s) (hnd : (kvs.map Prod.fst).Nodup) {k : String} {v : Value}
    (hkv : (.str k, v) ∈ kvs) :
    ∃ j', dumps true v = .ok j' ∧ (loads j).getItem k = .ok (loads j') := by
  obtain ⟨js, henc, rfl⟩ := (dumps_dict_iff hstr).1 h
  exact getItem_loads henc hnd hkv

theorem loads_of_dumps_dict {b : Bool} {kvs : List (Key × Value)} {j : Json}
    (h : dumps b (.dict kvs) = .ok j) : ∃ items, loads j = .dict items := by
  rw [dumps] at h
  split at h
  · obtain ⟨js, -, rfl⟩ := map_eq_ok_iff.1 h
    exact ⟨_, by rw [loads]⟩
  · simp at h

theorem dumpsList_ok {b : Bool} {xs : List Value} {js : List Json} (h : dumpsList b xs = .ok js) :
    List.Forall₂ (fun x j => dumps b x = .ok j) xs js := by
  induction xs generalizing js with
  | nil => cases h; exact .nil
  | cons x xs ih =>
    rw [dumpsList] at h
    split at h <;> cases h
    rename_i hj hjs
    exact .cons hj (ih hjs)

/-! ### The round trip -/

mutual

/-- A JSON value: string keys, no tuple, no NaN, nothing `json` refuses. -/
def Value.IsJson : Value → Prop
  | .none | .bool _ | .int _ | .str _ => True
  | .float f => f ≠ .nan
  | .list xs => IsJsonList xs
  | .dict items => (items.map Prod.fst).Nodup ∧ IsJsonItems items
  | .tuple _ | .dataclass _ | .object _ _ => False

def IsJsonList : List Value → Prop
  | [] => True
  | x :: xs => x.IsJson ∧ IsJsonList xs

def IsJsonItems : List (Key × Value) → Prop
  | [] => True
  | (k, x) :: xs => k.isStr = true ∧ x.IsJson ∧ IsJsonItems xs

end

theorem isJsonList_map {α : Type} {f : α → Value} (h : ∀ a, (f a).IsJson) (l : List α) :
    IsJsonList (l.map f) := by
  induction l with
  | nil => exact trivial
  | cons a l ih => exact ⟨h a, ih⟩

mutual

/-- Strings, numbers, lists and string-keyed dicts; a NaN is one of the numbers only if `nan`. -/
def Value.Plain (nan : Bool) : Value → Prop
  | .none | .bool _ | .int _ | .str _ => True
  | .float f => nan = true ∨ f ≠ .nan
  | .list xs => PlainList nan xs
  | .dict items => (items.map Prod.fst).Nodup ∧ PlainItems nan items
  | .tuple _ | .dataclass _ | .object _ _ => False

def PlainList (nan : Bool) : List Value → Prop
  | [] => True
  | x :: xs => x.Plain nan ∧ PlainList nan xs

def PlainItems (nan : Bool) : List (Key × Value) → Prop
  | [] => True
  | (k, x) :: xs => k.isStr = true ∧ x.Plain nan ∧ PlainItems nan xs

end

mutual

theorem plain_of_isJson {nan : Bool} : ∀ v : Value, v.IsJson → v.Plain nan
  | .none, _ | .bool _, _ | .int _, _ | .str _, _ => by simp [Value.Plain]
  | .float f, h => by
    rw [Value.IsJson] at h
    exact .inr h
  | .list xs, h => by
    rw [Value.IsJson] at h
    exact plainList_of_isJson xs h
  | .dict items, h => by
    rw [Value.IsJson] at h
    exact ⟨h.1, plainItems_of_isJson items h.2⟩
  | .tuple _, h => by rw [Value.IsJson] at h; exact h.elim
  | .dataclass _, h => by rw [Value.IsJson] at h; exact h.elim
  | .object _ _, h => by rw [Value.IsJson] at h; exact h.elim

theorem plainList_of_isJson {nan : Bool} : ∀ xs : List Value, IsJsonList xs → PlainList nan xs
  | [], _ => trivial
  | x :: xs, h => by
    rw [IsJsonList] at h
    exact ⟨plain_of_isJson x h.1, plainList_of_isJson xs h.2⟩

theorem plainItems_of_isJson {nan : Bool} : ∀ items : List (Key × Value), IsJsonItems items → PlainItems nan items
  | [], _ => trivial
  | (k, x) :: items, h => by
    rw [IsJsonItems] at h
    exact ⟨h.1, plain_of_isJson x h.2.1, plainItems_of_isJson items h.2.2⟩

end

mutual

/-- The value with the keys of its dicts in order. Two values that agree here are `==`: equality of
dicts ignores the order of keys. -/
def Value.canon : Value → Value
  | .list xs => .list (canonList xs)
  | .dict items => .dict (orderBy (fun kv => kv.1.text) (canonItems items))
  | .none => .none
  | .bool b => .bool b
  | .int i => .int i
  | .float f => .float f
  | .str s => .str s
  | .tuple xs => .tuple xs
  | .dataclass fields => .dataclass fields
  | .object copies refusal => .object copies refusal

def canonList : List Value → List Value
  | [] => []
  | x :: xs => x.canon :: canonList xs

def canonItems : List (Key × Value) → List (Key × Value)
  | [] => []
  | (k, x) :: xs => (k, x.canon) :: canonItems xs

end

theorem canonItems_eq_map (items : List (Key × Value)) :
    canonItems items = items.map fun kv => (kv.1, kv.2.canon) := by
  induction items with
  | nil => rfl
  | cons kv items ih => simp [canonItems, ih]

theorem canonItems_orderBy (items : List (Key × Value)) :
    canonItems (orderBy (fun kv => kv.1.text) items) =
      orderBy (fun kv => kv.1.text) (canonItems items) := by
  rw [canonItems_eq_map, canonItems_eq_map, orderBy_map]
  exact fun _ => rfl

mutual

theorem canon_canon : ∀ v : Value, v.canon.canon = v.canon
  | .list xs => by rw [Value.canon, Value.canon, canonList_canonList xs]
  | .dict items => by
    rw [Value.canon, Value.canon, canonItems_orderBy, canonItems_canonItems items, orderBy_orderBy]
  | .none | .bool _ | .int _ | .float _ | .str _ | .tuple _ | .dataclass _ | .object _ _ => by
    simp [Value.canon]

theorem canonList_canonList : ∀ xs : List Value, canonList (canonList xs) = canonList xs
  | [] => rfl
  | x :: xs => by simp only [canonList, canon_canon x, canonList_canonList xs]

theorem canonItems_canonItems : ∀ xs : List (Key × Value),
    canonItems (canonItems xs) = canonItems xs
  | [] => rfl
  | (k, x) :: xs => by simp only [canonItems, canon_canon x, canonItems_canonItems xs]

end

mutual

theorem loads_dumps_of_plain {nan : Bool} : ∀ v : Value, v.Plain nan → ∃ j, dumps true v = .ok j ∧ loads j = v.canon
  | .none, _ => ⟨.null, rfl, rfl⟩
  | .bool b, _ => ⟨.bool b, rfl, rfl⟩
  | .int i, _ => ⟨.int i, rfl, rfl⟩
  | .float f, _ => ⟨.float f, rfl, rfl⟩
  | .str s, _ => ⟨.str s, rfl, rfl⟩
  | .list xs, h => by
    rw [Value.Plain] at h
    obtain ⟨js, hd, hl⟩ := loadsList_dumpsList xs h
    exact ⟨.arr js, by rw [dumps, hd]; rfl, by rw [loads, hl, Value.canon]⟩
  | .dict items, h => by
    rw [Value.Plain] at h
    obtain ⟨js, henc, hl⟩ := loads_dumpsItems items h.2
    refine ⟨_, dumps_dict henc, ?_⟩
    rw [loads_obj (henc.sorted_nodup h.1), Value.canon, ← hl, orderBy_map (f := Prod.fst)]
    exact fun _ => rfl
  | .tuple _, h => by rw [Value.Plain] at h; exact h.elim
  | .dataclass _, h => by rw [Value.Plain] at h; exact h.elim
  | .object _ _, h => by rw [Value.Plain] at h; exact h.elim

theorem loadsList_dumpsList {nan : Bool} : ∀ xs : List Value, PlainList nan xs →
    ∃ js, dumpsList true xs = .ok js ∧ loadsList js = canonList xs
  | [], _ => ⟨[], rfl, rfl⟩
  | x :: xs, h => by
    rw [PlainList] at h
    obtain ⟨j, hd, hl⟩ := loads_dumps_of_plain x h.1
    obtain ⟨js, hds, hls⟩ := loadsList_dumpsList xs h.2
    exact ⟨j :: js, by rw [dumpsList, hd, hds], by rw [loadsList, canonList, hl, hls]⟩

theorem loads_dumpsItems {nan : Bool} : ∀ items : List (Key × Value), PlainItems nan items →
    ∃ js, Encodes true items js ∧
      js.map (fun kj => (.str kj.1, loads kj.2)) = canonItems items
  | [], _ => ⟨[], .nil, rfl⟩
  | (k, x) :: items, h => by
    rw [PlainItems] at h
    obtain ⟨j, hd, hl⟩ := loads_dumps_of_plain x h.2.1
    obtain ⟨js, hds, hls⟩ := loads_dumpsItems items h.2.2
    cases k with
    | str s =>
      exact ⟨(s, j) :: js, .cons ⟨rfl, hd⟩ hds, by rw [List.map_cons, canonItems, hl, hls]⟩
    | _ => exact absurd h.1 (by simp [Key.isStr])

end

/-- What `json` writes for a JSON value reads back as that value, with sorted keys. -/
theorem loads_dumps (v : Value) (h : v.IsJson) : ∃ j, dumps true v = .ok j ∧ loads j = v.canon :=
  loads_dumps_of_plain v (plain_of_isJson v h : v.Plain false)

mutual

theorem asdictInner_of_isJson : ∀ v : Value, v.IsJson → asdictInner v = .ok v
  | .none, _ | .bool _, _ | .int _, _ | .float _, _ | .str _, _ => by rw [asdictInner]
  | .list xs, h => by
    rw [Value.IsJson] at h
    rw [asdictInner, asdictList_of_isJson xs h]; rfl
  | .dict items, h => by
    rw [Value.IsJson] at h
    rw [asdictInner, asdictItems_of_isJson items h.2]; rfl
  | .tuple _, h => by rw [Value.IsJson] at h; exact h.elim
  | .dataclass _, h => by rw [Value.IsJson] at h; exact h.elim
  | .object _ _, h => by rw [Value.IsJson] at h; exact h.elim

theorem asdictList_of_isJson : ∀ xs : List Value, IsJsonList xs → asdictList xs = .ok xs
  | [], _ => rfl
  | x :: xs, h => by
    rw [IsJsonList] at h
    rw [asdictList, asdictInner_of_isJson x h.1, asdictList_of_isJson xs h.2]

theorem asdictItems_of_isJson : ∀ xs : List (Key × Value), IsJsonItems xs → asdictItems xs = .ok xs
  | [], _ => rfl
  | (k, x) :: xs, h => by
    rw [IsJsonItems] at h
    rw [asdictItems, asdictInner_of_isJson x h.2.1, asdictItems_of_isJson xs h.2.2]

end

end Python
