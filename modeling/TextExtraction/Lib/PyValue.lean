import Mathlib.Algebra.Group.Action.Defs
import Mathlib.Data.Int.Log
import Mathlib.Data.Rat.Floor
import Mathlib.Algebra.Order.Ring.Rat
import Mathlib.Data.Prod.Lex
import Mathlib.Data.String.Basic

/-!
# Python values

The values a Python program passes around untyped: what `Any` ranges over. Scalars, lists, tuples,
dicts with hashable keys, dataclass instances, and `object` for everything else (sets, bytes,
sockets, containers that contain themselves, integers too long to print, …), which carries the
exception `copy` or `json` answers it with. Exceptions carry what `str(e)`
gives; `str(e)` may itself raise.
-/

namespace Python

/-! ### Exceptions -/

inductive ExcKind
  | valueError | typeError | keyError | attributeError | runtimeError | overflowError
  | integrityError | other
deriving DecidableEq, Repr

/-- An exception object. `unprintable` is one whose `__str__` raises `inner`. -/
inductive Exc
  | raised (kind : ExcKind) (message : String)
  | unprintable (kind : ExcKind) (inner : Exc)
deriving DecidableEq, Repr

namespace Exc

/-- `str(e)`. -/
def str : Exc → Except Exc String
  | raised _ message => .ok message
  | unprintable _ inner => .error inner

def kind : Exc → ExcKind
  | raised kind _ => kind
  | unprintable kind _ => kind

end Exc

theorem bind_eq_ok_iff {ε α β : Type} {x : Except ε α} {f : α → Except ε β} {b : β} :
    x >>= f = .ok b ↔ ∃ a, x = .ok a ∧ f a = .ok b := by
  rcases x with error | a <;> simp [bind, Except.bind]

theorem bind_eq_error_iff {ε α β : Type} {x : Except ε α} {f : α → Except ε β} {e : ε} :
    x >>= f = .error e ↔ x = .error e ∨ ∃ a, x = .ok a ∧ f a = .error e := by
  rcases x with error | a <;> simp [bind, Except.bind]

theorem mapM_eq_ok {ε α β : Type} {f : α → Except ε β} {g : α → β} {xs : List α} (h : ∀ x ∈ xs, f x = .ok (g x)) :
    xs.mapM f = .ok (xs.map g) := by
  induction xs with
  | nil => rfl
  | cons x xs ih =>
    rw [List.mapM_cons, h x (by simp), ih fun x' hx' => h x' (by simp [hx'])]
    rfl

/-- A comprehension raises what one of its elements raises. -/
theorem mapM_eq_error {ε α β : Type} {f : α → Except ε β} {xs : List α} {e : ε} (h : xs.mapM f = .error e) :
    ∃ x ∈ xs, f x = .error e := by
  induction xs with
  | nil => cases h
  | cons x xs ih =>
    rw [List.mapM_cons, bind_eq_error_iff] at h
    rcases h with hx | ⟨y, -, h⟩
    · exact ⟨x, by simp, hx⟩
    · rcases bind_eq_error_iff.1 h with hxs | ⟨ys, -, h⟩
      · obtain ⟨x', hmem, hx'⟩ := ih hxs
        exact ⟨x', by simp [hmem], hx'⟩
      · cases h

theorem map_eq_ok_iff {ε α β : Type} {x : Except ε α} {f : α → β} {b : β} :
    x.map f = .ok b ↔ ∃ a, x = .ok a ∧ f a = b := by
  rcases x with error | a <;> simp [Except.map]

/-- `a or b` on strings. -/
def orElse (a b : String) : String := if a = "" then b else a

/-! ### Datetimes -/

/-- `t + timedelta(microseconds=delta)`, where `inRange` tells which times a `datetime` can be. -/
def addTimedelta {τ : Type} [VAdd ℤ τ] (inRange : τ → Bool) (t : τ) (delta : ℤ) : Except Exc τ :=
  if inRange (delta +ᵥ t) then .ok (delta +ᵥ t)
  else .error (.raised .overflowError "date value out of range")

/-! ### Numbers -/

/-- A Python float. A finite double is named by its `repr`, the shortest text that reads back as
it, which is also the text `json` writes. -/
inductive PyFloat
  | finite (repr : String) | inf | negInf | nan
deriving DecidableEq, Repr

/-- The rational a decimal text `[-]digits[.digits][e[±]digits]` denotes. -/
def decimal (text : String) : ℚ :=
  let digits (cs : List Char) : ℕ := cs.foldl (fun n c => 10 * n + (c.toNat - '0'.toNat)) 0
  let signed (cs : List Char) : Bool × List Char :=
    match cs with
    | '-' :: cs => (true, cs)
    | '+' :: cs => (false, cs)
    | cs => (false, cs)
  let (negative, body) := signed text.toList
  let mantissa := body.takeWhile (· != 'e')
  let (down, exponent) := signed (body.dropWhile (· != 'e')).tail
  let whole := mantissa.takeWhile (· != '.')
  let fraction := (mantissa.dropWhile (· != '.')).tail
  let magnitude : ℚ := digits (whole ++ fraction) / (10 : ℚ) ^ fraction.length
  let scaled := if down then magnitude / (10 : ℚ) ^ digits exponent
    else magnitude * (10 : ℚ) ^ digits exponent
  if negative then -scaled else scaled

/-- The double nearest to a number, the even one of two: 53 binary digits, none of them below `2 ^ -1074`. -/
def nearestDouble (x : ℚ) : ℚ :=
  let unit : ℚ := 2 ^ max (Int.log 2 |x| - 52) (-1074)
  let below := ⌊x / unit⌋
  let rest := x / unit - below
  (if rest < 1 / 2 ∨ rest = 1 / 2 ∧ 2 ∣ below then below else below + 1) * unit

/-- The number a `repr` names. -/
def double (repr : String) : ℚ := nearestDouble (decimal repr)

/-! ### Values -/

/-- Dict keys. `other` is any other hashable object, named by its type. -/
inductive Key
  | none
  | bool (b : Bool)
  | int (i : ℤ)
  | float (f : PyFloat)
  | str (s : String)
  | other (type : String)
deriving DecidableEq, Repr

inductive Value
  | none
  | bool (b : Bool)
  | int (i : ℤ)
  | float (f : PyFloat)
  | str (s : String)
  | list (xs : List Value)
  | tuple (xs : List Value)
  | dict (items : List (Key × Value))
  | dataclass (fields : List (String × Value))
  /-- Any other object: `copy.deepcopy` raises `refusal` unless `copies`, `json.dumps` always. -/
  | object (copies : Bool) (refusal : Exc)

instance : Inhabited Value := ⟨.none⟩

namespace Key

/-- Where a numeric key stands among numbers; `none` for the keys that are not numbers. -/
def rank : Key → Option (ℕ ×ₗ ℚ)
  | .bool b => some (toLex (1, if b then 1 else 0))
  | .int i => some (toLex (1, i))
  | .float (.finite r) => some (toLex (1, double r))
  | .float .negInf => some (toLex (0, 0))
  | .float .inf => some (toLex (2, 0))
  | .float .nan => some (toLex (3, 0))
  | _ => Option.none

/-- `k == l` for dict keys: `1`, `1.0` and `True` are one key. -/
def same (k l : Key) : Bool :=
  match k.rank, l.rank with
  | some a, some b => a = b
  | _, _ => k = l

def isStr : Key → Bool
  | .str _ => true
  | _ => false

/-- The text of a string key. -/
def text : Key → String
  | .str s => s
  | _ => ""

@[simp] theorem same_str (a b : String) : same (.str a) (.str b) = decide (a = b) := by
  simp [same, rank]

end Key

/-- `d[k] = v`: replaces in place, or appends. -/
def setItem {α : Type} (d : List (Key × α)) (k : Key) (v : α) : List (Key × α) :=
  if d.any fun kv => kv.1.same k then d.map fun kv => if kv.1.same k then (kv.1, v) else kv
  else d ++ [(k, v)]

theorem mem_setItem {α : Type} {d : List (Key × α)} {k : Key} {v : α} {kv : Key × α}
    (h : kv ∈ setItem d k v) : kv ∈ d ∨ (kv.1 = k ∨ kv.1 ∈ d.map Prod.fst) ∧ kv.2 = v := by
  unfold setItem at h
  split at h
  · obtain ⟨kv', hkv', rfl⟩ := List.mem_map.1 h
    split
    · exact .inr ⟨.inr (List.mem_map.2 ⟨kv', hkv', rfl⟩), rfl⟩
    · exact .inl hkv'
  · rcases List.mem_append.1 h with h | h
    · exact .inl h
    · rw [List.mem_singleton] at h
      rw [h]
      exact .inr ⟨.inl rfl, rfl⟩

theorem setItem_of_fresh {α : Type} {d : List (Key × α)} {s : String} {v : α}
    (hstr : ∀ kv ∈ d, kv.1.isStr = true) (hfresh : Key.str s ∉ d.map Prod.fst) :
    setItem d (.str s) v = d ++ [(.str s, v)] := by
  have hany : d.any (fun kv => kv.1.same (.str s)) = false := by
    rw [List.any_eq_false]
    intro kv hkv
    have hkey := hstr kv hkv
    obtain ⟨k, x⟩ := kv
    cases k with
    | str t =>
      rw [Key.same_str, decide_eq_true_eq]
      rintro rfl
      exact hfresh (List.mem_map.2 ⟨_, hkv, rfl⟩)
    | _ => cases hkey
  rw [setItem, hany, if_neg Bool.false_ne_true]

namespace Value

/-- The dict key a value is used as; lists and dicts do not hash. -/
def toKey : Value → Except Exc Key
  | .none => .ok .none
  | .bool b => .ok (.bool b)
  | .int i => .ok (.int i)
  | .float f => .ok (.float f)
  | .str s => .ok (.str s)
  | .tuple _ => .ok (.other "tuple")
  | .list _ => .error (.raised .typeError "unhashable type: 'list'")
  | .dict _ => .error (.raised .typeError "unhashable type: 'dict'")
  | .dataclass _ => .ok (.other "dataclass")
  | .object _ _ => .ok (.other "object")

theorem toKey_eq_error {v : Value} {e : Exc} (h : v.toKey = .error e) : ∃ message, e = .raised .typeError message := by
  unfold toKey at h
  split at h <;> cases h <;> exact ⟨_, rfl⟩

def ofKey : Key → Value
  | .none => .none
  | .bool b => .bool b
  | .int i => .int i
  | .float f => .float f
  | .str s => .str s
  | .other type => .object true (.raised .typeError type)

/-- The name `type(v).__name__` in error texts. -/
def typeName : Value → String
  | .none => "NoneType"
  | .bool _ => "bool"
  | .int _ => "int"
  | .float _ => "float"
  | .str _ => "str"
  | .list _ => "list"
  | .tuple _ => "tuple"
  | .dict _ => "dict"
  | .dataclass _ | .object _ _ => "object"

/-- `v[k]` for a string `k`. -/
def getItem (v : Value) (k : String) : Except Exc Value :=
  match v with
  | .dict items =>
    match items.find? fun kv => kv.1 = .str k with
    | some kv => .ok kv.2
    | Option.none => .error (.raised .keyError ("'" ++ k ++ "'"))
  | .list _ => .error (.raised .typeError "list indices must be integers or slices, not str")
  | .tuple _ => .error (.raised .typeError "tuple indices must be integers or slices, not str")
  | .str _ => .error (.raised .typeError "string indices must be integers, not 'str'")
  | v => .error (.raised .typeError ("'" ++ v.typeName ++ "' object is not subscriptable"))

/-- The elements `for x in v` runs over. -/
def iter : Value → Except Exc (List Value)
  | .list xs => .ok xs
  | .tuple xs => .ok xs
  | .dict items => .ok (items.map fun kv => ofKey kv.1)
  | .str s => .ok (s.toList.map fun c => .str c.toString)
  | v => .error (.raised .typeError ("'" ++ v.typeName ++ "' object is not iterable"))

/-- `v.items()`. -/
def dictItems : Value → Except Exc (List (Key × Value))
  | .dict items => .ok items
  | v => .error (.raised .attributeError ("'" ++ v.typeName ++ "' object has no attribute 'items'"))

/-- `bool(v)`. -/
def truthy : Value → Bool
  | .none => false
  | .bool b => b
  | .int i => i != 0
  | .float (.finite r) => double r != 0
  | .float _ => true
  | .str s => s != ""
  | .list xs => !xs.isEmpty
  | .tuple xs => !xs.isEmpty
  | .dict items => !items.isEmpty
  | .dataclass _ | .object _ _ => true

/-- `v is None`. -/
def isNone : Value → Bool
  | .none => true
  | _ => false

end Value

/-! ### `dataclasses.asdict` -/

mutual

/-- `_asdict_inner`: dataclasses become dicts, containers are rebuilt, the rest is deep-copied. -/
def asdictInner : Value → Except Exc Value
  | .list xs => (asdictList xs).map .list
  | .tuple xs => (asdictList xs).map .tuple
  | .dict items => (asdictItems items).map .dict
  | .dataclass fields => (asdictFields fields).map .dict
  | .object copies refusal => if copies then .ok (.object copies refusal) else .error refusal
  | .none => .ok .none
  | .bool b => .ok (.bool b)
  | .int i => .ok (.int i)
  | .float f => .ok (.float f)
  | .str s => .ok (.str s)

def asdictList : List Value → Except Exc (List Value)
  | [] => .ok []
  | x :: xs =>
    match asdictInner x, asdictList xs with
    | .ok y, .ok ys => .ok (y :: ys)
    | .error e, _ => .error e
    | _, .error e => .error e

def asdictItems : List (Key × Value) → Except Exc (List (Key × Value))
  | [] => .ok []
  | (k, x) :: xs =>
    match asdictInner x, asdictItems xs with
    | .ok y, .ok ys => .ok ((k, y) :: ys)
    | .error e, _ => .error e
    | _, .error e => .error e

def asdictFields : List (String × Value) → Except Exc (List (Key × Value))
  | [] => .ok []
  | (k, x) :: xs =>
    match asdictInner x, asdictFields xs with
    | .ok y, .ok ys => .ok ((.str k, y) :: ys)
    | .error e, _ => .error e
    | _, .error e => .error e

end

end Python
