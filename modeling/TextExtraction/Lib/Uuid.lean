import Mathlib.Data.Nat.Basic
import Mathlib.Data.List.Basic
import Mathlib.Data.String.Basic

/-!
# UUIDs

`str(uuid)` and `UUID(text)`. The reader drops `urn:`, `uuid:`, braces and hyphens wherever they stand
and hands the 32 characters left to `int(_, 16)`, which takes blanks, a sign, a prefix, underscores and
the decimal digits of other scripts; what Unicode says of those is the parameter. Every spelling of a
number by hexadecimal digits reads as that number (`parse_of_spelling`), the written one among them
(`parse_text`).
-/

namespace Python

/-! ### `int(text, 16)` -/

/-- What Unicode says of the characters beyond ASCII. -/
structure UnicodeTable where
  isSpace : Char → Bool
  decimal : Char → Option (Fin 10)

def hexDigit (d : ℕ) : Char := if d < 10 then Char.ofNat (48 + d) else Char.ofNat (87 + d)

def hexValue (c : Char) : Option ℕ :=
  if '0' ≤ c ∧ c ≤ '9' then some (c.toNat - 48)
  else if 'a' ≤ c ∧ c ≤ 'f' then some (c.toNat - 87)
  else if 'A' ≤ c ∧ c ≤ 'F' then some (c.toNat - 55)
  else none

namespace Int16

/-- The text `int` scans: blanks and decimal digits of other scripts become those of ASCII. -/
def transform (table : UnicodeTable) (c : Char) : Char :=
  if c.toNat < 128 then c
  else if table.isSpace c then ' '
  else
    match table.decimal c with
    | some d => hexDigit d
    | none => '?'

/-- `Py_ISSPACE`. -/
def isBlank (c : Char) : Bool := (9 ≤ c.toNat && c.toNat ≤ 13) || c.toNat == 32

/-- Digits with single underscores between them: their value after `n`, and what follows them. -/
def scan : Bool → ℕ → List Char → Option (ℕ × List Char)
  | underscore, n, [] => if underscore then none else some (n, [])
  | underscore, n, c :: cs =>
    if c = '_' then
      if underscore then none else scan true n cs
    else
      match hexValue c with
      | some d => scan false (16 * n + d) cs
      | none => if underscore then none else some (n, c :: cs)

def dropSign : List Char → List Char
  | '+' :: cs => cs
  | cs => cs

/-- `0x`, and the underscore that may follow it. -/
def dropPrefix : List Char → List Char
  | '0' :: 'x' :: '_' :: cs | '0' :: 'X' :: '_' :: cs => cs
  | '0' :: 'x' :: cs | '0' :: 'X' :: cs => cs
  | cs => cs

/-- Digits to the end of the text, up to blanks. -/
def scanAll (cs : List Char) : Option ℕ :=
  if cs.head?.bind hexValue = none then none
  else
    match scan false 0 cs with
    | some (n, rest) => if rest.all isBlank then some n else none
    | none => none

/-- `int(text, 16)` of a text without a minus sign; `none` is a `ValueError`. -/
def parse (table : UnicodeTable) (cs : List Char) : Option ℕ :=
  scanAll (dropPrefix (dropSign ((cs.map (transform table)).dropWhile isBlank)))

end Int16

/-! ### Hexadecimal digits -/

/-- The number the digits `cs` write after `n`. -/
def hexNumber (n : ℕ) (cs : List Char) : ℕ := cs.foldl (fun n c => 16 * n + (hexValue c).getD 0) n

def isHex (c : Char) : Bool := (hexValue c).isSome

theorem hexValue_hexDigit {d : ℕ} (h : d < 16) : hexValue (hexDigit d) = some d := by
  have hall : ∀ e : Fin 16, hexValue (hexDigit e) = some e.val := by decide
  exact hall ⟨d, h⟩

theorem isHex_hexDigit {d : ℕ} (h : d < 16) : isHex (hexDigit d) = true := by
  rw [isHex, hexValue_hexDigit h]
  rfl

theorem hexValue_lt {c : Char} {d : ℕ} (h : hexValue c = some d) : d < 16 ∧ c.toNat < 128 ∧ 48 ≤ c.toNat := by
  have hnat : ∀ a b : Char, a ≤ b ↔ a.toNat ≤ b.toNat := fun _ _ => Iff.rfl
  have h0 : '0'.toNat = 48 := rfl
  have h9 : '9'.toNat = 57 := rfl
  have ha : 'a'.toNat = 97 := rfl
  have hf : 'f'.toNat = 102 := rfl
  have hA : 'A'.toNat = 65 := rfl
  have hF : 'F'.toNat = 70 := rfl
  rw [hexValue] at h
  simp only [hnat, h0, h9, ha, hf, hA, hF] at h
  split at h
  · cases h
    omega
  · split at h
    · cases h
      omega
    · split at h
      · cases h
        omega
      · cases h

theorem hexNumber_append (n : ℕ) (cs cs' : List Char) : hexNumber n (cs ++ cs') = hexNumber (hexNumber n cs) cs' :=
  List.foldl_append

namespace Int16

theorem scan_of_isHex {cs : List Char} (h : ∀ c ∈ cs, isHex c = true) (n : ℕ) :
    scan false n cs = some (hexNumber n cs, []) := by
  induction cs generalizing n with
  | nil => rfl
  | cons c cs ih =>
    obtain ⟨d, hd⟩ := Option.isSome_iff_exists.1 (h c (by simp))
    have hne : c ≠ '_' := by
      rintro rfl
      cases hd
    rw [scan, if_neg hne]
    simp only [hd]
    rw [ih (fun c hc => h c (by simp [hc]))]
    simp [hexNumber, hd]

theorem dropPrefix_of_isHex {cs : List Char} (h : ∀ c ∈ cs, isHex c = true) : dropPrefix cs = cs := by
  have hx : 'x' ∉ cs := by
    intro hmem
    have := h 'x' hmem
    cases this
  have hX : 'X' ∉ cs := by
    intro hmem
    have := h 'X' hmem
    cases this
  unfold dropPrefix
  split <;> simp_all

/-- Digits alone are the number they write. -/
theorem parse_of_isHex (table : UnicodeTable) {cs : List Char} (h : ∀ c ∈ cs, isHex c = true) (hne : cs ≠ []) :
    parse table cs = some (hexNumber 0 cs) := by
  obtain ⟨c, rest, rfl⟩ := List.exists_cons_of_ne_nil hne
  obtain ⟨d, hd⟩ := Option.isSome_iff_exists.1 (h c (by simp))
  have hmap : (c :: rest).map (transform table) = c :: rest := by
    refine (List.map_congr_left fun b hb => ?_).trans (List.map_id' _)
    obtain ⟨e, he⟩ := Option.isSome_iff_exists.1 (h b hb)
    rw [transform, if_pos (hexValue_lt he).2.1]
  have hblank : isBlank c = false := by
    have := (hexValue_lt hd).2.2
    simp [isBlank]
    omega
  have hsign : dropSign (c :: rest) = c :: rest := by
    unfold dropSign
    split
    · rename_i heq
      cases heq
      cases hd
    · rfl
  rw [parse, hmap, List.dropWhile_cons_of_neg (by simp [hblank]), hsign, dropPrefix_of_isHex h, scanAll, if_neg (by
    simp [hd]), scan_of_isHex h]
  rfl

end Int16

/-! ### `UUID(text)` and `str(uuid)` -/

/-- A `uuid.UUID`. -/
@[ext] structure Uuid where
  int : ℕ
  int_lt : int < 16 ^ 32
deriving DecidableEq

namespace Uuid

/-- `text.replace(pattern, "")`; the first argument counts the characters of a match still to drop. -/
def remove (pattern : List Char) : ℕ → List Char → List Char
  | _, [] => []
  | skip + 1, _ :: cs => remove pattern skip cs
  | 0, c :: cs =>
    if pattern.isPrefixOf (c :: cs) then remove pattern (pattern.length - 1) cs
    else c :: remove pattern 0 cs

def isBrace (c : Char) : Bool := c = '{' || c = '}'

/-- `text.strip('{}')`. -/
def stripBraces (cs : List Char) : List Char :=
  ((cs.dropWhile isBrace).reverse.dropWhile isBrace).reverse

/-- The 32 characters the reader takes for digits. -/
def digits (text : String) : List Char :=
  (stripBraces (remove "uuid:".toList 0 (remove "urn:".toList 0 text.toList))).filter (· ≠ '-')

/-- `UUID(text)`; `none` is a `ValueError`. -/
def parse (table : UnicodeTable) (text : String) : Option Uuid :=
  if (digits text).length ≠ 32 then none
  else
    match Int16.parse table (digits text) with
    | none => none
    | some n => if h : n < 16 ^ 32 then some ⟨n, h⟩ else none

/-- `'%0…x' % n`, of `width` digits. -/
def hex : ℕ → ℕ → List Char
  | 0, _ => []
  | width + 1, n => hex width (n / 16) ++ [hexDigit (n % 16)]

/-- Groups of 8, 4, 4, 4 and the rest. -/
def hyphenate (cs : List Char) : List Char :=
  cs.take 8 ++ '-' :: ((cs.drop 8).take 4 ++ '-' :: ((cs.drop 12).take 4 ++ '-' ::
    ((cs.drop 16).take 4 ++ '-' :: cs.drop 20)))

/-- `str(uuid)`. -/
def text (u : Uuid) : String := String.ofList (hyphenate (hex 32 u.int))

/-! ### Reading back -/

theorem remove_of_not_mem {pattern cs : List Char} {c : Char} (hc : c ∈ pattern) (h : c ∉ cs) :
    remove pattern 0 cs = cs := by
  induction cs with
  | nil => rfl
  | cons b cs ih =>
    have hnot : ¬ pattern.isPrefixOf (b :: cs) = true := by
      intro hprefix
      exact h ((List.isPrefixOf_iff_prefix.1 hprefix).subset hc)
    rw [remove, if_neg hnot, ih (fun hmem => h (by simp [hmem]))]

theorem dropWhile_isBrace {cs : List Char} (h : ∀ c ∈ cs, isBrace c = false) (l : List Char) (hne : cs ≠ []) :
    (cs ++ l).dropWhile isBrace = cs ++ l := by
  obtain ⟨c, cs, rfl⟩ := List.exists_cons_of_ne_nil hne
  exact List.dropWhile_cons_of_neg (by simp [h c])

theorem stripBraces_braces {cs : List Char} (h : ∀ c ∈ cs, isBrace c = false) (hne : cs ≠ []) :
    stripBraces ('{' :: (cs ++ ['}'])) = cs := by
  have hreverse : ∀ c ∈ cs.reverse, isBrace c = false := fun c hc => h c (List.mem_reverse.1 hc)
  have hback := dropWhile_isBrace hreverse [] (by simpa using hne)
  rw [List.append_nil] at hback
  rw [stripBraces, List.dropWhile_cons_of_pos (by decide), dropWhile_isBrace h _ hne, List.reverse_append,
    List.reverse_singleton, List.singleton_append, List.dropWhile_cons_of_pos (by decide), hback, List.reverse_reverse]

theorem stripBraces_of_forall {cs : List Char} (h : ∀ c ∈ cs, isBrace c = false) : stripBraces cs = cs := by
  cases cs with
  | nil => rfl
  | cons c cs =>
    have hreverse : ∀ b ∈ (c :: cs).reverse, isBrace b = false := fun b hb => h b (List.mem_reverse.1 hb)
    have hfront := dropWhile_isBrace h [] (by simp)
    have hback := dropWhile_isBrace hreverse [] (by simp)
    rw [List.append_nil] at hfront hback
    rw [stripBraces, hfront, hback, List.reverse_reverse]

/-- 32 digits, upper or lower case, with hyphens anywhere. -/
structure Spelling (u : Uuid) (cs : List Char) : Prop where
  digits : ∀ c ∈ cs, c = '-' ∨ isHex c = true
  length : (cs.filter (· ≠ '-')).length = 32
  value : hexNumber 0 (cs.filter (· ≠ '-')) = u.int

namespace Spelling
variable {u : Uuid} {cs : List Char}

theorem not_mem (h : Spelling u cs) {b : Char} (hne : b ≠ '-') (hhex : isHex b = false) : b ∉ cs := by
  intro hmem
  rcases h.digits b hmem with heq | hb
  · exact hne heq
  · rw [hhex] at hb
    cases hb

theorem isBrace (h : Spelling u cs) : ∀ c ∈ cs, isBrace c = false := by
  intro c hc
  have hopen : c ≠ '{' := fun heq => h.not_mem (b := '{') (by decide) (by decide) (heq ▸ hc)
  have hclose : c ≠ '}' := fun heq => h.not_mem (b := '}') (by decide) (by decide) (heq ▸ hc)
  simp [Uuid.isBrace, hopen, hclose]

/-- What is left of a text, once it is a spelling, reads as the number. -/
theorem parse (h : Spelling u cs) (table : UnicodeTable) {text : String}
    (htext : Uuid.digits text = cs.filter (· ≠ '-')) : Uuid.parse table text = some u := by
  have hhex : ∀ c ∈ cs.filter (· ≠ '-'), isHex c = true := by
    intro c hc
    obtain ⟨hmem, hne⟩ := List.mem_filter.1 hc
    exact (h.digits c hmem).resolve_left (by simpa using hne)
  have hne : cs.filter (· ≠ '-') ≠ [] := by
    intro hnil
    have hlength := h.length
    rw [hnil] at hlength
    cases hlength
  rw [Uuid.parse, htext, if_neg (by simpa using h.length), Int16.parse_of_isHex table hhex hne, h.value]
  simp only [u.int_lt, dif_pos]

end Spelling

theorem digits_ofList (cs : List Char) : digits (String.ofList cs) =
    (stripBraces (remove "uuid:".toList 0 (remove "urn:".toList 0 cs))).filter (· ≠ '-') := by
  have htoList : (String.ofList cs).toList = cs := String.toList_ofList
  rw [digits, htoList]

/-- A spelling is read with or without braces or `urn:uuid:` around it. -/
theorem parse_of_spelling (table : UnicodeTable) {u : Uuid} {cs : List Char} (h : Spelling u cs) :
    parse table (String.ofList cs) = some u ∧ parse table (String.ofList ('{' :: (cs ++ ['}']))) = some u ∧
      parse table (String.ofList ("urn:uuid:".toList ++ cs)) = some u := by
  have hcolon : ':' ∉ cs := h.not_mem (by decide) (by decide)
  have hremove : ∀ {pattern l : List Char}, ':' ∈ pattern → ':' ∉ l → remove pattern 0 l = l := remove_of_not_mem
  have hurn : remove "urn:".toList 0 cs = cs := hremove (by decide) hcolon
  have huuid : remove "uuid:".toList 0 cs = cs := hremove (by decide) hcolon
  refine ⟨h.parse table ?_, h.parse table ?_, h.parse table ?_⟩
  · rw [digits_ofList, hurn, huuid, stripBraces_of_forall h.isBrace]
  · have hcolon' : ':' ∉ '{' :: (cs ++ ['}']) := by simp [hcolon]
    have hurn' : remove "urn:".toList 0 ('{' :: (cs ++ ['}'])) = '{' :: (cs ++ ['}']) := hremove (by decide) hcolon'
    have huuid' : remove "uuid:".toList 0 ('{' :: (cs ++ ['}'])) = '{' :: (cs ++ ['}']) := hremove (by decide) hcolon'
    have hne : cs ≠ [] := by
      rintro rfl
      cases h.length
    rw [digits_ofList, hurn', huuid', stripBraces_braces h.isBrace hne]
  · have hurn' : remove "urn:".toList 0 ("urn:uuid:".toList ++ cs) = "uuid:".toList ++ remove "urn:".toList 0 cs := by
      simp [remove]
    have huuid' : remove "uuid:".toList 0 ("uuid:".toList ++ cs) = remove "uuid:".toList 0 cs := by
      simp [remove]
    rw [digits_ofList, hurn', hurn, huuid', huuid, stripBraces_of_forall h.isBrace]

theorem length_hex (width n : ℕ) : (hex width n).length = width := by
  induction width generalizing n with
  | zero => rfl
  | succ width ih => rw [hex, List.length_append, ih]; rfl

theorem isHex_of_mem_hex {width n : ℕ} {c : Char} (h : c ∈ hex width n) : isHex c = true := by
  induction width generalizing n with
  | zero => cases h
  | succ width ih =>
    rw [hex, List.mem_append, List.mem_singleton] at h
    rcases h with h | rfl
    · exact ih h
    · exact isHex_hexDigit (Nat.mod_lt n (by decide))

theorem hexNumber_hex {width n : ℕ} (h : n < 16 ^ width) : hexNumber 0 (hex width n) = n := by
  induction width generalizing n with
  | zero =>
    rw [pow_zero] at h
    have : n = 0 := by omega
    subst this
    rfl
  | succ width ih =>
    have hdiv : n / 16 < 16 ^ width := by
      rw [pow_succ] at h
      omega
    have hdigit : (hexValue (hexDigit (n % 16))).getD 0 = n % 16 := by
      rw [hexValue_hexDigit (Nat.mod_lt n (by decide))]
      rfl
    rw [hex, hexNumber_append, ih hdiv]
    show 16 * (n / 16) + (hexValue (hexDigit (n % 16))).getD 0 = n
    rw [hdigit]
    omega

theorem filter_hyphenate {cs : List Char} (h : ∀ c ∈ cs, isHex c = true) : (hyphenate cs).filter (· ≠ '-') = cs := by
  have hkeep : ∀ l : List Char, l ⊆ cs → l.filter (· ≠ '-') = l := by
    intro l hl
    refine List.filter_eq_self.2 fun c hc => ?_
    have hhex := h c (hl hc)
    have hne : c ≠ '-' := by
      rintro rfl
      cases hhex
    simpa using hne
  have htake : ∀ n m, (cs.drop n).take m ⊆ cs := fun n m c hc =>
    List.mem_of_mem_drop (List.mem_of_mem_take hc)
  have hsplit : cs = cs.take 8 ++ ((cs.drop 8).take 4 ++ ((cs.drop 12).take 4 ++ ((cs.drop 16).take 4 ++ cs.drop 20))) := by
    have hstep : ∀ n m, cs.drop n = (cs.drop n).take m ++ cs.drop (n + m) := by
      intro n m
      rw [← List.drop_drop, List.take_append_drop]
    rw [← hstep 16 4, ← hstep 12 4, ← hstep 8 4, List.take_append_drop]
  rw [hyphenate]
  simp only [List.filter_append, List.filter_cons, hkeep _ (List.take_subset 8 cs), hkeep _ (htake _ _),
    hkeep _ (List.drop_subset 20 cs)]
  simpa using hsplit.symm

theorem isHex_of_mem_hyphenate {cs : List Char} (h : ∀ c ∈ cs, isHex c = true) :
    ∀ c ∈ hyphenate cs, c = '-' ∨ isHex c = true := by
  intro c hc
  simp only [hyphenate, List.mem_append, List.mem_cons] at hc
  rcases hc with hc | hc | hc | hc | hc | hc | hc | hc | hc
  · exact .inr (h c (List.mem_of_mem_take hc))
  · exact .inl hc
  · exact .inr (h c (List.mem_of_mem_drop (List.mem_of_mem_take hc)))
  · exact .inl hc
  · exact .inr (h c (List.mem_of_mem_drop (List.mem_of_mem_take hc)))
  · exact .inl hc
  · exact .inr (h c (List.mem_of_mem_drop (List.mem_of_mem_take hc)))
  · exact .inl hc
  · exact .inr (h c (List.mem_of_mem_drop hc))

/-- What `str` writes is a spelling. -/
theorem spelling_hyphenate (u : Uuid) : Spelling u (hyphenate (hex 32 u.int)) := by
  have hhex : ∀ c ∈ hex 32 u.int, isHex c = true := fun c hc => isHex_of_mem_hex hc
  have hfilter := filter_hyphenate hhex
  exact ⟨isHex_of_mem_hyphenate hhex, by rw [hfilter, length_hex], by rw [hfilter, hexNumber_hex u.int_lt]⟩

/-- `UUID(str(uuid)) == uuid`. -/
theorem parse_text (table : UnicodeTable) (u : Uuid) : parse table u.text = some u :=
  (parse_of_spelling table u.spelling_hyphenate).1

theorem toList_text (u : Uuid) : u.text.toList = hyphenate (hex 32 u.int) := String.toList_ofList

theorem mem_text {u : Uuid} {c : Char} (h : c ∈ u.text.toList) : c = '-' ∨ isHex c = true := by
  rw [toList_text] at h
  exact u.spelling_hyphenate.digits c h

theorem text_ne_nil (u : Uuid) : u.text.toList ≠ [] := by
  rw [toList_text, hyphenate]
  simp

end Uuid

end Python
