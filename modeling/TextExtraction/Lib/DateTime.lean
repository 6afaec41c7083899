import Mathlib.Data.List.Lex
import Mathlib.Data.Nat.Digits.Defs
import Mathlib.Data.String.Basic
import Mathlib.Order.Hom.Basic

/-!
# UTC datetimes and their ISO texts

Python's `datetime` in the UTC time zone, the instant it stands for on the proleptic Gregorian
calendar, and the text `isoformat` writes. A database compares such texts byte by byte (`Text`). Both
the instant and the text go up with the calendar fields read from the year down (`fields`), so the
texts compare like the instants: `isoText` is an order embedding.
-/

namespace Python

/-! ### Texts compared byte by byte -/

/-- The UTF-8 encoding. -/
def utf8 (s : String) : List ℕ := s.toByteArray.data.toList.map UInt8.toNat

theorem utf8_append (s t : String) : utf8 (s ++ t) = utf8 s ++ utf8 t := by
  simp [utf8, String.toByteArray_append, ByteArray.data_append]

theorem utf8_injective : Function.Injective utf8 := by
  intro s t h
  have hbytes : s.toByteArray.data.toList = t.toByteArray.data.toList :=
    List.map_injective_iff.2 (fun a b hab => UInt8.toNat_inj.1 hab) h
  exact String.toByteArray_inj.1 (ByteArray.ext (Array.toList_inj.1 hbytes))

/-- A stored text. It compares as its bytes do. -/
structure Text where
  string : String
deriving DecidableEq

instance : LinearOrder Text :=
  LinearOrder.lift' (fun t => utf8 t.string) fun a b h => by
    cases a; cases b
    exact congrArg Text.mk (utf8_injective h)

theorem Text.lt_iff {a b : Text} : a < b ↔ utf8 a.string < utf8 b.string := Iff.rfl

theorem utf8_append_lt (u : String) {s t : String} (h : utf8 s < utf8 t) :
    utf8 (u ++ s) < utf8 (u ++ t) := by
  rw [utf8_append, utf8_append]
  exact List.Lex.append_left _ h _

/-! ### Zero padded numbers -/

/-- `%0{width}d`, of a number with at most that many digits. -/
def zeroPadded : ℕ → ℕ → String
  | 0, _ => ""
  | width + 1, n =>
    String.singleton (Nat.digitChar (n / 10 ^ width)) ++ zeroPadded width (n % 10 ^ width)

@[simp] theorem length_zeroPadded (width n : ℕ) : (zeroPadded width n).length = width := by
  induction width generalizing n with
  | zero => rfl
  | succ width ih => simp only [zeroPadded, String.length_append, String.length_singleton, ih]; omega

theorem utf8_digitChar {d : ℕ} (h : d < 10) : utf8 (String.singleton (Nat.digitChar d)) = [48 + d] := by
  have hdigits : ∀ d < 10, utf8 (String.singleton (Nat.digitChar d)) = [48 + d] := by decide
  exact hdigits d h

/-- Padded to one width, the digits decide before what follows them. -/
theorem zeroPadded_lt {width x y : ℕ} {s t : String} (hx : x < 10 ^ width) (hy : y < 10 ^ width)
    (h : x < y ∨ x = y ∧ utf8 s < utf8 t) :
    utf8 (zeroPadded width x ++ s) < utf8 (zeroPadded width y ++ t) := by
  induction width generalizing x y with
  | zero =>
    have hst : utf8 s < utf8 t := by
      rcases h with hlt | ⟨-, hst⟩
      · simp only [pow_zero] at hx hy
        omega
      · exact hst
    simpa [zeroPadded] using hst
  | succ width ih =>
    have hpos : 0 < 10 ^ width := by positivity
    have hdx : x / 10 ^ width < 10 := Nat.div_lt_of_lt_mul (by rwa [pow_succ] at hx)
    have hdy : y / 10 ^ width < 10 := Nat.div_lt_of_lt_mul (by rwa [pow_succ] at hy)
    have hx' := Nat.div_add_mod x (10 ^ width)
    have hy' := Nat.div_add_mod y (10 ^ width)
    have hle : x / 10 ^ width ≤ y / 10 ^ width :=
      Nat.div_le_div_right (by rcases h with hlt | ⟨rfl, -⟩ <;> omega)
    simp only [zeroPadded, String.append_assoc, utf8_append _ (_ ++ _), utf8_digitChar hdx,
      utf8_digitChar hdy, List.singleton_append, List.cons_lt_cons_iff]
    rcases hle.lt_or_eq with hlt | heq
    · exact .inl (by omega)
    · refine .inr ⟨by omega, ih (Nat.mod_lt _ hpos) (Nat.mod_lt _ hpos) ?_⟩
      rw [heq] at hx'
      rcases h with hlt | ⟨rfl, hst⟩
      · exact .inl (by omega)
      · exact .inr ⟨rfl, hst⟩

/-- A padded number, a separator, and a rest that decides between equal numbers. -/
theorem zeroPadded_sep_lt {width x y : ℕ} {s t : String} {rest : Prop} (sep : String)
    (hx : x < 10 ^ width) (hy : y < 10 ^ width) (h : x < y ∨ x = y ∧ rest)
    (hst : rest → utf8 s < utf8 t) :
    utf8 (zeroPadded width x ++ (sep ++ s)) < utf8 (zeroPadded width y ++ (sep ++ t)) :=
  zeroPadded_lt hx hy (h.imp_right (And.imp_right fun hr => utf8_append_lt sep (hst hr)))

/-! ### The calendar -/

/-- `_is_leap`. -/
def isLeap (year : ℕ) : Bool := year % 4 = 0 ∧ (year % 100 ≠ 0 ∨ year % 400 = 0)

/-- `_days_in_month`, of the months 1 to 12. -/
def daysInMonth (year : ℕ) : ℕ → ℕ
  | 2 => if isLeap year then 29 else 28
  | 4 | 6 | 9 | 11 => 30
  | _ => 31

/-- `_days_before_year`. -/
def daysBeforeYear (year : ℕ) : ℕ :=
  (year - 1) * 365 + (year - 1) / 4 - (year - 1) / 100 + (year - 1) / 400

/-- `_days_before_month`. -/
def daysBeforeMonth (year month : ℕ) : ℕ :=
  ((List.range (month - 1)).map fun m => daysInMonth year (m + 1)).sum

/-- A `datetime` whose `tzinfo` is `timezone.utc`. -/
structure DateTime where
  year : ℕ
  month : ℕ
  day : ℕ
  hour : ℕ
  minute : ℕ
  second : ℕ
  microsecond : ℕ
  year_mem : 1 ≤ year ∧ year ≤ 9999
  month_mem : 1 ≤ month ∧ month ≤ 12
  day_mem : 1 ≤ day ∧ day ≤ daysInMonth year month
  hour_lt : hour < 24
  minute_lt : minute < 60
  second_lt : second < 60
  microsecond_lt : microsecond < 1000000
deriving DecidableEq

namespace DateTime

/-- `toordinal`: January 1st of the year 1 is day 1. -/
def toOrdinal (d : DateTime) : ℕ := daysBeforeYear d.year + daysBeforeMonth d.year d.month + d.day

/-- The microseconds on the time line, from one day before the year 1. -/
def instant (d : DateTime) : ℕ :=
  (((d.toOrdinal * 24 + d.hour) * 60 + d.minute) * 60 + d.second) * 1000000 + d.microsecond

/-- `%04d-%02d-%02dT%02d:%02d:%02d`. -/
def wholeSeconds (d : DateTime) : String :=
  zeroPadded 4 d.year ++ "-" ++ zeroPadded 2 d.month ++ "-" ++ zeroPadded 2 d.day ++ "T" ++
    zeroPadded 2 d.hour ++ ":" ++ zeroPadded 2 d.minute ++ ":" ++ zeroPadded 2 d.second

/-- `isoformat`. -/
def isoformat (d : DateTime) : String :=
  d.wholeSeconds ++ (if d.microsecond = 0 then "" else "." ++ zeroPadded 6 d.microsecond) ++ "+00:00"

/-- The fields in the order of their weight. -/
def fields (d : DateTime) : List ℕ :=
  [d.year, d.month, d.day, d.hour, d.minute, d.second, d.microsecond]

theorem fields_injective : Function.Injective fields := by
  rintro ⟨⟩ ⟨⟩ h
  simp only [fields, List.cons.injEq, and_true] at h
  obtain ⟨rfl, rfl, rfl, rfl, rfl, rfl, rfl⟩ := h
  rfl

/-- What goes up with the fields compares like the fields. -/
theorem lt_iff_fields {β : Type} [LinearOrder β] {f : DateTime → β}
    (hf : ∀ a b : DateTime, a.fields < b.fields → f a < f b) (a b : DateTime) :
    f a < f b ↔ a.fields < b.fields := by
  refine ⟨fun h => ?_, hf a b⟩
  rcases lt_trichotomy a.fields b.fields with hlt | heq | hgt
  · exact hlt
  · rw [fields_injective heq] at h
    exact absurd h (lt_irrefl _)
  · exact absurd h (lt_asymm (hf b a hgt))

theorem injective_of_fields {β : Type} [LinearOrder β] {f : DateTime → β}
    (hf : ∀ a b : DateTime, a.fields < b.fields → f a < f b) : Function.Injective f := by
  intro a b h
  rcases lt_trichotomy a.fields b.fields with hlt | heq | hgt
  · exact absurd h (hf a b hlt).ne
  · exact fields_injective heq
  · exact absurd h (hf b a hgt).ne'

/-! ### Instants -/

theorem succ_div_eq (n k : ℕ) : (n + 1) / k = n / k + if (n + 1) % k = 0 then 1 else 0 := by
  rw [Nat.succ_div]
  simp only [Nat.dvd_iff_mod_eq_zero]

theorem daysBeforeYear_succ (year : ℕ) (h : 1 ≤ year) :
    daysBeforeYear (year + 1) = daysBeforeYear year + if isLeap year then 366 else 365 := by
  obtain ⟨y, rfl⟩ := Nat.exists_eq_add_of_le' h
  have hle : y / 100 ≤ y / 4 := Nat.div_le_div_left (by norm_num) (by norm_num)
  -- a century ends a span of four years, and four centuries end one
  have h100 : (y + 1) % 100 = 0 → (y + 1) % 4 = 0 := by omega
  have h400 : (y + 1) % 400 = 0 → (y + 1) % 100 = 0 := by omega
  simp only [daysBeforeYear, isLeap, Nat.add_sub_cancel, succ_div_eq y, decide_eq_true_eq]
  generalize y / 4 = q₄ at hle ⊢
  generalize y / 100 = q₁₀₀ at hle ⊢
  generalize y / 400 = q₄₀₀
  split_ifs <;> omega

theorem daysBeforeYear_mono {y y' : ℕ} (h : 1 ≤ y) (hy : y < y') :
    daysBeforeYear y + (if isLeap y then 366 else 365) ≤ daysBeforeYear y' := by
  induction y', hy using Nat.le_induction with
  | base => exact (daysBeforeYear_succ y h).ge
  | succ y' hy ih =>
    have hsucc := daysBeforeYear_succ y' (by omega)
    omega

theorem daysBeforeMonth_succ (year month : ℕ) (h : 1 ≤ month) :
    daysBeforeMonth year (month + 1) = daysBeforeMonth year month + daysInMonth year month := by
  obtain ⟨m, rfl⟩ := Nat.exists_eq_add_of_le' h
  simp [daysBeforeMonth, List.range_succ]

theorem daysBeforeMonth_mono (year : ℕ) {m m' : ℕ} (h : 1 ≤ m) (hm : m < m') :
    daysBeforeMonth year m + daysInMonth year m ≤ daysBeforeMonth year m' := by
  induction m', hm using Nat.le_induction with
  | base => exact (daysBeforeMonth_succ year m h).ge
  | succ m' hm ih =>
    have hsucc := daysBeforeMonth_succ year m' (by omega)
    omega

/-- The twelve months fill the year. -/
theorem daysBeforeMonth_thirteen (year : ℕ) :
    daysBeforeMonth year 13 = if isLeap year then 366 else 365 := by
  cases h : isLeap year <;> simp [daysBeforeMonth, daysInMonth, List.range_succ, h]

theorem dayOfYear_le (d : DateTime) :
    daysBeforeMonth d.year d.month + d.day ≤ if isLeap d.year then 366 else 365 := by
  have hday := d.day_mem
  have hmonth := d.month_mem
  have hlast := daysBeforeMonth_mono d.year hmonth.1 (show d.month < 13 by omega)
  rw [daysBeforeMonth_thirteen] at hlast
  omega

theorem toOrdinal_lt {a b : DateTime} (h : [a.year, a.month, a.day] < [b.year, b.month, b.day]) :
    a.toOrdinal < b.toOrdinal := by
  simp only [List.cons_lt_cons_iff, List.not_lt_nil, and_false, or_false] at h
  have hb := b.day_mem
  simp only [toOrdinal]
  rcases h with hyear | ⟨hyear, hmonth | ⟨hmonth, hday⟩⟩
  · have hstart := daysBeforeYear_mono a.year_mem.1 hyear
    have hin := a.dayOfYear_le
    omega
  · have hstart := daysBeforeMonth_mono a.year a.month_mem.1 hmonth
    have hin := a.day_mem
    rw [← hyear]
    omega
  · rw [← hyear, ← hmonth]
    omega

theorem instant_lt_of_toOrdinal {a b : DateTime} (h : a.toOrdinal < b.toOrdinal) :
    a.instant < b.instant := by
  have h₁ := a.hour_lt
  have h₂ := a.minute_lt
  have h₃ := a.second_lt
  have h₄ := a.microsecond_lt
  simp only [instant]
  omega

theorem fields_lt_iff {a b : DateTime} :
    a.fields < b.fields ↔ [a.year, a.month, a.day] < [b.year, b.month, b.day] ∨
      [a.year, a.month, a.day] = [b.year, b.month, b.day] ∧
        [a.hour, a.minute, a.second, a.microsecond] < [b.hour, b.minute, b.second, b.microsecond] := by
  simp only [fields, List.cons_lt_cons_iff, List.not_lt_nil, and_false, or_false, List.cons.injEq,
    and_true]
  tauto

/-- The instant goes up with the fields. -/
theorem instant_lt {a b : DateTime} (h : a.fields < b.fields) : a.instant < b.instant := by
  rcases fields_lt_iff.1 h with hdate | ⟨hdate, htime⟩
  · exact instant_lt_of_toOrdinal (toOrdinal_lt hdate)
  · have hday : a.toOrdinal = b.toOrdinal := by
      simp only [List.cons.injEq, and_true] at hdate
      obtain ⟨hyear, hmonth, hday⟩ := hdate
      simp only [toOrdinal, hyear, hmonth, hday]
    simp only [List.cons_lt_cons_iff, List.not_lt_nil, and_false, or_false] at htime
    have h₂ := a.minute_lt
    have h₃ := a.second_lt
    have h₄ := a.microsecond_lt
    simp only [instant]
    omega

instance : LinearOrder DateTime :=
  LinearOrder.lift' instant (injective_of_fields fun _ _ => instant_lt)

theorem lt_iff {a b : DateTime} : a < b ↔ a.instant < b.instant := Iff.rfl

theorem lt_iff_fields_lt {a b : DateTime} : a < b ↔ a.fields < b.fields :=
  lt_iff_fields (fun _ _ => instant_lt) a b

/-! ### Texts -/

/-- The fraction of a second and the offset, as `isoformat` ends. -/
theorem fraction_lt {x y : ℕ} (hx : x < 1000000) (hy : y < 1000000) (h : x < y) :
    utf8 ((if x = 0 then "" else "." ++ zeroPadded 6 x) ++ "+00:00") <
      utf8 ((if y = 0 then "" else "." ++ zeroPadded 6 y) ++ "+00:00") := by
  rw [if_neg (show ¬ y = 0 by omega), String.append_assoc]
  split
  next =>
    -- no fraction: the sign of the offset against the point
    rw [utf8_append, utf8_append]
    exact List.Lex.rel (by decide)
  next =>
    rw [String.append_assoc]
    exact utf8_append_lt _ (zeroPadded_lt hx hy (.inl h))

theorem day_le (d : DateTime) : d.day ≤ 31 := by
  refine d.day_mem.2.trans ?_
  unfold daysInMonth
  split
  · split <;> omega
  · omega
  · omega
  · omega
  · omega
  · omega

@[simp] theorem length_wholeSeconds (d : DateTime) : d.wholeSeconds.length = 19 := by
  simp only [wholeSeconds, String.length_append, length_zeroPadded]
  rfl

/-- Two shapes of text. -/
theorem isoformat_eq (d : DateTime) :
    d.isoformat =
      if d.microsecond = 0 then d.wholeSeconds ++ "+00:00"
      else d.wholeSeconds ++ "." ++ zeroPadded 6 d.microsecond ++ "+00:00" := by
  unfold isoformat
  split
  · rw [String.append_empty]
  · rw [← String.append_assoc]

/-- The text goes up with the fields. -/
theorem isoformat_lt {a b : DateTime} (h : a.fields < b.fields) :
    utf8 a.isoformat < utf8 b.isoformat := by
  have hyear (d : DateTime) : d.year < 10 ^ 4 := Nat.lt_succ_of_le d.year_mem.2
  have hmonth (d : DateTime) : d.month < 10 ^ 2 := d.month_mem.2.trans_lt (by norm_num)
  have hday (d : DateTime) : d.day < 10 ^ 2 := d.day_le.trans_lt (by norm_num)
  have hhour (d : DateTime) : d.hour < 10 ^ 2 := d.hour_lt.trans (by norm_num)
  have hminute (d : DateTime) : d.minute < 10 ^ 2 := d.minute_lt.trans (by norm_num)
  have hsecond (d : DateTime) : d.second < 10 ^ 2 := d.second_lt.trans (by norm_num)
  simp only [fields, List.cons_lt_cons_iff, List.not_lt_nil, and_false, or_false] at h
  simp only [isoformat, wholeSeconds, String.append_assoc]
  refine zeroPadded_sep_lt "-" (hyear a) (hyear b) h fun h => ?_
  refine zeroPadded_sep_lt "-" (hmonth a) (hmonth b) h fun h => ?_
  refine zeroPadded_sep_lt "T" (hday a) (hday b) h fun h => ?_
  refine zeroPadded_sep_lt ":" (hhour a) (hhour b) h fun h => ?_
  refine zeroPadded_sep_lt ":" (hminute a) (hminute b) h fun h => ?_
  refine zeroPadded_lt (hsecond a) (hsecond b) (h.imp_right (And.imp_right fun h => ?_))
  exact fraction_lt a.microsecond_lt b.microsecond_lt h

/-- The text column an instant is stored in. -/
def stamp (d : DateTime) : Text := ⟨d.isoformat⟩

example : (stamp ⟨2024, 2, 29, 7, 5, 0, 1200, by decide, by decide, by decide, by decide, by decide, by decide,
    by decide⟩).string = "2024-02-29T07:05:00.001200+00:00" := by decide

theorem strictMono_stamp : StrictMono stamp := by
  intro a b h
  have htext := isoformat_lt (lt_iff_fields_lt.1 h)
  exact Text.lt_iff.2 htext

/-- Stored timestamps compare like the instants. -/
def isoText : DateTime ↪o Text := OrderEmbedding.ofStrictMono stamp strictMono_stamp

theorem isoformat_lt_iff (a b : DateTime) :
    utf8 a.isoformat < utf8 b.isoformat ↔ a.instant < b.instant := by
  rw [lt_iff_fields (fun _ _ => isoformat_lt) a b, lt_iff_fields (fun _ _ => instant_lt) a b]

theorem isoformat_inj (a b : DateTime) : a.isoformat = b.isoformat ↔ a.instant = b.instant := by
  constructor
  · intro h
    have hstamp : isoText a = isoText b := congrArg Text.mk h
    rw [isoText.injective hstamp]
  · intro h
    rw [injective_of_fields (fun _ _ => instant_lt) h]

end DateTime

end Python
