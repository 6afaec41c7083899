import Mathlib.Tactic.IntervalCases
import TextExtraction.Lib.DateTime
import TextExtraction.Lib.PyValue

/-!
# Datetime arithmetic and the reading of ISO texts

`datetime + timedelta` goes to the time line and back: a day number is taken apart into year, month and
day by the cycles of 400, 100, 4 and 1 years (`ord2ymd`). The way back is exact on the days a `datetime`
can name and raises outside them. `fromisoformat` reads a text field by field; it returns every datetime
from the text `isoformat` wrote.
-/

namespace Python

/-! ### Day numbers -/

/-- The year a day falls in, and how many days of that year came before it. -/
def yearDay (ordinal : ℕ) : ℕ × ℕ :=
  let n := ordinal - 1
  let n400 := n / 146097
  let n100 := n % 146097 / 36524
  let n4 := n % 146097 % 36524 / 1461
  let n1 := n % 146097 % 36524 % 1461 / 365
  let year := n400 * 400 + 1 + n100 * 100 + n4 * 4 + n1
  -- the last day of a span of four or of 400 years
  if n1 = 4 ∨ n100 = 4 then (year - 1, 365)
  else (year, n % 146097 % 36524 % 1461 % 365)

/-- The month and the day of the month, from the days of the year before it. The estimate of the month
is exact or one too large. -/
def monthDay (year n : ℕ) : ℕ × ℕ :=
  let month := (n + 50) / 32
  if daysBeforeMonth year month > n then (month - 1, n - daysBeforeMonth year (month - 1) + 1)
  else (month, n - daysBeforeMonth year month + 1)

/-- `_ord2ymd`. -/
def ord2ymd (ordinal : ℕ) : ℕ × ℕ × ℕ := ((yearDay ordinal).1, monthDay (yearDay ordinal).1 (yearDay ordinal).2)

/-- `_MAXORDINAL`: December 31st of the year 9999. -/
def maxOrdinal : ℕ := 3652059

theorem isLeap_iff (year : ℕ) : isLeap year = true ↔ year % 4 = 0 ∧ (year % 100 ≠ 0 ∨ year % 400 = 0) := by
  simp [isLeap]

/-- The cycles of the calendar, with the year counted from 0. -/
theorem daysBeforeYear_cycles (n400 : ℕ) {n100 n4 n1 : ℕ} (h100 : n100 < 4) (h4 : n4 < 25) (h1 : n1 < 4) :
    daysBeforeYear (n400 * 400 + 1 + n100 * 100 + n4 * 4 + n1) =
      n400 * 146097 + n100 * 36524 + n4 * 1461 + n1 * 365 := by
  unfold daysBeforeYear
  omega

theorem isLeap_cycles (n400 : ℕ) {n100 n4 n1 : ℕ} (h100 : n100 < 4) (h4 : n4 < 25) (h1 : n1 < 4) :
    isLeap (n400 * 400 + 1 + n100 * 100 + n4 * 4 + n1) = true ↔ n1 = 3 ∧ (n4 ≠ 24 ∨ n100 = 3) := by
  rw [isLeap_iff]
  omega

/-- A day is the first day of its year and as many days more. -/
theorem yearDay_spec {ordinal : ℕ} (h : 1 ≤ ordinal) :
    1 ≤ (yearDay ordinal).1 ∧
      ordinal = daysBeforeYear (yearDay ordinal).1 + (yearDay ordinal).2 + 1 ∧
      (yearDay ordinal).2 < if isLeap (yearDay ordinal).1 then 366 else 365 := by
  obtain ⟨n, rfl⟩ := Nat.exists_eq_add_of_le' h
  have hn := Nat.div_add_mod n 146097
  have hlt := Nat.mod_lt n (show 0 < 146097 by norm_num)
  unfold yearDay
  simp only [Nat.add_sub_cancel]
  generalize n / 146097 = n400 at hn ⊢
  generalize n % 146097 = r400 at hn hlt ⊢
  have hr400 := Nat.div_add_mod r400 36524
  have hlt100 := Nat.mod_lt r400 (show 0 < 36524 by norm_num)
  generalize r400 / 36524 = n100 at hr400 ⊢
  generalize r400 % 36524 = r100 at hr400 hlt100 ⊢
  have hr100 := Nat.div_add_mod r100 1461
  have hlt4 := Nat.mod_lt r100 (show 0 < 1461 by norm_num)
  generalize r100 / 1461 = n4 at hr100 ⊢
  generalize r100 % 1461 = r4 at hr100 hlt4 ⊢
  have hr4 := Nat.div_add_mod r4 365
  have hlt1 := Nat.mod_lt r4 (show 0 < 365 by norm_num)
  generalize r4 / 365 = n1 at hr4 ⊢
  generalize r4 % 365 = r1 at hr4 hlt1 ⊢
  split
  next hlast =>
    -- the year before the one the division gives
    rcases hlast with rfl | rfl
    · obtain rfl : r1 = 0 := by omega
      have h4 : n4 < 25 := by omega
      by_cases h100 : n100 < 4
      · have hyear : n400 * 400 + 1 + n100 * 100 + n4 * 4 + 4 - 1 =
            n400 * 400 + 1 + n100 * 100 + n4 * 4 + 3 := by omega
        have hdays := daysBeforeYear_cycles n400 h100 h4 (show 3 < 4 by omega)
        have hleap := isLeap_cycles n400 h100 h4 (show 3 < 4 by omega)
        simp only [hyear, hdays]
        rw [if_pos (hleap.2 ⟨rfl, by omega⟩)]
        omega
      · omega
    · obtain ⟨rfl, rfl, rfl⟩ : n4 = 0 ∧ n1 = 0 ∧ r1 = 0 := by omega
      have hyear : n400 * 400 + 1 + 4 * 100 + 0 * 4 + 0 - 1 = n400 * 400 + 1 + 3 * 100 + 24 * 4 + 3 := by omega
      have hdays := daysBeforeYear_cycles n400 (show 3 < 4 by omega) (show 24 < 25 by omega)
        (show 3 < 4 by omega)
      have hleap := isLeap_cycles n400 (show 3 < 4 by omega) (show 24 < 25 by omega)
        (show 3 < 4 by omega)
      simp only [hyear, hdays]
      rw [if_pos (hleap.2 ⟨rfl, .inr rfl⟩)]
      omega
  next hlast =>
    simp only [not_or] at hlast
    have h100 : n100 < 4 := by omega
    have h4 : n4 < 25 := by omega
    have h1 : n1 < 4 := by omega
    have hdays := daysBeforeYear_cycles n400 h100 h4 h1
    refine ⟨by omega, by simp only [hdays]; omega, ?_⟩
    simp only
    split <;> omega

/-- The days before the months, and the days in them. -/
theorem months_table (year : ℕ) :
    (List.range 12).map (fun m => daysBeforeMonth year (m + 1)) =
        (if isLeap year then [0, 31, 60, 91, 121, 152, 182, 213, 244, 274, 305, 335]
          else [0, 31, 59, 90, 120, 151, 181, 212, 243, 273, 304, 334]) ∧
      (List.range 12).map (fun m => daysInMonth year (m + 1)) =
        (if isLeap year then [31, 29, 31, 30, 31, 30, 31, 31, 30, 31, 30, 31]
          else [31, 28, 31, 30, 31, 30, 31, 31, 30, 31, 30, 31]) := by
  cases h : isLeap year <;> simp [daysBeforeMonth, daysInMonth, List.range_succ, h]

theorem monthDay_spec {year n : ℕ} (h : n < if isLeap year then 366 else 365) :
    (1 ≤ (monthDay year n).1 ∧ (monthDay year n).1 ≤ 12) ∧
      (1 ≤ (monthDay year n).2 ∧ (monthDay year n).2 ≤ daysInMonth year (monthDay year n).1) ∧
      daysBeforeMonth year (monthDay year n).1 + (monthDay year n).2 = n + 1 := by
  have hmonth := Nat.div_add_mod (n + 50) 32
  have hrest := Nat.mod_lt (n + 50) (show 0 < 32 by norm_num)
  unfold monthDay
  simp only
  generalize (n + 50) % 32 = r at hmonth hrest
  generalize (n + 50) / 32 = month at hmonth ⊢
  have hbefore := (months_table year).1
  have hin := (months_table year).2
  simp only [List.range_succ, List.range_zero, List.nil_append, List.cons_append, List.map_cons, List.map_nil,
    Nat.zero_add, Nat.reduceAdd] at hbefore hin
  have hle : month ≤ 12 := by split at h <;> omega
  have hge : 1 ≤ month := by omega
  cases hleap : isLeap year with
  | true =>
    simp only [hleap, if_true, List.cons.injEq, and_true] at hbefore hin h
    interval_cases month <;> split <;> simp only [Nat.reduceSub, hbefore, hin] at * <;> omega
  | false =>
    simp only [hleap, Bool.false_eq_true, if_false, List.cons.injEq, and_true] at hbefore hin h
    interval_cases month <;> split <;> simp only [Nat.reduceSub, hbefore, hin] at * <;> omega

theorem daysBeforeYear_le {y y' : ℕ} (h : 1 ≤ y) (hy : y ≤ y') : daysBeforeYear y ≤ daysBeforeYear y' := by
  rcases hy.eq_or_lt with rfl | hlt
  · exact le_rfl
  · have := DateTime.daysBeforeYear_mono h hlt
    omega

theorem year_le_of_ordinal {ordinal : ℕ} (h : 1 ≤ ordinal) (hmax : ordinal ≤ maxOrdinal) :
    (yearDay ordinal).1 ≤ 9999 := by
  obtain ⟨-, heq, -⟩ := yearDay_spec h
  by_contra hyear
  have hle : daysBeforeYear 10000 ≤ daysBeforeYear (yearDay ordinal).1 :=
    daysBeforeYear_le (by norm_num) (by omega)
  have hlast : daysBeforeYear 10000 = maxOrdinal := by decide
  omega

namespace DateTime

/-! ### The time line -/

/-- Microseconds in a day. -/
def dayLength : ℕ := 86400000000

/-- The datetime at an instant. -/
def ofInstant (n : ℕ) : Option DateTime :=
  if h : 1 ≤ n / dayLength ∧ n / dayLength ≤ maxOrdinal then
    some {
      year := (ord2ymd (n / dayLength)).1
      month := (ord2ymd (n / dayLength)).2.1
      day := (ord2ymd (n / dayLength)).2.2
      hour := n / 3600000000 % 24
      minute := n / 60000000 % 60
      second := n / 1000000 % 60
      microsecond := n % 1000000
      year_mem := ⟨(yearDay_spec h.1).1, year_le_of_ordinal h.1 h.2⟩
      month_mem := (monthDay_spec (yearDay_spec h.1).2.2).1
      day_mem := (monthDay_spec (yearDay_spec h.1).2.2).2.1
      hour_lt := Nat.mod_lt _ (by norm_num)
      minute_lt := Nat.mod_lt _ (by norm_num)
      second_lt := Nat.mod_lt _ (by norm_num)
      microsecond_lt := Nat.mod_lt _ (by norm_num) }
  else none

theorem instant_of_ofInstant {n : ℕ} {d : DateTime} (h : ofInstant n = some d) : d.instant = n := by
  unfold ofInstant at h
  split at h
  next hday =>
    have heq := (yearDay_spec hday.1).2.1
    have hmonth := (monthDay_spec (yearDay_spec hday.1).2.2).2.2
    have hord : d.toOrdinal = n / dayLength := by
      rw [← Option.some.inj h]
      simp only [toOrdinal, ord2ymd]
      omega
    rw [instant, hord, ← Option.some.inj h]
    simp only [dayLength]
    omega
  next => cases h

theorem toOrdinal_mem (d : DateTime) : 1 ≤ d.toOrdinal ∧ d.toOrdinal ≤ maxOrdinal := by
  have hday := d.day_mem
  have hin := d.dayOfYear_le
  have hyear := daysBeforeYear_succ d.year d.year_mem.1
  have hle := daysBeforeYear_le (show 1 ≤ d.year + 1 by omega) (show d.year + 1 ≤ 10000 by have := d.year_mem; omega)
  have hlast : daysBeforeYear 10000 = maxOrdinal := by decide
  unfold toOrdinal
  omega

theorem instant_div (d : DateTime) : d.instant / dayLength = d.toOrdinal := by
  have h₁ := d.hour_lt
  have h₂ := d.minute_lt
  have h₃ := d.second_lt
  have h₄ := d.microsecond_lt
  simp only [instant, dayLength]
  omega

/-- The instants of datetimes are an interval. -/
theorem ofInstant_isSome_iff (n : ℕ) :
    (ofInstant n).isSome ↔ dayLength ≤ n ∧ n < (maxOrdinal + 1) * dayLength := by
  unfold ofInstant
  split
  next h => simp only [dayLength, maxOrdinal, Option.isSome_some, true_iff] at h ⊢; omega
  next h => simp only [dayLength, maxOrdinal, Option.isSome_none, Bool.false_eq_true, false_iff] at h ⊢; omega

/-- Every datetime is the one at its instant. -/
@[simp] theorem ofInstant_instant (d : DateTime) : ofInstant d.instant = some d := by
  have hmem := d.toOrdinal_mem
  have hdiv := d.instant_div
  have hsome : (ofInstant d.instant).isSome := by
    rw [ofInstant_isSome_iff]
    simp only [dayLength, maxOrdinal] at hmem hdiv ⊢
    omega
  obtain ⟨d', hd⟩ := Option.isSome_iff_exists.1 hsome
  rw [hd, injective_of_fields (fun _ _ => instant_lt) (instant_of_ofInstant hd)]

/-- `datetime + timedelta`, the difference in microseconds. -/
def add (d : DateTime) (delta : ℤ) : Except Exc DateTime :=
  match ofInstant (d.instant + delta).toNat with
  | some d => .ok d
  | none => .error (.raised .overflowError "date value out of range")

theorem instant_of_add {d d' : DateTime} {delta : ℤ} (h : d.add delta = .ok d') :
    (d'.instant : ℤ) = delta + d.instant := by
  unfold add at h
  split at h
  next d'' hd =>
    cases h
    have heq := instant_of_ofInstant hd
    have hpos := (ofInstant_isSome_iff d'.instant).1 (by simp)
    simp only [dayLength] at hpos
    omega
  next => cases h

theorem add_eq_ok_iff {d d' : DateTime} {delta : ℤ} :
    d.add delta = .ok d' ↔ (d'.instant : ℤ) = delta + d.instant := by
  refine ⟨instant_of_add, fun h => ?_⟩
  have hn : (d.instant + delta).toNat = d'.instant := by omega
  rw [add, hn, ofInstant_instant]

/-- A sum raises exactly when no datetime is at that instant. -/
theorem add_eq_error_iff {d : DateTime} {delta : ℤ} {e : Exc} :
    d.add delta = .error e ↔ e = .raised .overflowError "date value out of range" ∧
      ¬ ((dayLength : ℤ) ≤ delta + d.instant ∧ delta + d.instant < (maxOrdinal + 1) * dayLength) := by
  have hsome := ofInstant_isSome_iff (d.instant + delta).toNat
  unfold add
  cases h : ofInstant (d.instant + delta).toNat with
  | some d' =>
    simp only [h, Option.isSome_some, true_iff] at hsome
    simp only [dayLength, maxOrdinal] at hsome ⊢
    constructor
    · intro he; cases he
    · rintro ⟨-, hout⟩
      omega
  | none =>
    simp only [h, Option.isSome_none, Bool.false_eq_true, false_iff] at hsome
    simp only [dayLength, maxOrdinal] at hsome ⊢
    constructor
    · intro he
      cases he
      exact ⟨rfl, by omega⟩
    · rintro ⟨rfl, -⟩
      rfl

end DateTime

/-! ### Reading a text -/

/-- A decimal digit. -/
def digitValue (c : Char) : Option ℕ := if '0' ≤ c ∧ c ≤ '9' then some (c.toNat - 48) else none

/-- The next `width` characters as a number after the digits of `acc`. -/
def takeNumber : ℕ → ℕ → List Char → Option (ℕ × List Char)
  | 0, acc, cs => some (acc, cs)
  | _ + 1, _, [] => none
  | width + 1, acc, c :: cs =>
    match digitValue c with
    | none => none
    | some v => takeNumber width (acc * 10 + v) cs

/-- A separator. -/
def takeChar (c : Char) : List Char → Option (List Char)
  | [] => none
  | c' :: cs => if c' = c then some cs else none

/-- The microseconds: a point and six or three digits, or nothing. -/
def takeFraction : List Char → Option (ℕ × List Char)
  | '.' :: cs =>
    match takeNumber 6 0 cs with
    | some fraction => some fraction
    | none => (takeNumber 3 0 cs).map fun fraction => (fraction.1 * 1000, fraction.2)
  | cs => some (0, cs)

/-- The bounds the constructor of `datetime` checks. -/
def DateTime.ofFields (year month day hour minute second microsecond : ℕ) : Option DateTime :=
  if h : (1 ≤ year ∧ year ≤ 9999) ∧ (1 ≤ month ∧ month ≤ 12) ∧ (1 ≤ day ∧ day ≤ daysInMonth year month) ∧
      hour < 24 ∧ minute < 60 ∧ second < 60 ∧ microsecond < 1000000 then
    some ⟨year, month, day, hour, minute, second, microsecond, h.1, h.2.1, h.2.2.1, h.2.2.2.1,
      h.2.2.2.2.1, h.2.2.2.2.2.1, h.2.2.2.2.2.2⟩
  else none

/-- `_parse_isoformat_date`, and the rest of the text. -/
def takeDate (cs : List Char) : Option ((ℕ × ℕ × ℕ) × List Char) := do
  let (year, cs) ← takeNumber 4 0 cs
  let cs ← takeChar '-' cs
  let (month, cs) ← takeNumber 2 0 cs
  let cs ← takeChar '-' cs
  let (day, cs) ← takeNumber 2 0 cs
  return ((year, month, day), cs)

/-- `_parse_isoformat_time` up to the offset. -/
def takeTime (cs : List Char) : Option ((ℕ × ℕ × ℕ × ℕ) × List Char) := do
  let (hour, cs) ← takeNumber 2 0 cs
  let cs ← takeChar ':' cs
  let (minute, cs) ← takeNumber 2 0 cs
  let cs ← takeChar ':' cs
  let (second, cs) ← takeNumber 2 0 cs
  let (microsecond, cs) ← takeFraction cs
  return ((hour, minute, second, microsecond), cs)

/-- `datetime.fromisoformat`, of a date, one separator, a time with seconds and the offset zero. Every
other text is `none`. -/
def fromisoformat (s : String) : Option DateTime := do
  let ((year, month, day), cs) ← takeDate s.toList
  let cs ← cs.tail?
  let ((hour, minute, second, microsecond), cs) ← takeTime cs
  if cs = "+00:00".toList then DateTime.ofFields year month day hour minute second microsecond else none

theorem digitValue_digitChar {d : ℕ} (h : d < 10) : digitValue (Nat.digitChar d) = some d := by
  have hdigits : ∀ d < 10, digitValue (Nat.digitChar d) = some d := by decide
  exact hdigits d h

/-- A padded number is read back. -/
theorem takeNumber_zeroPadded (width : ℕ) {n : ℕ} (h : n < 10 ^ width) (acc : ℕ) (cs : List Char) :
    takeNumber width acc ((zeroPadded width n).toList ++ cs) = some (acc * 10 ^ width + n, cs) := by
  induction width generalizing n acc with
  | zero =>
    obtain rfl : n = 0 := by simpa using h
    simp [zeroPadded, takeNumber]
  | succ width ih =>
    have hpos : 0 < 10 ^ width := by positivity
    have hdigit : n / 10 ^ width < 10 := Nat.div_lt_of_lt_mul (by rwa [pow_succ] at h)
    have hn := Nat.div_add_mod n (10 ^ width)
    have hread := ih (Nat.mod_lt n hpos) (acc * 10 + n / 10 ^ width)
    simp only [zeroPadded, String.toList_append, String.toList_singleton, List.cons_append, List.nil_append,
      takeNumber, digitValue_digitChar hdigit]
    rw [hread, pow_succ]
    congr 2
    calc (acc * 10 + n / 10 ^ width) * 10 ^ width + n % 10 ^ width
        = acc * (10 ^ width * 10) + (10 ^ width * (n / 10 ^ width) + n % 10 ^ width) := by ring
      _ = acc * (10 ^ width * 10) + n := by rw [hn]

theorem takeFraction_text {x : ℕ} (h : x < 1000000) :
    takeFraction (((if x = 0 then "" else "." ++ zeroPadded 6 x) : String).toList ++ "+00:00".toList) =
      some (x, "+00:00".toList) := by
  split
  next hzero =>
    subst hzero
    rfl
  next =>
    have hread := takeNumber_zeroPadded 6 (by simpa using h) 0 "+00:00".toList
    have hpoint : ("." ++ zeroPadded 6 x).toList = '.' :: (zeroPadded 6 x).toList := by
      rw [String.toList_append]
      rfl
    rw [hpoint, List.cons_append, takeFraction, hread]
    simp

theorem DateTime.ofFields_fields (d : DateTime) :
    DateTime.ofFields d.year d.month d.day d.hour d.minute d.second d.microsecond = some d :=
  dif_pos ⟨d.year_mem, d.month_mem, d.day_mem, d.hour_lt, d.minute_lt, d.second_lt, d.microsecond_lt⟩

theorem takeDate_text (d : DateTime) (cs : List Char) :
    takeDate ((zeroPadded 4 d.year).toList ++ ('-' :: ((zeroPadded 2 d.month).toList ++
        ('-' :: ((zeroPadded 2 d.day).toList ++ cs))))) = some ((d.year, d.month, d.day), cs) := by
  have hyear (cs) := takeNumber_zeroPadded 4 (Nat.lt_succ_of_le d.year_mem.2) 0 cs
  have hmonth (cs) := takeNumber_zeroPadded 2 (d.month_mem.2.trans_lt (by norm_num)) 0 cs
  have hday (cs) := takeNumber_zeroPadded 2 (d.day_le.trans_lt (by norm_num)) 0 cs
  simp [takeDate, takeChar, hyear, hmonth, hday]

theorem takeTime_text (d : DateTime) {cs rest : List Char} (h : takeFraction cs = some (d.microsecond, rest)) :
    takeTime ((zeroPadded 2 d.hour).toList ++ (':' :: ((zeroPadded 2 d.minute).toList ++
        (':' :: ((zeroPadded 2 d.second).toList ++ cs))))) =
      some ((d.hour, d.minute, d.second, d.microsecond), rest) := by
  have hhour (cs) := takeNumber_zeroPadded 2 (d.hour_lt.trans (by norm_num)) 0 cs
  have hminute (cs) := takeNumber_zeroPadded 2 (d.minute_lt.trans (by norm_num)) 0 cs
  have hsecond (cs) := takeNumber_zeroPadded 2 (d.second_lt.trans (by norm_num)) 0 cs
  simp [takeTime, takeChar, hhour, hminute, hsecond, h]

/-- What `isoformat` writes is read back. -/
theorem fromisoformat_isoformat (d : DateTime) : fromisoformat d.isoformat = some d := by
  have hdash : "-".toList = ['-'] := rfl
  have hcolon : ":".toList = [':'] := rfl
  have hsep : "T".toList = ['T'] := rfl
  have htext : d.isoformat.toList = (zeroPadded 4 d.year).toList ++ ('-' :: ((zeroPadded 2 d.month).toList ++
      ('-' :: ((zeroPadded 2 d.day).toList ++ ('T' :: ((zeroPadded 2 d.hour).toList ++
        (':' :: ((zeroPadded 2 d.minute).toList ++ (':' :: ((zeroPadded 2 d.second).toList ++
          (((if d.microsecond = 0 then "" else "." ++ zeroPadded 6 d.microsecond) : String).toList ++
            "+00:00".toList))))))))))) := by
    simp only [DateTime.isoformat, DateTime.wholeSeconds, String.toList_append, List.append_assoc, hdash, hcolon,
      hsep, List.cons_append, List.nil_append]
  rw [fromisoformat, htext, takeDate_text]
  simp only [Option.bind_eq_bind, Option.bind_some, List.tail?_cons,
    takeTime_text d (takeFraction_text d.microsecond_lt), if_true]
  exact d.ofFields_fields

example : fromisoformat "2024-02-30T07:05:00+00:00" = none := by decide

end Python
