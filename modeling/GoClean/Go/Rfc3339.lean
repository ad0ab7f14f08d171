import Mathlib.Data.List.DropRight
import Mathlib.Tactic.Linarith
import GoClean.Go.Text
import GoClean.Go.Time

/-!
# Dates and times as text

The text of a UTC time in JSON, as package `time` computes it, and the form
that RFC 3339 gives such texts. Days are counted from the first of March of the
year 0: a leap day is then the last day of its year.
-/

namespace GoClean.Go

-- ---------------------------------------------------------------------------
-- The form
-- ---------------------------------------------------------------------------

def IsDecimal (n : Nat) (s : GoString) : Prop := s.length = n ∧ ∀ b ∈ s, 48 ≤ b ∧ b ≤ 57

def decimalValue (s : GoString) : Nat := s.foldl (fun value b => 10 * value + (b.toNat - 48)) 0

def isLeap (year : Nat) : Prop := year % 4 = 0 ∧ (year % 100 ≠ 0 ∨ year % 400 = 0)

instance : DecidablePred isLeap := fun _ => inferInstanceAs (Decidable (_ ∧ _))

def daysIn (year month : Nat) : Nat :=
  if month = 2 then if isLeap year then 29 else 28
  else if month ∈ [4, 6, 9, 11] then 30
  else 31

structure DateTime (s : GoString) : Prop where
  shape : ∃ year month day hour minute second fraction,
    s = year ++ str "-" ++ month ++ str "-" ++ day ++ str "T" ++ hour ++ str ":" ++ minute ++
      str ":" ++ second ++ fraction ++ str "Z" ∧
    IsDecimal 4 year ∧ IsDecimal 2 month ∧ IsDecimal 2 day ∧ IsDecimal 2 hour ∧
    IsDecimal 2 minute ∧ IsDecimal 2 second ∧
    (1 ≤ decimalValue month ∧ decimalValue month ≤ 12) ∧
    (1 ≤ decimalValue day ∧ decimalValue day ≤ daysIn (decimalValue year) (decimalValue month)) ∧
    decimalValue hour ≤ 23 ∧ decimalValue minute ≤ 59 ∧ decimalValue second ≤ 59 ∧
    (fraction = [] ∨ ∃ n digits, 0 < n ∧ IsDecimal n digits ∧ fraction = str "." ++ digits)

-- ---------------------------------------------------------------------------
-- The text
-- ---------------------------------------------------------------------------

def decimal : Nat → Nat → GoString
  | 0, _ => []
  | n + 1, k => decimal n (k / 10) ++ [UInt8.ofNat (48 + k % 10)]

structure Date where
  year : Int
  month : Int
  day : Int
  deriving DecidableEq

/-- `absDays.date`, for a count of days from 1 March of the year 0. -/
def civil (days : Int) : Date :=
  let d := 4 * days + 3
  let century := d / 146097
  let cd := d % 146097 / 4 * 4 + 3
  let cyear := cd / 1461
  let ayday := cd % 1461 / 4
  let md := 5 * ayday + 461
  let day := md % 153 / 5 + 1
  -- January and February belong to the next year
  if 306 ≤ ayday then ⟨100 * century + cyear + 1, md / 153 - 12, day⟩
  else ⟨100 * century + cyear, md / 153, day⟩

namespace Time

/-- `Time.Date` in UTC; 1 January of the year 1 is day 306. -/
def date (t : Time) : Date := civil (t.sec.toInt / 86400 + 306)

def fraction (t : Time) : GoString :=
  let digits := (decimal 9 t.nsec).rdropWhile (· == 48)
  if digits = [] then [] else str "." ++ digits

/-- What `Time.MarshalJSON` writes between quotes for a time in UTC; a year
that does not have four digits is an error. -/
def marshalUTC (t : Time) : Option GoString :=
  let clock := (t.sec.toInt % 86400).toNat
  if 0 ≤ t.date.year ∧ t.date.year ≤ 9999 then
    some (decimal 4 t.date.year.toNat ++ str "-" ++ decimal 2 t.date.month.toNat ++ str "-" ++
      decimal 2 t.date.day.toNat ++ str "T" ++ decimal 2 (clock / 3600) ++ str ":" ++
      decimal 2 (clock % 3600 / 60) ++ str ":" ++ decimal 2 (clock % 60) ++ t.fraction ++ str "Z")
  else none

end Time

-- ---------------------------------------------------------------------------
-- The text has the form
-- ---------------------------------------------------------------------------

theorem isDecimal_decimal (n k : Nat) : IsDecimal n (decimal n k) := by
  induction n generalizing k with
  | zero => exact ⟨rfl, nofun⟩
  | succ n ih =>
    obtain ⟨hlength, hdigits⟩ := ih (k / 10)
    refine ⟨by rw [decimal, List.length_append, hlength]; rfl, fun b hb => ?_⟩
    rcases List.mem_append.mp hb with hb | hb
    · exact hdigits b hb
    · have hall : ∀ d : Fin 10, 48 ≤ UInt8.ofNat (48 + d) ∧ UInt8.ofNat (48 + d) ≤ 57 := by decide
      rw [List.mem_singleton.mp hb]
      exact hall ⟨k % 10, Nat.mod_lt _ (by decide)⟩

theorem decimalValue_decimal (n k : Nat) : decimalValue (decimal n k) = k % 10 ^ n := by
  induction n generalizing k with
  | zero => rw [pow_zero, Nat.mod_one]; rfl
  | succ n ih =>
    have hdigit : ∀ d : Fin 10, (UInt8.ofNat (48 + d)).toNat - 48 = d := by decide
    have hlast : (UInt8.ofNat (48 + k % 10)).toNat - 48 = k % 10 :=
      hdigit ⟨k % 10, Nat.mod_lt _ (by decide)⟩
    have hfold : decimalValue (decimal (n + 1) k) =
        10 * decimalValue (decimal n (k / 10)) + ((UInt8.ofNat (48 + k % 10)).toNat - 48) := by
      simp only [decimalValue, decimal, List.foldl_append, List.foldl_cons, List.foldl_nil]
    rw [hfold, ih, hlast, pow_succ', Nat.mod_mul]
    omega

theorem day_valid (a : Int) (h : 0 ≤ a ∧ a ≤ 365) :
    3 ≤ (5 * a + 461) / 153 ∧ (5 * a + 461) / 153 ≤ 14 ∧
      (306 ≤ a ↔ 13 ≤ (5 * a + 461) / 153) ∧
      1 ≤ (5 * a + 461) % 153 / 5 + 1 ∧ (5 * a + 461) % 153 / 5 + 1 ≤ 31 ∧
      ((5 * a + 461) / 153 ∈ [4, 6, 9, 11] → (5 * a + 461) % 153 / 5 + 1 ≤ 30) ∧
      ((5 * a + 461) / 153 = 14 → (5 * a + 461) % 153 / 5 + 1 ≤ 28 ∨ a = 365 ∧
        (5 * a + 461) % 153 / 5 + 1 = 29) := by
  simp only [List.mem_cons, List.not_mem_nil, or_false]
  refine ⟨by omega, by omega, by omega, by omega, by omega, fun hshort => ?_, fun hlast => ?_⟩
  · rcases hshort with h | h | h | h <;> omega
  · omega

theorem last_cyear {rest cyear : Int} (hrest : 0 ≤ rest ∧ rest < 146097)
    (hlast : rest / 4 * 4 + 3 = 1461 * cyear + 1460) :
    cyear % 4 = 3 ∧ (0 ≤ cyear ∧ cyear ≤ 99) ∧ (cyear = 99 → rest = 146096) :=
  ⟨by omega, by omega, by omega⟩

theorem century_last {days century : Int} (h : 4 * days + 3 = 146097 * century + 146096) :
    century % 4 = 3 := by
  have hsplit : century = 4 * (days - 36524 * century - 36524) + 3 := by linarith
  clear h
  generalize days - 36524 * century - 36524 = k at hsplit
  omega

/-- The last day of such a year is a leap day: its year of the century leaves 3
when divided by 4, and only every fourth century ends with one. -/
theorem leap_day {days century rest cyear : Int} {year : Nat}
    (hdays : 4 * days + 3 = 146097 * century + rest) (hrest : 0 ≤ rest ∧ rest < 146097)
    (hlast : rest / 4 * 4 + 3 = 1461 * cyear + 1460)
    (hyear : (year : Int) = 100 * century + cyear + 1) : isLeap year := by
  obtain ⟨hcyear, hrange, hfull⟩ := last_cyear hrest hlast
  clear hlast
  refine ⟨by omega, ?_⟩
  by_cases hend : cyear = 99
  · have hcentury := century_last (hdays.trans (by rw [hfull hend]))
    exact .inr (by omega)
  · exact .inl (by omega)

theorem civil_valid (days : Int) (h : 0 ≤ (civil days).year) :
    (1 ≤ (civil days).month.toNat ∧ (civil days).month.toNat ≤ 12) ∧
      1 ≤ (civil days).day.toNat ∧
      (civil days).day.toNat ≤ daysIn (civil days).year.toNat (civil days).month.toNat := by
  have hday := day_valid (((4 * days + 3) % 146097 / 4 * 4 + 3) % 1461 / 4) (by omega)
  have hlastday (cd : Int) (h : cd % 1461 / 4 = 365) : cd = 1461 * (cd / 1461) + 1460 := by omega
  have hleap (year : Nat) (ha : ((4 * days + 3) % 146097 / 4 * 4 + 3) % 1461 / 4 = 365)
      (hyear : (year : Int) = 100 * ((4 * days + 3) / 146097) +
        ((4 * days + 3) % 146097 / 4 * 4 + 3) / 1461 + 1) : isLeap year :=
    leap_day (Int.mul_ediv_add_emod _ _).symm (by omega) (hlastday _ ha) hyear
  unfold civil at h ⊢
  dsimp only at h ⊢
  generalize ((4 * days + 3) % 146097 / 4 * 4 + 3) % 1461 / 4 = a at *
  generalize 100 * ((4 * days + 3) / 146097) + ((4 * days + 3) % 146097 / 4 * 4 + 3) / 1461 = y at *
  obtain ⟨hmin, hmax, hwinter, hfirst, hlast, hshort, hfebruary⟩ := hday
  simp only [List.mem_cons, List.not_mem_nil, or_false] at hshort
  by_cases ha : 306 ≤ a
  · rw [if_pos ha] at h ⊢
    dsimp only at h ⊢
    generalize (5 * a + 461) / 153 = month at *
    generalize (5 * a + 461) % 153 / 5 + 1 = day at *
    refine ⟨by omega, by omega, ?_⟩
    by_cases hm : month = 14
    · have hmonth : (month - 12).toNat = 2 := by omega
      rw [daysIn, if_pos hmonth]
      rcases hfebruary hm with hday | ⟨ha, rfl⟩
      · split_ifs <;> omega
      · rw [if_pos (hleap _ ha (by omega))]
        exact le_rfl
    · have hmonth : (month - 12).toNat = 1 := by omega
      rw [hmonth]
      exact Int.toNat_le.mpr hlast
  · rw [if_neg ha] at h ⊢
    dsimp only at h ⊢
    generalize (5 * a + 461) / 153 = month at *
    generalize (5 * a + 461) % 153 / 5 + 1 = day at *
    refine ⟨by omega, by omega, ?_⟩
    simp only [daysIn, List.mem_cons, List.not_mem_nil, or_false]
    split_ifs <;> omega

-- ---------------------------------------------------------------------------
-- Times
-- ---------------------------------------------------------------------------

theorem isDecimal_rdropWhile (h : IsDecimal n s) (p : UInt8 → Bool) :
    IsDecimal (s.rdropWhile p).length (s.rdropWhile p) :=
  ⟨rfl, fun b hb => h.2 b ((List.rdropWhile_prefix p s).subset hb)⟩

theorem Time.fraction_cases (t : Time) :
    t.fraction = [] ∨ ∃ n digits, 0 < n ∧ IsDecimal n digits ∧ t.fraction = str "." ++ digits := by
  unfold Time.fraction
  dsimp only
  split_ifs with hzero
  · exact .inl rfl
  · exact .inr ⟨_, _, List.length_pos_iff.mpr hzero,
      isDecimal_rdropWhile (isDecimal_decimal 9 t.nsec) _, rfl⟩

theorem Time.marshalUTC_dateTime (t : Time) (h : 0 ≤ t.date.year ∧ t.date.year ≤ 9999) :
    ∃ s, t.marshalUTC = some s ∧ DateTime s := by
  obtain ⟨hmonth, hday⟩ := civil_valid _ h.1
  have hvalue {n k : Nat} (hk : k < 10 ^ n) : decimalValue (decimal n k) = k := by
    rw [decimalValue_decimal, Nat.mod_eq_of_lt hk]
  have hyear : decimalValue (decimal 4 t.date.year.toNat) = t.date.year.toNat := hvalue (by omega)
  have hmonth' : decimalValue (decimal 2 t.date.month.toNat) = t.date.month.toNat :=
    hvalue (lt_of_le_of_lt hmonth.2 (by decide))
  have hday' : decimalValue (decimal 2 t.date.day.toNat) = t.date.day.toNat := by
    refine hvalue (lt_of_le_of_lt (hday.2.trans ?_) (by decide : 31 < 10 ^ 2))
    unfold daysIn
    split_ifs <;> decide
  have hclock : (t.sec.toInt % 86400).toNat < 86400 := by omega
  generalize (t.sec.toInt % 86400).toNat = clock at hclock
  refine ⟨_, if_pos h, ?_⟩
  constructor
  exact ⟨_, _, _, _, _, _, _, rfl, isDecimal_decimal 4 _, isDecimal_decimal 2 _,
    isDecimal_decimal 2 _, isDecimal_decimal 2 _, isDecimal_decimal 2 _, isDecimal_decimal 2 _,
    hmonth'.symm ▸ hmonth, by rw [hyear, hmonth', hday']; exact hday,
    by rw [hvalue (by omega)]; omega, by rw [hvalue (by omega)]; omega,
    by rw [hvalue (by omega)]; omega, t.fraction_cases⟩

end GoClean.Go
