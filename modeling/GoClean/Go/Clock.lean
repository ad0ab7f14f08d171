import GoClean.Go.Time

/-!
# Clock readings

The instant of a time as one count of nanoseconds, and the arithmetic of
`Time.Add` and `Time.Sub` on it. A clock gives times whose nanosecond field
is below one second; `Reading` keeps that with the time. Both operations
stay at the end of their range when the result does not fit.
-/

namespace GoClean.Go

namespace Duration

def max : Duration := 2 ^ 63 - 1

def min : Duration := -2 ^ 63

def seconds (d : Duration) : ℚ := d / 1000000000

end Duration

namespace Time

/-- `Time.Sub`: the difference in wrapping arithmetic, if adding it gives the
time back. -/
def sub (t u : Time) : Duration :=
  let d := ((t.sec - u.sec) * 1000000000 + Int64.ofInt ((t.nsec.val : Int) - u.nsec.val)).toInt
  if (u.add d).equal t then d
  else if t.before u then Duration.min
  else Duration.max

def nanos (t : Time) : ℤ := t.sec.toInt * 1000000000 + t.nsec.val

end Time

abbrev Reading := {t : Time // t.nsec.val < 1000000000}

def Reading.ofSec (sec : Int64) : Reading := ⟨⟨sec, 0, none⟩, Nat.zero_lt_succ _⟩

/-- Readings in the order of their instants; the zone does not count. -/
instance : Preorder Reading :=
  @Preorder.lift Reading ℤ Int.instLinearOrder.toPreorder fun t => t.val.nanos

instance : DecidableLE Reading := fun t u => inferInstanceAs (Decidable (t.val.nanos ≤ u.val.nanos))

namespace Time

theorem before_iff_nanos (t u : Reading) : t.val.before u = true ↔ t.val.nanos < u.val.nanos := by
  have ht := t.property
  have hu := u.property
  rw [before_iff, instant, instant, Prod.Lex.toLex_lt_toLex]
  simp only [nanos]
  omega

theorem reading_le_iff {t u : Reading} : t ≤ u ↔ t.val.nanos ≤ u.val.nanos := Iff.rfl

theorem reading_not_lt {t u : Reading} : ¬t < u ↔ u ≤ t := not_lt (α := ℤ)

theorem nanos_range (t : Reading) :
    -2 ^ 63 * 1000000000 ≤ t.val.nanos ∧ t.val.nanos < 2 ^ 63 * 1000000000 := by
  have ht := t.property
  have hlow := t.val.sec.le_toInt
  have hhigh := t.val.sec.toInt_lt
  simp only [nanos]
  omega

theorem after_iff_nanos (t u : Reading) : t.val.after u = true ↔ u.val.nanos < t.val.nanos :=
  before_iff_nanos u t

theorem before_eq_false_iff_nanos (t u : Reading) :
    t.val.before u = false ↔ u.val.nanos ≤ t.val.nanos := by
  rw [← Bool.not_eq_true, before_iff_nanos, not_lt]

/-- The time of a reading is what `time.Unix` makes of its seconds and
nanoseconds. -/
theorem unixUTC_unix (t : Reading) : (unixUTC t.val.unix t.val.nsec).equal t.val = true := by
  have hsec : t.val.unix + Int64.ofNat 0 + unixToInternal = t.val.sec := by
    rw [unix, show Int64.ofNat 0 = 0 from rfl, Int64.add_zero, Int64.sub_add_cancel]
  simp only [equal, unixUTC, Nat.div_eq_of_lt t.property, Nat.mod_eq_of_lt t.property, hsec,
    beq_self_eq_true, Bool.and_self]

-- ---------------------------------------------------------------------------
-- Adding
-- ---------------------------------------------------------------------------

theorem toInt_addSec (s d : Int64) : (addSec s d).toInt =
    if 2 ^ 63 ≤ s.toInt + d.toInt then 2 ^ 63 - 1
    else if s.toInt + d.toInt < -2 ^ 63 then -(2 ^ 63 - 1)
    else s.toInt + d.toInt := by
  have hs := s.toInt_lt
  have hs' := s.le_toInt
  have hd := d.toInt_lt
  have hd' := d.le_toInt
  have hsum : (s + d).toInt = if 2 ^ 63 ≤ s.toInt + d.toInt then s.toInt + d.toInt - 2 ^ 64
      else if s.toInt + d.toInt < -2 ^ 63 then s.toInt + d.toInt + 2 ^ 64
      else s.toInt + d.toInt := by
    rw [Int64.toInt_add, Int.bmod_def]
    omega
  have hmax : Int64.maxValue.toInt = 2 ^ 63 - 1 := by decide
  have hmin : (-Int64.maxValue).toInt = -(2 ^ 63 - 1) := by decide
  have hzero : (0 : Int64).toInt = 0 := by decide
  simp only [addSec, Int64.lt_iff_toInt_lt, hsum, hzero, decide_eq_decide]
  split_ifs <;> omega

theorem add_fields (t : Reading) (d : ℤ) :
    (t.val.add d).sec = addSec t.val.sec (Int64.ofInt ((t.val.nsec.val + d) / 1000000000)) ∧
    ((t.val.add d).nsec.val : ℤ) = (t.val.nsec.val + d) % 1000000000 := by
  have ht := t.property
  have hdiv : d.tdiv 1000000000 * 1000000000 + d.tmod 1000000000 = d := Int.tdiv_mul_add_tmod d _
  have hlt := Int.tmod_lt_of_pos d (b := 1000000000) (by decide)
  have hgt := Int.lt_tmod_of_pos d (b := 1000000000) (by decide)
  simp only [add]
  generalize d.tdiv 1000000000 = q, d.tmod 1000000000 = r at *
  split_ifs with hover hunder
  · have hq : (t.val.nsec.val + d) / 1000000000 = q + 1 := by omega
    exact ⟨by rw [hq], by dsimp only; omega⟩
  · have hq : (t.val.nsec.val + d) / 1000000000 = q - 1 := by omega
    exact ⟨by rw [hq], by dsimp only; omega⟩
  · have hq : (t.val.nsec.val + d) / 1000000000 = q := by omega
    exact ⟨by rw [hq], by dsimp only; omega⟩

/-- Adding a duration moves the instant by it, unless the seconds leave their
range. -/
theorem nanos_add (t : Reading) {d : ℤ} (hd : -2 ^ 63 ≤ d ∧ d < 2 ^ 63)
    (hlow : -2 ^ 63 * 1000000000 ≤ t.val.nanos + d)
    (hhigh : t.val.nanos + d < 2 ^ 63 * 1000000000) :
    (t.val.add d).nanos = t.val.nanos + d := by
  have ht := t.property
  obtain ⟨hsec, hnsec⟩ := add_fields t d
  have hcarry : (Int64.ofInt ((t.val.nsec.val + d) / 1000000000)).toInt =
      (t.val.nsec.val + d) / 1000000000 := Int64.toInt_ofInt_of_le (by omega) (by omega)
  simp only [nanos] at hlow hhigh ⊢
  rw [hsec, hnsec, toInt_addSec, hcarry]
  split_ifs <;> omega

theorem nanos_add_congr {t u : Reading} (h : t.val.nanos = u.val.nanos) (d : ℤ) :
    (t.val.add d).nanos = (u.val.add d).nanos := by
  have ht := t.property
  have hu := u.property
  obtain ⟨hsec, hnsec⟩ := add_fields t d
  obtain ⟨hsec', hnsec'⟩ := add_fields u d
  simp only [nanos] at h ⊢
  have hs : t.val.sec = u.val.sec := Int64.toInt_inj.mp (by omega)
  have hn : t.val.nsec.val = u.val.nsec.val := by omega
  rw [hsec, hsec', hnsec, hnsec', hs, hn]

theorem add_normal (t : Reading) (d : ℤ) : (t.val.add d).nsec.val < 1000000000 := by
  have h := (add_fields t d).2
  omega

theorem nanos_add_lt (t : Reading) {u : Time} {d : ℤ} (hd : -2 ^ 63 ≤ d ∧ d < 2 ^ 63)
    (hu : t.val.nanos + 2 ^ 63 ≤ u.nanos) : (t.val.add d).nanos < u.nanos := by
  have ht := t.property
  have hlow := t.val.sec.le_toInt
  have hhigh := u.sec.toInt_lt
  obtain ⟨hsec, hnsec⟩ := add_fields t d
  have hcarry : (Int64.ofInt ((t.val.nsec.val + d) / 1000000000)).toInt =
      (t.val.nsec.val + d) / 1000000000 := Int64.toInt_ofInt_of_le (by omega) (by omega)
  have hun := u.nsec.isLt
  simp only [nanos] at hu ⊢
  rw [hsec, hnsec, toInt_addSec, hcarry]
  split_ifs <;> omega

-- ---------------------------------------------------------------------------
-- Subtracting
-- ---------------------------------------------------------------------------

theorem equal_iff_nanos (t u : Reading) : t.val.equal u = true ↔ t.val.nanos = u.val.nanos := by
  have ht := t.property
  have hu := u.property
  rw [equal_iff, instant, instant, toLex_inj, Prod.mk.injEq]
  simp only [nanos]
  omega

theorem toInt_fields_sub (t u : Reading) :
    ((t.val.sec - u.val.sec) * 1000000000 + Int64.ofInt
      ((t.val.nsec.val : Int) - u.val.nsec.val)).toInt =
      (t.val.nanos - u.val.nanos).bmod (2 ^ 64) := by
  have hsecond : (1000000000 : Int64).toInt = 1000000000 := by decide
  have hnsec : (Int64.ofInt ((t.val.nsec.val : Int) - u.val.nsec.val)).toInt =
      (t.val.nsec.val : Int) - u.val.nsec.val := Int64.toInt_ofInt_of_le (by omega) (by omega)
  have hsplit : t.val.nanos - u.val.nanos =
      (t.val.sec.toInt - u.val.sec.toInt) * 1000000000 +
        ((t.val.nsec.val : Int) - u.val.nsec.val) := by
    simp only [nanos]
    ring
  rw [Int64.toInt_add, Int64.toInt_mul, Int64.toInt_sub, hsecond, hnsec, Int.bmod_add_bmod,
    ← Int.bmod_add_bmod, Int.bmod_mul_bmod, Int.bmod_add_bmod, hsplit]

theorem sub_of_before (t u : Reading) (h : u.val.nanos < t.val.nanos) :
    t.val.sub u = min (t.val.nanos - u.val.nanos) (2 ^ 63 - 1) := by
  have hbefore : t.val.before u = false := (before_eq_false_iff_nanos t u).mpr (le_of_lt h)
  have hrange := Int.bmod_lt (x := t.val.nanos - u.val.nanos) (m := 2 ^ 64) (by decide)
  have hrange' := Int.le_bmod (x := t.val.nanos - u.val.nanos) (m := 2 ^ 64) (by decide)
  have hequal := equal_iff_nanos ⟨_, add_normal u ((t.val.nanos - u.val.nanos).bmod (2 ^ 64))⟩ t
  simp only [sub, toInt_fields_sub, hbefore]
  by_cases hfits : t.val.nanos - u.val.nanos < 2 ^ 63
  · have hd : (t.val.nanos - u.val.nanos).bmod (2 ^ 64) = t.val.nanos - u.val.nanos := by
      rw [Int.bmod_def]
      omega
    have hsum : (u.val.add (t.val.nanos - u.val.nanos)).nanos = t.val.nanos := by
      have htop := nanos_range t
      have hbottom := nanos_range u
      rw [nanos_add u (by omega) (by omega) (by omega)]
      omega
    rw [hd] at hequal ⊢
    rw [if_pos (hequal.mpr hsum)]
    have hle : t.val.nanos - u.val.nanos ≤ 2 ^ 63 - 1 := by omega
    exact (min_eq_left hle).symm
  · have hmiss := nanos_add_lt u (u := t.val) (d := (t.val.nanos - u.val.nanos).bmod (2 ^ 64))
      (by omega) (by omega)
    rw [if_neg fun he => absurd (hequal.mp he) (ne_of_lt hmiss)]
    have hle : 2 ^ 63 - 1 ≤ t.val.nanos - u.val.nanos := by omega
    exact (min_eq_right hle).symm

end Time

end GoClean.Go
