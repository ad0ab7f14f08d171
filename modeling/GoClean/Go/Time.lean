import Mathlib.Data.Prod.Lex
import Mathlib.Order.Basic
import GoClean.Lib.BigEndian

/-!
# Instants and their binary form

A `time.Time` as the seconds since year 1, the nanosecond field and the
zone. The nanosecond field has thirty bits, as in Go, so a value read from
bytes may hold more than a second in it. The monotonic reading is left out:
`UTC` drops it, and `UTC` is applied to every time the code below keeps.
`Round(0)` drops nothing else, so it is not written.
-/

namespace GoClean.Go

open BigEndian (beNat beBytes)

abbrev Duration := Int

def Duration.second : Duration := 1000000000
def Duration.hour : Duration := 3600 * second

-- so that nanoseconds have literals
instance neZeroNsec : NeZero (2 ^ 30) := ⟨by decide⟩

structure Time where
  /-- Seconds since 1 January of year 1, UTC. -/
  sec : Int64
  nsec : Fin (2 ^ 30)
  /-- `none` is `time.UTC`; any other location by its offset in seconds. -/
  loc : Option Int
  deriving DecidableEq

namespace Time

def zero : Time := ⟨0, 0, none⟩

def isZero (t : Time) : Bool := t.sec == 0 && t.nsec == 0

def before (t u : Time) : Bool :=
  decide (t.sec < u.sec) || t.sec == u.sec && decide (t.nsec < u.nsec)

def after (t u : Time) : Bool := u.before t

def equal (t u : Time) : Bool := t.sec == u.sec && t.nsec == u.nsec

def utc (t : Time) : Time := { t with loc := none }

/-- `addSec`: a sum that overflows stays at the end of the range. -/
def addSec (sec d : Int64) : Int64 :=
  let sum := sec + d
  if decide (sec < sum) = decide (0 < d) then sum
  else if 0 < d then Int64.maxValue
  else -Int64.maxValue

def add (t : Time) (d : Duration) : Time :=
  let dsec := d.tdiv 1000000000
  let nsec := (t.nsec : Int) + d.tmod 1000000000
  let (dsec, nsec) :=
    if 1000000000 ≤ nsec then (dsec + 1, nsec - 1000000000)
    else if nsec < 0 then (dsec - 1, nsec + 1000000000)
    else (dsec, nsec)
  { t with
    sec := addSec t.sec (Int64.ofInt dsec)
    nsec := ⟨nsec.toNat % 2 ^ 30, Nat.mod_lt _ (by decide)⟩ }

def unixToInternal : Int64 := 62135596800

def unix (t : Time) : Int64 := t.sec - unixToInternal

/-- `time.Unix(sec, nsec).UTC()` at a nanosecond count that is not negative,
which is carried into the seconds. -/
def unixUTC (sec : Int64) (nsec : Nat) : Time where
  sec := sec + Int64.ofNat (nsec / 1000000000) + unixToInternal
  nsec := ⟨nsec % 1000000000, lt_trans (Nat.mod_lt _ (by decide)) (by decide)⟩
  loc := none

/-- `Time.MarshalBinary`: the version, the seconds, the nanoseconds and the
offset in minutes, -1 for UTC. A zone with odd seconds takes version 2 and
one more byte; one whose offset does not fit is an error. -/
def marshalBinary (t : Time) : Option (List UInt8) :=
  let fields := beBytes 8 t.sec.toBitVec.toNat ++ beBytes 4 t.nsec
  match t.loc with
  | none => some (1 :: fields ++ [0xff, 0xff])
  | some offset =>
    let minutes := offset.tdiv 60
    if minutes < -32768 ∨ minutes = -1 ∨ 32767 < minutes then none
    else if offset.tmod 60 = 0 then some (1 :: fields ++ beBytes 2 (minutes % 65536).toNat)
    else some (2 :: fields ++ beBytes 2 (minutes % 65536).toNat ++
      beBytes 1 (offset.tmod 60 % 256).toNat)

def wallToInternal : Int := 59453308800

/-- `Time.UnmarshalBinary`. A nanosecond word with its top bit set is sign
extended into the wall word, where it reads as a monotonic time whose
seconds are the 33 bits above the nanoseconds. -/
def unmarshalBinary : List UInt8 → Option Time
  | [] => none
  | version :: buf =>
    if version ≠ 1 ∧ version ≠ 2 then none
    else if buf.length ≠ (if version = 2 then 15 else 14) then none
    else
      let sec := Int64.ofBitVec (BitVec.ofNat 64 (beNat (buf.take 8)))
      let nsec := beNat ((buf.drop 8).take 4)
      let minutes := (BitVec.ofNat 16 (beNat ((buf.drop 12).take 2))).toInt
      let offset := minutes * 60 + (if version = 2 then ((buf.getD 14 0).toNat : Int) else 0)
      some {
        sec := if nsec < 2 ^ 31 then sec
          else Int64.ofInt (wallToInternal + 2 ^ 33 - 2 + (nsec / 2 ^ 30 % 2 : Nat))
        nsec := ⟨nsec % 2 ^ 30, Nat.mod_lt _ (by decide)⟩
        loc := if offset = -60 then none else some offset }

-- ---------------------------------------------------------------------------
-- The order of instants
-- ---------------------------------------------------------------------------

def instant (t : Time) : ℤ ×ₗ ℕ := toLex (t.sec.toInt, t.nsec.val)

theorem before_iff : before t u = true ↔ t.instant < u.instant := by
  rw [instant, instant, Prod.Lex.toLex_lt_toLex]
  simp only [before, Bool.or_eq_true, Bool.and_eq_true, decide_eq_true_eq, beq_iff_eq,
    Int64.lt_iff_toInt_lt, Int64.toInt_inj, Fin.lt_def]

theorem after_iff : after t u = true ↔ u.instant < t.instant := before_iff

theorem equal_iff : equal t u = true ↔ t.instant = u.instant := by
  rw [instant, instant, toLex_inj, Prod.mk.injEq, Int64.toInt_inj, Fin.val_inj]
  simp [equal]

theorem isZero_iff : isZero t = true ↔ t.instant = zero.instant := by
  have h : isZero t = equal t zero := rfl
  rw [h, equal_iff]

@[simp] theorem instant_utc (t : Time) : t.utc.instant = t.instant := rfl

@[simp] theorem isZero_utc (t : Time) : t.utc.isZero = t.isZero := rfl

theorem eq_of_instant {t u : Time} (h : t.instant = u.instant) (hl : t.loc = u.loc) : t = u := by
  have he := equal_iff.mpr h
  simp only [equal, Bool.and_eq_true, beq_iff_eq] at he
  cases t
  cases u
  simp_all

theorem before_eq_false_iff : before t u = false ↔ u.instant ≤ t.instant := by
  rw [← Bool.not_eq_true, before_iff, not_lt]

-- ---------------------------------------------------------------------------
-- The binary form of a UTC time
-- ---------------------------------------------------------------------------

def wire (t : Time) : List UInt8 :=
  1 :: (beBytes 8 t.sec.toBitVec.toNat ++ beBytes 4 t.nsec ++ [0xff, 0xff])

theorem marshalBinary_utc (t : Time) : marshalBinary t.utc = some t.wire := rfl

@[simp] theorem length_wire (t : Time) : t.wire.length = 15 := by simp [wire]

theorem unmarshalBinary_wire (t : Time) : unmarshalBinary t.wire = some t.utc := by
  have hsec : beNat (beBytes 8 t.sec.toBitVec.toNat) = t.sec.toBitVec.toNat :=
    BigEndian.beNat_beBytes_of_lt t.sec.toBitVec.isLt
  have hnsec : beNat (beBytes 4 t.nsec) = t.nsec :=
    BigEndian.beNat_beBytes_of_lt (lt_trans t.nsec.isLt (by decide))
  have hzone : (BitVec.ofNat 16 (beNat [0xff, 0xff])).toInt = -1 := by decide
  have hsmall : (t.nsec : Nat) < 2 ^ 31 := lt_trans t.nsec.isLt (by decide)
  simp only [wire, unmarshalBinary, List.append_assoc]
  rw [if_neg (by decide), if_neg (by simp)]
  have h8 : ∀ rest, (beBytes 8 t.sec.toBitVec.toNat ++ rest).take 8 =
      beBytes 8 t.sec.toBitVec.toNat :=
    fun rest => List.take_left' (by simp)
  have hd8 : ∀ rest, (beBytes 8 t.sec.toBitVec.toNat ++ rest).drop 8 = rest :=
    fun rest => List.drop_left' (by simp)
  have h4 : ∀ rest, (beBytes 4 t.nsec ++ rest).take 4 = beBytes 4 t.nsec :=
    fun rest => List.take_left' (by simp)
  have hd4 : ∀ rest, (beBytes 4 t.nsec ++ rest).drop 4 = rest :=
    fun rest => List.drop_left' (by simp)
  have hd12 : ∀ l : List UInt8, l.drop 12 = (l.drop 8).drop 4 := fun l => by rw [List.drop_drop]
  simp only [hd12, h8, hd8, h4, hd4, hsec, hnsec, List.take_succ_cons, List.take_nil, hzone, hsmall,
    if_true, BitVec.ofNat_toNat, Nat.mod_eq_of_lt t.nsec.isLt]
  simp [utc]

end Time

end GoClean.Go
