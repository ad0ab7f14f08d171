import Mathlib.Algebra.Order.Ring.Nat
import Mathlib.Tactic.Positivity
import Mathlib.Tactic.Ring

/-!
# Big-endian byte strings

`beBytes w n` is the low `w` bytes of `n`, most significant first, and
`beNat` reads such a string back. The two are inverse on numbers that fit
and on strings of the width, and the numeric order is the lexicographic
order of strings of one length.
-/

namespace BigEndian

/-- The low `w` bytes of `n`, most significant byte first. -/
def beBytes : Nat → Nat → List UInt8
  | 0, _ => []
  | w + 1, n => UInt8.ofNat (n / 256 ^ w) :: beBytes w n

def beNat : List UInt8 → Nat
  | [] => 0
  | b :: rest => b.toNat * 256 ^ rest.length + beNat rest

@[simp] theorem length_beBytes (w n : Nat) : (beBytes w n).length = w := by
  induction w with
  | zero => rfl
  | succ w ih => simp [beBytes, ih]

theorem beNat_lt (l : List UInt8) : beNat l < 256 ^ l.length := by
  induction l with
  | nil => simp [beNat]
  | cons b rest ih =>
    have hb : b.toNat + 1 ≤ 256 := b.toNat_lt
    calc beNat (b :: rest) < b.toNat * 256 ^ rest.length + 256 ^ rest.length := by
          simpa [beNat] using ih
      _ = (b.toNat + 1) * 256 ^ rest.length := by ring
      _ ≤ 256 * 256 ^ rest.length := Nat.mul_le_mul_right _ hb
      _ = 256 ^ (b :: rest).length := by simp [pow_succ, Nat.mul_comm]

theorem beNat_beBytes (w n : Nat) : beNat (beBytes w n) = n % 256 ^ w := by
  induction w with
  | zero => simp [beBytes, beNat, Nat.mod_one]
  | succ w ih =>
    have hb : (UInt8.ofNat (n / 256 ^ w)).toNat = n / 256 ^ w % 256 := by simp
    rw [beBytes, beNat, hb, ih, length_beBytes, Nat.mod_pow_succ]
    ring

theorem beNat_beBytes_of_lt (h : n < 256 ^ w) : beNat (beBytes w n) = n := by
  rw [beNat_beBytes, Nat.mod_eq_of_lt h]

theorem beBytes_add_mul (w k n : Nat) : beBytes w (k * 256 ^ w + n) = beBytes w n := by
  suffices h : ∀ v, v ≤ w → beBytes v (k * 256 ^ w + n) = beBytes v n from h w le_rfl
  intro v hv
  induction v with
  | zero => rfl
  | succ v ih =>
    obtain ⟨d, rfl⟩ : ∃ d, w = v + 1 + d := ⟨w - (v + 1), by omega⟩
    have hsplit : k * 256 ^ (v + 1 + d) + n = n + 256 ^ v * (256 * (k * 256 ^ d)) := by ring
    have hdiv : (k * 256 ^ (v + 1 + d) + n) / 256 ^ v = n / 256 ^ v + 256 * (k * 256 ^ d) := by
      rw [hsplit, Nat.add_mul_div_left _ _ (by positivity)]
    have hbyte : UInt8.ofNat (n / 256 ^ v + 256 * (k * 256 ^ d)) = UInt8.ofNat (n / 256 ^ v) := by
      apply UInt8.toNat.inj
      simp
    rw [beBytes, beBytes, hdiv, hbyte, ih (by omega)]

theorem beBytes_beNat (l : List UInt8) : beBytes l.length (beNat l) = l := by
  induction l with
  | nil => rfl
  | cons b rest ih =>
    have hdiv : beNat (b :: rest) / 256 ^ rest.length = b.toNat := by
      rw [beNat, Nat.mul_comm, Nat.mul_add_div (by positivity), Nat.div_eq_of_lt (beNat_lt rest),
        Nat.add_zero]
    rw [List.length_cons, beBytes, hdiv, beNat, beBytes_add_mul, ih, UInt8.ofNat_toNat]

theorem beNat_inj {a b : List UInt8} (hl : a.length = b.length) (h : beNat a = beNat b) :
    a = b := by
  rw [← beBytes_beNat a, ← beBytes_beNat b, hl, h]

theorem lt_iff_beNat_lt {a b : List UInt8} (hl : a.length = b.length) :
    a < b ↔ beNat a < beNat b := by
  induction a generalizing b with
  | nil =>
    cases b with
    | nil => simp [beNat]
    | cons _ _ => simp at hl
  | cons x xs ih =>
    cases b with
    | nil => simp at hl
    | cons y ys =>
      have hlen : xs.length = ys.length := by simpa using hl
      have hx := beNat_lt xs
      have hy := beNat_lt ys
      rw [List.cons_lt_cons_iff, ih hlen, beNat, beNat, hlen]
      rw [hlen] at hx
      rcases lt_trichotomy x.toNat y.toNat with h | h | h
      · have hm := Nat.mul_le_mul_right (256 ^ ys.length) (show x.toNat + 1 ≤ y.toNat from h)
        have hlt : x < y := UInt8.lt_iff_toNat_lt.mpr h
        rw [Nat.add_mul, Nat.one_mul] at hm
        exact ⟨fun _ => by omega, fun _ => .inl hlt⟩
      · have hxy : x = y := UInt8.toNat.inj h
        subst hxy
        simp [UInt8.lt_irrefl]
      · have hm := Nat.mul_le_mul_right (256 ^ ys.length) (show y.toNat + 1 ≤ x.toNat from h)
        have hne : x ≠ y := fun e => by simp [e] at h
        have hnlt : ¬ x < y := fun e => by have := UInt8.lt_iff_toNat_lt.mp e; omega
        rw [Nat.add_mul, Nat.one_mul] at hm
        constructor
        · rintro (h' | ⟨h', -⟩)
          · exact absurd h' hnlt
          · exact absurd h' hne
        · intro h'
          omega

/-- Lexicographic comparison decided by the first of two fields of one
width. -/
theorem append_lt_append_iff {a a' b b' : List UInt8} (hl : a.length = a'.length) :
    a ++ b < a' ++ b' ↔ a < a' ∨ a = a' ∧ b < b' := by
  induction a generalizing a' with
  | nil =>
    cases a' with
    | nil => simp
    | cons _ _ => simp at hl
  | cons x xs ih =>
    cases a' with
    | nil => simp at hl
    | cons y ys =>
      rw [List.cons_append, List.cons_append, List.cons_lt_cons_iff, List.cons_lt_cons_iff,
        ih (by simpa using hl)]
      constructor
      · rintro (h | ⟨rfl, h | ⟨rfl, h⟩⟩)
        · exact .inl (.inl h)
        · exact .inl (.inr ⟨rfl, h⟩)
        · exact .inr ⟨rfl, h⟩
      · rintro ((h | ⟨rfl, h⟩) | ⟨h, h'⟩)
        · exact .inl h
        · exact .inr ⟨rfl, .inl h⟩
        · obtain ⟨rfl, rfl⟩ := List.cons.inj h
          exact .inr ⟨rfl, .inr ⟨rfl, h'⟩⟩

end BigEndian
