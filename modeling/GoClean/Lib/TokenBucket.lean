import Mathlib.Algebra.Order.Field.Basic
import Mathlib.Tactic.Linarith
import Mathlib.Tactic.Ring

/-!
# The balance of a token bucket

A bucket holds a number of tokens as of some time. It gains at most `rate`
tokens for each unit of time that passes, and tokens are drawn from it.
Whatever caps the gains and whatever decides on the draws, what was drawn and
what is left never exceed what was there and what the time has brought
(`Evolves.spent_add_le`).
-/

namespace TokenBucket

variable {K : Type} [Field K] [LinearOrder K]

structure Level (K : Type) where
  tokens : K
  time : K

inductive Evolves (rate : K) (a : Level K) : K → Level K → Prop
  | refl : Evolves rate a 0 a
  | gain {spent b c} : Evolves rate a spent b → b.time ≤ c.time →
      c.tokens ≤ b.tokens + rate * (c.time - b.time) → Evolves rate a spent c
  | draw {spent b c cost} : Evolves rate a spent b → c.time = b.time →
      c.tokens + cost ≤ b.tokens → Evolves rate a (spent + cost) c

variable {rate spent spent' : K} {a b c : Level K}

theorem Evolves.time_le (h : Evolves rate a spent b) : a.time ≤ b.time := by
  induction h with
  | refl => exact le_rfl
  | gain _ hle _ ih => exact le_trans ih hle
  | draw _ heq _ ih => exact heq ▸ ih

theorem Evolves.trans (h : Evolves rate a spent b) (h' : Evolves rate b spent' c) :
    Evolves rate a (spent + spent') c := by
  induction h' with
  | refl => rwa [add_zero]
  | gain _ hle ht ih => exact .gain ih hle ht
  | draw _ heq ht ih => rw [← add_assoc]; exact .draw ih heq ht

variable [IsStrictOrderedRing K]

theorem Evolves.spent_add_le (h : Evolves rate a spent b) :
    spent + b.tokens ≤ a.tokens + rate * (b.time - a.time) := by
  induction h with
  | refl => simp
  | @gain spent b c _ _ ht ih =>
    calc spent + c.tokens ≤ spent + (b.tokens + rate * (c.time - b.time)) := by linarith
      _ ≤ a.tokens + rate * (b.time - a.time) + rate * (c.time - b.time) := by linarith
      _ = a.tokens + rate * (c.time - a.time) := by ring
  | @draw spent b c cost _ heq ht ih =>
    rw [heq]
    linarith

theorem Evolves.spent_le (h : Evolves rate a spent b) (hrate : 0 ≤ rate) (htokens : 0 ≤ b.tokens)
    (hlast : b.time ≤ last) : spent ≤ a.tokens + rate * (last - a.time) := by
  have hbalance := h.spent_add_le
  have hgain : rate * (b.time - a.time) ≤ rate * (last - a.time) :=
    mul_le_mul_of_nonneg_left (by linarith) hrate
  linarith

end TokenBucket
