import Mathlib.Logic.Relation

/-!
# Wait-for graphs

Who waits for whom as a relation; a deadlock is a cycle. A system changes
the graph in three ways: edges disappear, a thread that nobody waits for
starts to wait, and a thread acquires what others wait for or will wait for.
Only the last can close a cycle, and `Acyclic.into` says when it does not.
-/

namespace WaitFor

open Relation

variable {α : Type} {r r' : α → α → Prop} {a b c : α}

def Acyclic (r : α → α → Prop) : Prop := ∀ a, ¬ TransGen r a a

theorem Acyclic.mono (h : Acyclic r) (hsub : ∀ a b, r' a b → r a b) : Acyclic r' :=
  fun a hcycle => h a (TransGen.mono hsub a a hcycle)

theorem Acyclic.out (h : Acyclic r) (source : α) (hsub : ∀ a b, r' a b → r a b ∨ a = source)
    (hno : ∀ a, ¬ r' a source) : Acyclic r' := by
  have hne : ∀ a b, TransGen r' a b → b ≠ source := by
    rintro a b hpath rfl
    obtain ⟨c, -, hlast⟩ := TransGen.tail'_iff.mp hpath
    exact hno c hlast
  have hold : ∀ a b, a ≠ source → TransGen r' a b → TransGen r a b := by
    intro a b ha hpath
    induction hpath with
    | single hab => exact .single ((hsub _ _ hab).resolve_right ha)
    | tail hpath hbc ih => exact .tail ih ((hsub _ _ hbc).resolve_right (hne _ _ hpath))
  exact fun a hcycle => h a (hold a a (hne a a hcycle) hcycle)

section
variable {target : α} {S : α → Prop}

theorem reaches_of_into (hsub : ∀ a b, r' a b → r a b ∨ b = target ∧ S a)
    (h : ReflTransGen r target a) (hpath : ReflTransGen r' a b) : ReflTransGen r target b := by
  induction hpath with
  | refl => exact h
  | tail _ hcd ih =>
    rcases hsub _ _ hcd with hold | ⟨rfl, -⟩
    · exact ih.tail hold
    · exact .refl

theorem path_of_into (hsub : ∀ a b, r' a b → r a b ∨ b = target ∧ S a) (hpath : TransGen r' a b) :
    TransGen r a b ∨ ∃ c, ReflTransGen r' a c ∧ S c ∧ ReflTransGen r target b := by
  induction hpath with
  | single hab =>
    rcases hsub _ _ hab with hold | ⟨rfl, hS⟩
    · exact .inl (.single hold)
    · exact .inr ⟨_, .refl, hS, .refl⟩
  | tail hpath hbc ih =>
    rcases hsub _ _ hbc with hold | ⟨rfl, hS⟩
    · rcases ih with h | ⟨c, hac, hS, h⟩
      · exact .inl (h.tail hold)
      · exact .inr ⟨c, hac, hS, h.tail hold⟩
    · exact .inr ⟨_, hpath.to_reflTransGen, hS, .refl⟩

/-- New edges into one node close no cycle if the node reaches none of
their origins. -/
theorem Acyclic.into (h : Acyclic r) (target : α) (S : α → Prop)
    (hsub : ∀ a b, r' a b → r a b ∨ b = target ∧ S a)
    (hsafe : ∀ a, S a → ¬ ReflTransGen r target a) : Acyclic r' := by
  intro a hcycle
  rcases path_of_into hsub hcycle with hold | ⟨c, hac, hS, hta⟩
  · exact h a hold
  · exact hsafe c hS (reaches_of_into hsub hta hac)

end

end WaitFor
