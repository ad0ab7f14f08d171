import Mathlib.Data.Finset.Basic
import Mathlib.Logic.Function.Basic
import GoClean.Lib.Transition

/-!
# Locks and the threads that hold them

A lock is a word of the state, and the stage of a thread says what the thread
holds. `Held` and `Shared` say that the word of an exclusive or a shared lock
agrees with the stages. Threads that only wait for threads further on cannot all
be blocked (`exists_unblocked`), and a rank bounds the length of every schedule
(`countP_add_rank_le`).
-/

namespace Locking

section Words
variable {ι κ : Type} {holds : κ → Bool} {stages : ι → κ} {word : Option ι}
  {readers : Finset ι} {i j : ι} {k : κ}

def Held (holds : κ → Bool) (stages : ι → κ) (word : Option ι) : Prop :=
  ∀ i, word = some i ↔ holds (stages i) = true

def Shared (holds : κ → Bool) (stages : ι → κ) (readers : Finset ι) : Prop :=
  ∀ i, i ∈ readers ↔ holds (stages i) = true

theorem Held.unique (h : Held holds stages word) (hi : holds (stages i) = true)
    (hj : holds (stages j) = true) : i = j :=
  Option.some.inj (((h i).mpr hi).symm.trans ((h j).mpr hj))

theorem Held.eq_none (h : Held holds stages word) (hfree : ∀ i, holds (stages i) = false) :
    word = none := by
  refine Option.eq_none_iff_forall_ne_some.mpr fun i hi => ?_
  have hholds := (h i).mp hi
  rw [hfree i] at hholds
  cases hholds

theorem Shared.eq_empty (h : Shared holds stages readers)
    (hfree : ∀ i, holds (stages i) = false) : readers = ∅ := by
  refine Finset.eq_empty_of_forall_notMem fun i hi => ?_
  have hholds := (h i).mp hi
  rw [hfree i] at hholds
  cases hholds

variable [DecidableEq ι]

theorem holds_keep {P : ι → Prop} (h : ∀ i, P i ↔ holds (stages i) = true)
    (hk : holds k = holds (stages i)) (j : ι) :
    P j ↔ holds (Function.update stages i k j) = true := by
  by_cases hj : j = i
  · subst hj
    rw [Function.update_self, hk]
    exact h j
  · rw [Function.update_of_ne hj]
    exact h j

theorem Held.keep (h : Held holds stages word) (hk : holds k = holds (stages i)) :
    Held holds (Function.update stages i k) word :=
  holds_keep h hk

theorem Held.acquire (h : Held holds stages none) (hk : holds k = true) :
    Held holds (Function.update stages i k) (some i) := by
  intro j
  by_cases hj : j = i
  · subst hj
    simp [hk]
  · rw [Function.update_of_ne hj, ← h j]
    simp [Ne.symm hj]

theorem Held.release (h : Held holds stages word) (hi : holds (stages i) = true)
    (hk : holds k = false) : Held holds (Function.update stages i k) none := by
  intro j
  by_cases hj : j = i
  · subst hj
    simp [hk]
  · rw [Function.update_of_ne hj]
    exact ⟨nofun, fun hholds => absurd (h.unique hholds hi) hj⟩

theorem Shared.keep (h : Shared holds stages readers) (hk : holds k = holds (stages i)) :
    Shared holds (Function.update stages i k) readers :=
  holds_keep h hk

theorem Shared.acquire (h : Shared holds stages readers) (hk : holds k = true) :
    Shared holds (Function.update stages i k) (insert i readers) := by
  intro j
  by_cases hj : j = i
  · subst hj
    simp [hk]
  · rw [Function.update_of_ne hj, Finset.mem_insert, ← h j]
    simp [hj]

theorem Shared.release (h : Shared holds stages readers) (hk : holds k = false) :
    Shared holds (Function.update stages i k) (readers.erase i) := by
  intro j
  by_cases hj : j = i
  · subst hj
    simp [hk]
  · rw [Function.update_of_ne hj, Finset.mem_erase, ← h j]
    simp [hj]

end Words

/-- If every thread that cannot go on waits for one of a higher level, some
thread can go on. -/
theorem exists_unblocked {ι : Type} {active can : ι → Prop} {level : ι → Nat} {bound : Nat} {i : ι}
    (hbound : ∀ i, level i ≤ bound)
    (hwaits : ∀ i, active i → ¬can i → ∃ j, active j ∧ level i < level j) (hi : active i) :
    ∃ j, can j := by
  induction hn : bound - level i using Nat.strongRecOn generalizing i with
  | _ n ih =>
    by_cases hcan : can i
    · exact ⟨i, hcan⟩
    · obtain ⟨j, hj, hlt⟩ := hwaits i hi hcan
      have := hbound j
      exact ih (bound - level j) (by omega) hj rfl

open Transition in
theorem countP_add_rank_le {σ α : Type} {step : σ → α → Option σ} {own : α → Bool} {rank : σ → Nat}
    {s t : σ} (actions : List α)
    (h : ∀ a ∈ actions, ∀ s t, step s a = some t →
      rank t ≤ rank s ∧ (own a = true → rank t < rank s))
    (hrun : exec step s actions = some t) : actions.countP own + rank t ≤ rank s := by
  induction actions generalizing s with
  | nil =>
    cases hrun
    simp
  | cons a rest ih =>
    obtain ⟨m, hm, hrest⟩ := Option.bind_eq_some_iff.mp hrun
    obtain ⟨hle, hlt⟩ := h a List.mem_cons_self s m hm
    have hrank := ih (fun b hb => h b (List.mem_cons_of_mem _ hb)) hrest
    rw [List.countP_cons]
    split
    · next hown =>
      have := hlt hown
      omega
    · omega

end Locking
