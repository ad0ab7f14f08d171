import Mathlib.Data.List.Basic

/-!
# Thread pools

The threads of a concurrent program as a list: a thread is named by its
index, a step replaces one entry, a spawn appends one. `set_cases` and
`snoc_cases` are the case splits behind every argument of the form "the
stepping thread, or another one, which did not change".

`Owns` and `Exclusive` speak about a resource each thread may own one of:
a marker, a lock, an identifier it has used. A thread's step keeps, acquires
or releases what it owns. `Apart` is exclusion for threads that may hold
many things.
-/

namespace Threads

variable {τ : Type} {pool : List τ} {i j : Nat} {c c' d : τ}

theorem set_cases (h : (pool.set i c')[j]? = some d) :
    (j = i ∧ d = c') ∨ (j ≠ i ∧ pool[j]? = some d) := by
  rw [List.getElem?_set] at h
  split at h
  · next he =>
    split at h
    · exact .inl ⟨he.symm, (Option.some.inj h).symm⟩
    · cases h
  · next he => exact .inr ⟨fun e => he e.symm, h⟩

theorem snoc_cases (h : (pool ++ [c])[j]? = some d) :
    (j = pool.length ∧ d = c) ∨ pool[j]? = some d := by
  rw [List.getElem?_append] at h
  split at h
  · exact .inr h
  · next hl =>
    rw [List.getElem?_singleton] at h
    split at h
    · exact .inl ⟨by omega, (Option.some.inj h).symm⟩
    · cases h

theorem set_self (h : pool[i]? = some c) : (pool.set i c')[i]? = some c' := by
  rw [List.getElem?_set, if_pos rfl, if_pos (List.getElem?_eq_some_iff.mp h).1]

theorem set_of_ne (hne : j ≠ i) : (pool.set i c')[j]? = pool[j]? := by
  rw [List.getElem?_set, if_neg hne.symm]

theorem snoc_of_some (h : pool[j]? = some d) : (pool ++ [c])[j]? = some d := by
  rw [List.getElem?_append, if_pos (List.getElem?_eq_some_iff.mp h).1, h]

/-- What every thread satisfies survives a step if the stepping thread
satisfies it afterwards. -/
theorem forall_set {P : τ → Prop} (h : ∀ (j : Nat) d, pool[j]? = some d → P d) (hc : P c') :
    ∀ (j : Nat) d, (pool.set i c')[j]? = some d → P d := by
  intro j d hd
  rcases set_cases hd with ⟨-, rfl⟩ | ⟨-, hd⟩
  · exact hc
  · exact h j d hd

theorem forall_snoc {P : τ → Prop} (h : ∀ (j : Nat) d, pool[j]? = some d → P d) (hc : P c) :
    ∀ (j : Nat) d, (pool ++ [c])[j]? = some d → P d := by
  intro j d hd
  rcases snoc_cases hd with ⟨-, rfl⟩ | hd
  · exact hc
  · exact h j d hd

theorem exists_set {Q : τ → Prop} (hc : pool[i]? = some c) (hkeep : Q c → Q c')
    (h : ∃ (j : Nat) (d : τ), pool[j]? = some d ∧ Q d) :
    ∃ (j : Nat) (d : τ), (pool.set i c')[j]? = some d ∧ Q d := by
  obtain ⟨j, d, hd, hq⟩ := h
  by_cases hj : j = i
  · subst hj
    rw [hc] at hd
    cases hd
    exact ⟨j, c', set_self hc, hkeep hq⟩
  · exact ⟨j, d, (set_of_ne hj).trans hd, hq⟩

theorem exists_snoc {Q : τ → Prop} (h : ∃ (j : Nat) (d : τ), pool[j]? = some d ∧ Q d) :
    ∃ (j : Nat) (d : τ), (pool ++ [c])[j]? = some d ∧ Q d := by
  obtain ⟨j, d, hd, hq⟩ := h
  exact ⟨j, d, snoc_of_some hd, hq⟩

def anyOther (pool : List τ) (i : Nat) (p : τ → Bool) : Bool :=
  pool.zipIdx.any fun e => decide (e.2 ≠ i) && p e.1

theorem anyOther_iff :
    anyOther pool i p = true ↔ ∃ (j : Nat) (d : τ), j ≠ i ∧ pool[j]? = some d ∧ p d = true := by
  simp only [anyOther, List.any_eq_true, Bool.and_eq_true, decide_eq_true_eq, Prod.exists,
    List.mem_zipIdx_iff_getElem?]
  constructor
  · rintro ⟨d, j, hd, hne, hp⟩
    exact ⟨j, d, hne, hd, hp⟩
  · rintro ⟨j, d, hne, hd, hp⟩
    exact ⟨d, j, hd, hne, hp⟩

theorem anyOther_eq_false : anyOther pool i p = false ↔
    ∀ (j : Nat) (d : τ), j ≠ i → pool[j]? = some d → p d = false := by
  rw [← Bool.not_eq_true, anyOther_iff]
  constructor
  · intro h j d hne hd
    exact Bool.eq_false_iff.mpr fun hp => h ⟨j, d, hne, hd, hp⟩
  · rintro h ⟨j, d, hne, hd, hp⟩
    exact absurd hp (Bool.eq_false_iff.mp (h j d hne hd))

-- ---------------------------------------------------------------------------
-- Ownership
-- ---------------------------------------------------------------------------

section
variable {κ : Type} {owned : τ → Option κ} {k k' : κ}

def Apart (held : τ → κ → Prop) (pool : List τ) : Prop :=
  ∀ (i j : Nat) (c d : τ) (k : κ), pool[i]? = some c → pool[j]? = some d →
    held c k → held d k → i = j

section
variable {held : τ → κ → Prop}

theorem apart_nil : Apart held [] := by
  intro i j c d k hc
  simp at hc

theorem apart_set (hap : Apart held pool)
    (hfree : ∀ k, held c' k → ∀ (j : Nat) (d : τ), j ≠ i → pool[j]? = some d → ¬ held d k) :
    Apart held (pool.set i c') := by
  intro j l d e k hd he hdk hek
  rcases set_cases hd with ⟨hj, rfl⟩ | ⟨hj, hd'⟩ <;> rcases set_cases he with ⟨hl, rfl⟩ | ⟨hl, he'⟩
  · exact hj.trans hl.symm
  · exact absurd hek (hfree k hdk l e hl he')
  · exact absurd hdk (hfree k hek j d hj hd')
  · exact hap j l d e k hd' he' hdk hek

theorem apart_snoc (hap : Apart held pool) (hnew : ∀ k, ¬ held c k) : Apart held (pool ++ [c]) := by
  intro i j d e k hd he hdk hek
  rcases snoc_cases hd with ⟨-, rfl⟩ | hd
  · exact absurd hdk (hnew k)
  · rcases snoc_cases he with ⟨-, rfl⟩ | he
    · exact absurd hek (hnew k)
    · exact hap i j d e k hd he hdk hek

end

def Owns (owned : τ → Option κ) (pool : List τ) (k : κ) : Prop :=
  ∃ (i : Nat) (c : τ), pool[i]? = some c ∧ owned c = some k

def Exclusive (owned : τ → Option κ) (pool : List τ) : Prop :=
  ∀ (i j : Nat) (c d : τ) (k : κ), pool[i]? = some c → pool[j]? = some d →
    owned c = some k → owned d = some k → i = j

theorem not_owns_nil : ¬ Owns owned [] k := by
  rintro ⟨i, c, h, -⟩
  simp at h

theorem exclusive_nil : Exclusive owned [] := by
  intro i j c d k hc
  simp at hc

theorem owns_set (h : pool[i]? = some c) :
    Owns owned (pool.set i c') k ↔
      owned c' = some k ∨ ∃ (j : Nat) (d : τ), j ≠ i ∧ pool[j]? = some d ∧ owned d = some k := by
  constructor
  · rintro ⟨j, d, hd, hk⟩
    rcases set_cases hd with ⟨-, rfl⟩ | ⟨hne, hd⟩
    · exact .inl hk
    · exact .inr ⟨j, d, hne, hd, hk⟩
  · rintro (hk | ⟨j, d, hne, hd, hk⟩)
    · exact ⟨i, c', set_self h, hk⟩
    · exact ⟨j, d, (set_of_ne hne).trans hd, hk⟩

theorem owns_iff (h : pool[i]? = some c) :
    Owns owned pool k ↔
      owned c = some k ∨ ∃ (j : Nat) (d : τ), j ≠ i ∧ pool[j]? = some d ∧ owned d = some k := by
  constructor
  · rintro ⟨j, d, hd, hk⟩
    by_cases hj : j = i
    · rw [hj, h] at hd
      cases hd
      exact .inl hk
    · exact .inr ⟨j, d, hj, hd, hk⟩
  · rintro (hk | ⟨j, d, -, hd, hk⟩)
    · exact ⟨i, c, h, hk⟩
    · exact ⟨j, d, hd, hk⟩

theorem owns_keep (h : pool[i]? = some c) (hkeep : owned c' = owned c) :
    Owns owned (pool.set i c') k ↔ Owns owned pool k := by
  rw [owns_set h, owns_iff h, hkeep]

theorem owns_acquire (h : pool[i]? = some c) (hfree : owned c = none) (hacq : owned c' = some k') :
    Owns owned (pool.set i c') k ↔ k = k' ∨ Owns owned pool k := by
  rw [owns_set h, owns_iff h, hfree, hacq]
  simp [eq_comm]

theorem owns_release (hex : Exclusive owned pool) (h : pool[i]? = some c) (hown : owned c = some k')
    (hrel : owned c' = none) : Owns owned (pool.set i c') k ↔ k ≠ k' ∧ Owns owned pool k := by
  rw [owns_set h, owns_iff h, hown, hrel]
  constructor
  · rintro (hk | ⟨j, d, hne, hd, hk⟩)
    · cases hk
    · refine ⟨fun he => hne (hex j i d c k' hd h (he ▸ hk) hown), .inr ⟨j, d, hne, hd, hk⟩⟩
  · rintro ⟨hne, hk | hother⟩
    · exact absurd (Option.some.inj hk).symm hne
    · exact .inr hother

theorem owns_snoc (hnew : owned c = none) : Owns owned (pool ++ [c]) k ↔ Owns owned pool k := by
  constructor
  · rintro ⟨j, d, hd, hk⟩
    rcases snoc_cases hd with ⟨-, rfl⟩ | hd
    · rw [hnew] at hk
      cases hk
    · exact ⟨j, d, hd, hk⟩
  · rintro ⟨j, d, hd, hk⟩
    exact ⟨j, d, snoc_of_some hd, hk⟩

theorem exclusive_set (hex : Exclusive owned pool)
    (hfree : ∀ k, owned c' = some k → ∀ (j : Nat) (d : τ), j ≠ i → pool[j]? = some d →
      owned d ≠ some k) :
    Exclusive owned (pool.set i c') :=
  show Apart (fun c k => owned c = some k) _ from apart_set hex hfree

theorem exclusive_keep (hex : Exclusive owned pool) (h : pool[i]? = some c)
    (hkeep : owned c' = owned c) : Exclusive owned (pool.set i c') :=
  exclusive_set hex fun k hk j d hj hd hdk => hj (hex j i d c k hd h hdk (hkeep ▸ hk))

theorem exclusive_acquire (hex : Exclusive owned pool) (hacq : owned c' = some k')
    (hfree : ¬ Owns owned pool k') : Exclusive owned (pool.set i c') := by
  refine exclusive_set hex fun k hk j d _ hd hdk => hfree ⟨j, d, hd, ?_⟩
  rw [hdk, ← hk, hacq]

theorem exclusive_release (hex : Exclusive owned pool) (hrel : owned c' = none) :
    Exclusive owned (pool.set i c') :=
  exclusive_set hex fun k hk => absurd hk (by simp [hrel])

theorem exclusive_snoc (hex : Exclusive owned pool) (hnew : owned c = none) :
    Exclusive owned (pool ++ [c]) :=
  show Apart (fun c k => owned c = some k) _ from apart_snoc hex (by simp [hnew])

end

end Threads
