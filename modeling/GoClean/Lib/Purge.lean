import Mathlib.Data.List.Basic
import Mathlib.Order.Basic

/-!
# Runs with some of their calls left out

A deterministic system answers each call and moves on. `answers step s calls`
is what a run returns, call by call. `answers_purge` compares a run with the
run of the calls that satisfy `keep`, possibly of another system, through a
relation `R t` between the two states that may depend on the time `t` of the
last call; calls come in the order of their times.
-/

namespace Purge

variable {σ σ' α β τ : Type}

def answers (step : σ → α → σ × β) : σ → List α → List (α × β)
  | _, [] => []
  | s, a :: rest => (a, (step s a).2) :: answers step (step s a).1 rest

def final (step : σ → α → σ × β) : σ → List α → σ
  | s, [] => s
  | s, a :: rest => final step (step s a).1 rest

theorem fst_mem_of_mem_answers {step : σ → α → σ × β} {calls : List α} :
    ∀ {s p}, p ∈ answers step s calls → p.1 ∈ calls := by
  induction calls with
  | nil => intro s p h; cases h
  | cons a rest ih =>
    intro s p h
    rcases List.mem_cons.mp h with rfl | h
    · exact List.mem_cons_self
    · exact List.mem_cons_of_mem _ (ih h)

theorem final_invariant {step : σ → α → σ × β} {P : σ → Prop} (h : ∀ s a, P s → P (step s a).1)
    (calls : List α) : ∀ {s}, P s → P (final step s calls) := by
  induction calls with
  | nil => exact id
  | cons a rest ih => exact fun hs => ih (h _ a hs)

def Ordered [Preorder τ] (time : α → τ) (calls : List α) : Prop :=
  calls.Pairwise fun a b => time a ≤ time b

instance [Preorder τ] [DecidableLE τ] (time : α → τ) (calls : List α) :
    Decidable (Ordered time calls) :=
  inferInstanceAs (Decidable (calls.Pairwise _))

variable [Preorder τ] {step : σ → α → σ × β} {step' : σ' → α → σ' × β}
    {keep : α → Bool} {time : α → τ}
  {R : τ → σ → σ' → Prop} {ok : α → β → Prop}

/-- What one call has to preserve: a call that is kept gives the same answer
in both systems, one that is left out is not seen. -/
structure Unwinds (step : σ → α → σ × β) (step' : σ' → α → σ' × β) (keep : α → Bool) (time : α → τ)
    (ok : α → β → Prop) (R : τ → σ → σ' → Prop) : Prop where
  kept : ∀ {t s s' a}, R t s s' → t ≤ time a → ok a (step s a).2 → keep a = true →
    (step s a).2 = (step' s' a).2 ∧ R (time a) (step s a).1 (step' s' a).1
  dropped : ∀ {t s s' a}, R t s s' → t ≤ time a → ok a (step s a).2 → keep a = false →
    R (time a) (step s a).1 s'

theorem answers_purge (h : Unwinds step step' keep time ok R) {calls : List α} :
    ∀ {t s s'}, R t s s' → (∀ a ∈ calls, t ≤ time a) → Ordered time calls →
      (∀ p ∈ answers step s calls, ok p.1 p.2) →
      (answers step s calls).filter (fun p => keep p.1) = answers step' s' (calls.filter keep) := by
  induction calls with
  | nil => intros; rfl
  | cons a rest ih =>
    intro t s s' hR hlate hord hok
    have hle := hlate a List.mem_cons_self
    have hord' := List.pairwise_cons.mp hord
    have hoka := hok _ List.mem_cons_self
    have hok' : ∀ p ∈ answers step (step s a).1 rest, ok p.1 p.2 :=
      fun p hp => hok p (List.mem_cons_of_mem _ hp)
    cases hk : keep a with
    | true =>
      obtain ⟨hsame, hR'⟩ := h.kept hR hle hoka hk
      simp only [answers, List.filter_cons, hk, if_true]
      rw [hsame, ih hR' hord'.1 hord'.2 hok']
    | false =>
      have hR' := h.dropped hR hle hoka hk
      simp only [answers, List.filter_cons, hk, Bool.false_eq_true, if_false]
      exact ih hR' hord'.1 hord'.2 hok'

theorem answers_purge_init (h : Unwinds step step' keep time ok R) (hinit : ∀ t, R t s s')
    {calls : List α} (hord : Ordered time calls) (hok : ∀ p ∈ answers step s calls, ok p.1 p.2) :
    (answers step s calls).filter (fun p => keep p.1) = answers step' s' (calls.filter keep) := by
  cases calls with
  | nil => rfl
  | cons a rest =>
    refine answers_purge h (hinit (time a)) (fun b hb => ?_) hord hok
    rcases List.mem_cons.mp hb with rfl | hb
    · exact le_rfl
    · exact (List.pairwise_cons.mp hord).1 b hb

end Purge
