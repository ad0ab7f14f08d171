import Mathlib.Logic.Relation

/-!
# Runs of a transition system

A system is a partial step function on states; an action chooses which of
the possible transitions is taken, so a run is one interleaving. `Run step
ok s t` is a run from `s` to `t` each of whose transitions satisfies `ok`.
`Run.invariant` is the only induction most safety proofs need.
-/

namespace Transition

variable {σ α : Type}

/-- A run whose transitions all satisfy `ok`. -/
inductive Run (step : σ → α → Option σ) (ok : σ → α → σ → Prop) (s : σ) : σ → Prop
  | refl : Run step ok s s
  | tail {t a u} : Run step ok s t → step t a = some u → ok t a u → Run step ok s u

def Any : σ → α → σ → Prop := fun _ _ _ => True

abbrev Reaches (step : σ → α → Option σ) : σ → σ → Prop := Run step Any

variable {step : σ → α → Option σ} {ok ok' : σ → α → σ → Prop} {s t u : σ}

theorem Run.mono (h : ∀ s a t, step s a = some t → ok s a t → ok' s a t) (hr : Run step ok s t) :
    Run step ok' s t := by
  induction hr with
  | refl => exact .refl
  | tail _ hs ho ih => exact .tail ih hs (h _ _ _ hs ho)

theorem Run.reaches (hr : Run step ok s t) : Reaches step s t :=
  hr.mono fun _ _ _ _ _ => trivial

theorem Run.trans (hr : Run step ok s t) (hr' : Run step ok t u) : Run step ok s u := by
  induction hr' with
  | refl => exact hr
  | tail _ hs ho ih => exact .tail ih hs ho

theorem Run.invariant {P : σ → Prop} (h : ∀ s a t, P s → step s a = some t → ok s a t → P t)
    (hr : Run step ok s t) (hs : P s) : P t := by
  induction hr with
  | refl => exact hs
  | tail _ hst ho ih => exact h _ _ _ ih hst ho

def exec (step : σ → α → Option σ) : σ → List α → Option σ
  | s, [] => some s
  | s, a :: rest => (step s a).bind fun t => exec step t rest

theorem exec_run (actions : List α) (hok : ∀ a ∈ actions, ∀ s t, step s a = some t → ok s a t)
    (h : exec step s actions = some t) : Run step ok s t := by
  induction actions generalizing s with
  | nil =>
    cases h
    exact .refl
  | cons a rest ih =>
    obtain ⟨m, hm, hr⟩ := Option.bind_eq_some_iff.mp h
    have hfirst : Run step ok s m := .tail .refl hm (hok a (by simp) s m hm)
    exact hfirst.trans (ih (fun b hb => hok b (List.mem_cons_of_mem _ hb)) hr)

theorem exec_reaches (actions : List α) (h : exec step s actions = some t) : Reaches step s t :=
  exec_run actions (fun _ _ _ _ _ => trivial) h

end Transition
