import GoClean.Lib.Transition

/-!
# Simulation

A map of states under which every step of one system is a run of another.
-/

namespace Transition

variable {σ σ' α α' : Type} {step : σ → α → Option σ} {step' : σ' → α' → Option σ'}
    {ok : σ → α → σ → Prop}
  {ok' : σ' → α' → σ' → Prop} {s t : σ}

theorem Run.single {a : α} (hs : step s a = some t) (ho : ok s a t) : Run step ok s t :=
  .tail .refl hs ho

theorem Run.simulates (f : σ → σ')
    (h : ∀ s a t, step s a = some t → ok s a t → Run step' ok' (f s) (f t)) (hr : Run step ok s t) :
    Run step' ok' (f s) (f t) := by
  induction hr with
  | refl => exact .refl
  | tail _ hs ho ih => exact ih.trans (h _ _ _ hs ho)

end Transition
