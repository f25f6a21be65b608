import Mathlib.Logic.Function.Basic

namespace Transition
variable {σ α : Type}

/-- Any number of steps, each by an action that is allowed. -/
inductive Run (step : σ → α → σ → Prop) (allowed : α → Prop) (s : σ) : σ → Prop
  | refl : Run step allowed s s
  | step {s' s'' : σ} {action : α} (run : Run step allowed s s') (permitted : allowed action)
      (last : step s' action s'') : Run step allowed s s''

variable {step : σ → α → σ → Prop} {allowed allowed' : α → Prop} {s s' s'' : σ}

/-- What every allowed step keeps holds in every state reached. -/
theorem Run.keeps (run : Run step allowed s s') {motive : σ → Prop} (start : motive s)
    (kept : ∀ t t' action, motive t → allowed action → step t action t' → motive t') : motive s' := by
  induction run with
  | refl => exact start
  | step _ permitted last ih => exact kept _ _ _ ih permitted last

theorem Run.mono (run : Run step allowed s s') (weaker : ∀ action, allowed action → allowed' action) :
    Run step allowed' s s' := by
  induction run with
  | refl => exact .refl
  | step _ permitted last ih => exact .step ih (weaker _ permitted) last

theorem Run.trans (first : Run step allowed s s') (later : Run step allowed s' s'') : Run step allowed s s'' := by
  induction later with
  | refl => exact first
  | step _ permitted last ih => exact .step ih permitted last

end Transition
