import Mathlib.Order.WellFounded
import MyIp.Foundations.Run

/-! # What a machine cannot avoid

`Inevitable` says that a machine comes to a goal whichever of the allowed events happen: as long as
it is not there an allowed event is possible, and after finitely many of them it is there.
`inevitable_of_rank` shows it with an invariant and a rank that falls. -/

namespace EventMachine
set_option autoImplicit false

section Goal
variable {σ ε ω : Type} (step : σ → ε → Option (σ × ω)) (Allowed : σ → ε → Prop) (Goal : σ → Prop)

inductive Inevitable : σ → Prop
  | reached {s : σ} (h : Goal s) : Inevitable s
  | ahead {s : σ} (goes : ∃ e t o, Allowed s e ∧ step s e = some (t, o))
      (every : ∀ e t o, Allowed s e → step s e = some (t, o) → Inevitable t) : Inevitable s

variable {step Allowed Goal}

/-- Outside the goal an allowed event is possible, and each one keeps the invariant and lowers the
rank. -/
theorem inevitable_of_rank {α : Type} [Preorder α] [WellFoundedLT α] (rank : σ → α) (I : σ → Prop)
    (goes : ∀ s, I s → ¬Goal s → ∃ e t o, Allowed s e ∧ step s e = some (t, o))
    (falls : ∀ s e t o, I s → ¬Goal s → Allowed s e → step s e = some (t, o) →
      I t ∧ rank t < rank s) {s : σ} (h : I s) : Inevitable step Allowed Goal s := by
  induction hr : rank s using WellFoundedLT.induction generalizing s with
  | ind r ih =>
    by_cases hgoal : Goal s
    · exact .reached hgoal
    · refine .ahead (goes s h hgoal) fun e t o allowed made => ?_
      obtain ⟨hkeep, hless⟩ := falls s e t o h hgoal allowed made
      exact ih (rank t) (hr ▸ hless) hkeep rfl

end Goal

end EventMachine
