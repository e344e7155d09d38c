import Mathlib.Data.Nat.Notation
import Mathlib.Logic.Function.Iterate

/-!
# Iterations that settle

A step that keeps an invariant and brings every unsettled state strictly nearer to the settled
ones reaches them, and stays there, after as many steps as it was away.
-/

namespace K210Firmware.Settling

variable {State : Type*}

structure Settles (step : State → State) (invariant settled : State → Prop)
    (distance : State → ℕ) : Prop where
  keeps : ∀ state, invariant state → invariant (step state)
  stays : ∀ state, invariant state → settled state → settled (step state)
  nears : ∀ state, invariant state → ¬ settled state → distance (step state) < distance state

variable {step : State → State} {invariant settled : State → Prop} {distance : State → ℕ}
  {state : State}

theorem Settles.invariant_iterate (h : Settles step invariant settled distance)
    (hstate : invariant state) (count : ℕ) : invariant (step^[count] state) := by
  induction count with
  | zero => exact hstate
  | succ count ih =>
    rw [Function.iterate_succ_apply']
    exact h.keeps _ ih

/-- **Settling.** -/
theorem Settles.iterate (h : Settles step invariant settled distance) (hstate : invariant state)
    {count : ℕ} (hcount : distance state ≤ count) : settled (step^[count] state) := by
  have hnear : settled (step^[count] state) ∨
      distance (step^[count] state) + count ≤ distance state := by
    clear hcount
    induction count with
    | zero => exact .inr (Nat.le_refl _)
    | succ count ih =>
      have hinvariant := h.invariant_iterate hstate count
      rw [Function.iterate_succ_apply']
      by_cases hsettled : settled (step^[count] state)
      · exact .inl (h.stays _ hinvariant hsettled)
      · have hnears := h.nears _ hinvariant hsettled
        have hdistance := ih.resolve_left hsettled
        exact .inr (by omega)
  by_contra hunsettled
  have hinvariant := h.invariant_iterate hstate count
  -- the distance is used up, but an unsettled state could still be brought nearer
  have hnears := h.nears _ hinvariant hunsettled
  have hdistance := hnear.resolve_left hunsettled
  omega

end K210Firmware.Settling
