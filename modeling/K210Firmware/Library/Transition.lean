import Mathlib.Data.List.Basic

/-!
# Guarded transition systems

An environment offers events; an event that is enabled in the current state is served by one
atomic step, which either faults or produces the next state. Histories are lists of events.
`Run` records the complete fault-free executions and `Always` lifts a property of single steps to
every step of a history. The induction over a history is done here once: `Run.invariant` and
`Always.of_invariant` reduce a statement about runs to one preservation step, and
`always_iff_guard` turns a step-level equivalence into one about whole histories.
-/

namespace K210Firmware.Transition

/-- Enabledness is the environment's side of a step; the outcome is the program's side. -/
structure System (State Event Fault : Type*) where
  enabled : State → Event → Prop
  step : State → Event → Except Fault State

namespace System

variable {State Event Fault : Type*} (system : System State Event Fault)

/-- Fault-free executions in which every event was enabled when it was served. -/
inductive Run : State → List Event → State → Prop
  | nil (state : State) : Run state [] state
  | cons {state next last : State} {event : Event} {events : List Event} :
      system.enabled state event → system.step state event = .ok next →
        Run next events last → Run state (event :: events) last

/-- The history, computed as long as its events are enabled and do not fault. -/
def execute [∀ state event, Decidable (system.enabled state event)] :
    State → List Event → Option State
  | state, [] => some state
  | state, event :: events =>
      if system.enabled state event then
        match system.step state event with
        | .ok next => execute next events
        | .error _ => none
      else none

/-- The property holds of every step of the history, up to the first fault or disabled event. -/
def Always (property : State → Event → Except Fault State → Prop) : State → List Event → Prop
  | _, [] => True
  | state, event :: events =>
      system.enabled state event →
        property state event (system.step state event) ∧
          ∀ next, system.step state event = .ok next → Always property next events

/-- A condition on the state before a step and the event served by it. -/
abbrev Guarded (guard : State → Event → Prop) : State → List Event → Prop :=
  system.Always (fun state event _ ↦ guard state event)

variable {system}

theorem Run.of_execute [∀ state event, Decidable (system.enabled state event)] {first last : State}
    {events : List Event} (h : system.execute first events = some last) :
    system.Run first events last := by
  induction events generalizing first with
  | nil =>
    obtain rfl := Option.some.inj h
    exact .nil first
  | cons event events ih =>
    rw [execute] at h
    split at h
    next henabled =>
      split at h
      next next hstep => exact .cons henabled hstep (ih h)
      next => cases h
    next => cases h

/-- What a computed history ends in. -/
theorem Run.exists_of_execute [∀ state event, Decidable (system.enabled state event)] {first : State}
    {events : List Event} {ends : State → Bool} (h : (system.execute first events).any ends) :
    ∃ last, system.Run first events last ∧ ends last := by
  obtain ⟨last, hlast, hends⟩ := (Option.any_eq_true _ _).mp h
  exact ⟨last, .of_execute hlast, hends⟩

/-- A history has one end only. -/
theorem Run.unique {first left right : State} {events : List Event}
    (hleft : system.Run first events left) (hright : system.Run first events right) :
    left = right := by
  induction hleft with
  | nil state =>
    cases hright
    rfl
  | cons _ hstep _ ih =>
    cases hright with
    | cons _ hother hrest =>
      obtain rfl := Except.ok.inj (hstep.symm.trans hother)
      exact ih hrest

theorem Run.append {first middle last : State} {before after : List Event}
    (hbefore : system.Run first before middle) (hafter : system.Run middle after last) :
    system.Run first (before ++ after) last := by
  induction hbefore with
  | nil state => exact hafter
  | cons henabled hstep _ ih => exact .cons henabled hstep (ih hafter)

/-- **Invariant rule.** What every step preserves holds in every reached state. -/
theorem Run.invariant {invariant : State → Prop}
    (hpreserves : ∀ state event next, invariant state → system.enabled state event →
      system.step state event = .ok next → invariant next)
    {first last : State} {events : List Event} (hrun : system.Run first events last)
    (hfirst : invariant first) : invariant last := by
  induction hrun with
  | nil state => exact hfirst
  | cons henabled hstep _ ih => exact ih (hpreserves _ _ _ hfirst henabled hstep)

/-- **Progress rule.** If no step from the invariant is blocked or faults, every history runs to
its end. -/
theorem Run.exists_of_progress {invariant : State → Prop}
    (hprogress : ∀ state event, invariant state → system.enabled state event ∧
      ∃ next, system.step state event = .ok next ∧ invariant next)
    {first : State} (hfirst : invariant first) (events : List Event) :
    ∃ last, system.Run first events last ∧ invariant last := by
  induction events generalizing first with
  | nil => exact ⟨first, .nil first, hfirst⟩
  | cons event events ih =>
    obtain ⟨henabled, next, hstep, hnext⟩ := hprogress first event hfirst
    obtain ⟨last, hrun, hlast⟩ := ih hnext
    exact ⟨last, .cons henabled hstep hrun, hlast⟩

theorem Always.cons {property : State → Event → Except Fault State → Prop} {state next : State}
    {event : Event} {events : List Event} (hstep : system.step state event = .ok next)
    (hproperty : property state event (.ok next)) (hrest : system.Always property next events) :
    system.Always property state (event :: events) := by
  refine fun _ ↦ ⟨hstep ▸ hproperty, fun other hother ↦ ?_⟩
  obtain rfl : next = other := Except.ok.inj (hstep.symm.trans hother)
  exact hrest

/-- `Always` speaks of exactly the steps that end a fault-free prefix of the history. -/
theorem always_iff_forall_run {property : State → Event → Except Fault State → Prop}
    {first : State} {events : List Event} :
    system.Always property first events ↔
      ∀ before event after reached, events = before ++ event :: after →
        system.Run first before reached → system.enabled reached event →
          property reached event (system.step reached event) := by
  induction events generalizing first with
  | nil => simp [Always]
  | cons head tail ih =>
    constructor
    · intro h before event after reached hsplit hrun henabled
      cases hrun with
      | nil =>
        obtain ⟨rfl, rfl⟩ : head = event ∧ tail = after := by simpa using hsplit
        exact (h henabled).1
      | cons hhead hstep hrest =>
        obtain ⟨rfl, htail⟩ := List.cons.inj hsplit
        exact ih.mp ((h hhead).2 _ hstep) _ event after reached htail hrest henabled
    · intro h henabled
      refine ⟨h [] head tail first rfl (.nil first) henabled, fun next hstep ↦ ih.mpr ?_⟩
      intro before event after reached hsplit hrun hreached
      exact h (head :: before) event after reached (by rw [hsplit]; rfl)
        (.cons henabled hstep hrun) hreached

/-- **Guarded rule.** From an inductive invariant, guarded steps satisfy the property. -/
theorem Always.of_invariant {property : State → Event → Except Fault State → Prop}
    {invariant : State → Prop} {guard : State → Event → Prop}
    (hsound : ∀ state event, invariant state → system.enabled state event → guard state event →
      property state event (system.step state event))
    (hpreserves : ∀ state event next, invariant state → system.enabled state event →
      guard state event → system.step state event = .ok next → invariant next)
    {first : State} {events : List Event} (hfirst : invariant first)
    (hguard : system.Guarded guard first events) : system.Always property first events := by
  induction events generalizing first with
  | nil => trivial
  | cons event events ih =>
    intro henabled
    obtain ⟨hhead, htail⟩ := hguard henabled
    exact ⟨hsound _ _ hfirst henabled hhead, fun next hstep ↦
      ih (hpreserves _ _ _ hfirst henabled hhead hstep) (htail next hstep)⟩

/-- The guarded rule where guarded steps end in the invariant or in one known fault. -/
theorem Always.of_outcomes {property : State → Event → Except Fault State → Prop}
    {invariant : State → Prop} {guard : State → Event → Prop} (fault : Fault)
    (hsound : ∀ state event, invariant state → system.enabled state event → guard state event →
      property state event (system.step state event))
    (houtcome : ∀ state event, invariant state → system.enabled state event → guard state event →
      system.step state event = .error fault ∨
        ∃ next, system.step state event = .ok next ∧ invariant next)
    {first : State} {events : List Event} (hfirst : invariant first)
    (hguard : system.Guarded guard first events) : system.Always property first events := by
  apply Always.of_invariant hsound _ hfirst hguard
  intro state event next hinvariant henabled hstate hstep
  rcases houtcome state event hinvariant henabled hstate with hfault | ⟨other, hother, hnext⟩
  · cases hfault.symm.trans hstep
  · obtain rfl : other = next := Except.ok.inj (hother.symm.trans hstep)
    exact hnext

/-- **Exactness rule.** If, under the invariant, a step has the property precisely when it meets
the guard, and guarded steps keep the invariant, then so it is for whole histories. -/
theorem always_iff_guarded {property : State → Event → Except Fault State → Prop}
    {invariant : State → Prop} {guard : State → Event → Prop}
    (hexact : ∀ state event, invariant state → system.enabled state event →
      (property state event (system.step state event) ↔ guard state event))
    (hpreserves : ∀ state event next, invariant state → system.enabled state event →
      guard state event → system.step state event = .ok next → invariant next)
    {first : State} {events : List Event} (hfirst : invariant first) :
    system.Always property first events ↔ system.Guarded guard first events := by
  induction events generalizing first with
  | nil => exact Iff.rfl
  | cons event events ih =>
    refine forall_congr' fun henabled ↦ ?_
    have hhead := hexact first event hfirst henabled
    constructor
    · rintro ⟨hproperty, hrest⟩
      have hguard := hhead.mp hproperty
      exact ⟨hguard, fun next hstep ↦
        (ih (hpreserves _ _ _ hfirst henabled hguard hstep)).mp (hrest next hstep)⟩
    · rintro ⟨hguard, hrest⟩
      exact ⟨hhead.mpr hguard, fun next hstep ↦
        (ih (hpreserves _ _ _ hfirst henabled hguard hstep)).mpr (hrest next hstep)⟩

end System

end K210Firmware.Transition
