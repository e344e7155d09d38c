import K210Firmware.Library.Memory
import Mathlib.Data.List.Basic

/-!
# Full-duplex transfers

One channel fetches the frames to send, another stores the frames received. They interleave in any
order in which a frame is stored only after the frame sent with it has been fetched. `Schedule` is
one such order of `count` frames, and `run_rule` is the induction over it: an invariant may speak of
the lag of each fetch, the number of frames that had been stored when it was made.
-/

namespace K210Firmware.Duplex

open Memory

inductive Event
  | fetch
  | store
  deriving DecidableEq, Repr

/-- Each frame is stored after it was fetched. -/
def Causal : ℕ → ℕ → List Event → Prop
  | _, _, [] => True
  | fetched, stored, .fetch :: events => Causal (fetched + 1) stored events
  | fetched, stored, .store :: events => stored < fetched ∧ Causal fetched (stored + 1) events

/-- An order in which `count` frames are fetched and stored. -/
structure Schedule (count : ℕ) where
  events : List Event
  fetches : events.count .fetch = count
  stores : events.count .store = count
  causal : Causal 0 0 events

/-- The number of frames stored before each fetch. -/
def lags : ℕ → List Event → List ℕ
  | _, [] => []
  | stored, .fetch :: events => stored :: lags stored events
  | stored, .store :: events => lags (stored + 1) events

def Schedule.lags {count : ℕ} (schedule : Schedule count) : List ℕ :=
  Duplex.lags 0 schedule.events

theorem length_lags (stored : ℕ) (events : List Event) :
    (lags stored events).length = events.count .fetch := by
  induction events generalizing stored with
  | nil => rfl
  | cons event events ih =>
    cases event with
    | fetch => rw [lags, List.length_cons, ih, List.count_cons_self]
    | store => rw [lags, ih, List.count_cons_of_ne (by decide)]

theorem Schedule.length_lags {count : ℕ} (schedule : Schedule count) :
    schedule.lags.length = count :=
  (Duplex.length_lags 0 schedule.events).trans schedule.fetches

variable {State : Type}

/-- The frames are numbered by the fetches and by the stores before them. -/
def run (fetch store : ℕ → State → Except Fault State) :
    ℕ → ℕ → List Event → State → Except Fault State
  | _, _, [], state => .ok state
  | fetched, stored, .fetch :: events, state => do
    let state ← fetch fetched state
    run fetch store (fetched + 1) stored events state
  | fetched, stored, .store :: events, state => do
    let state ← store stored state
    run fetch store fetched (stored + 1) events state

variable {fetch store : ℕ → State → Except Fault State} {invariant : List ℕ → ℕ → State → Prop}

/-- The rule from the middle of a transfer on; `past` are the lags of the fetches so far. -/
theorem run_of_invariant {count : ℕ}
    (hfetch : ∀ past stored state, past.length < count → invariant past stored state →
      ∃ next, fetch past.length state = .ok next ∧ invariant (past ++ [stored]) stored next)
    (hstore : ∀ past stored state, stored < past.length → past.length ≤ count →
      invariant past stored state →
        ∃ next, store stored state = .ok next ∧ invariant past (stored + 1) next)
    (events : List Event) (past : List ℕ) (stored : ℕ) (state : State)
    (hcount : past.length + events.count .fetch = count)
    (hcausal : Causal past.length stored events) (h : invariant past stored state) :
    ∃ last, run fetch store past.length stored events state = .ok last ∧
      invariant (past ++ lags stored events) (stored + events.count .store) last := by
  induction events generalizing past stored state with
  | nil => exact ⟨state, rfl, by simpa [lags] using h⟩
  | cons event events ih =>
    cases event with
    | fetch =>
      rw [List.count_cons_self] at hcount
      obtain ⟨next, hnext, hinvariant⟩ := hfetch past stored state (by omega) h
      have hlength : (past ++ [stored]).length = past.length + 1 := by simp
      obtain ⟨last, hlast, hfinal⟩ := ih (past ++ [stored]) stored next
        (by rw [hlength]; omega) (by rw [hlength]; exact hcausal) hinvariant
      refine ⟨last, ?_, ?_⟩
      · rw [run, hnext, ok_bind, ← hlength]
        exact hlast
      · rw [List.count_cons_of_ne (by decide), lags]
        simpa using hfinal
    | store =>
      rw [List.count_cons_of_ne (by decide)] at hcount
      obtain ⟨hlt, hrest⟩ := hcausal
      obtain ⟨next, hnext, hinvariant⟩ := hstore past stored state hlt (by omega) h
      obtain ⟨last, hlast, hfinal⟩ := ih past (stored + 1) next hcount hrest hinvariant
      refine ⟨last, ?_, ?_⟩
      · rw [run, hnext, ok_bind]
        exact hlast
      · rw [List.count_cons_self, lags, Nat.add_comm (events.count .store), ← Nat.add_assoc]
        exact hfinal

/-- **Transfer rule.** What every fetch and every store preserves holds at the end, of the lags of
the schedule. -/
theorem run_rule {count : ℕ} (schedule : Schedule count)
    (hfetch : ∀ past stored state, past.length < count → invariant past stored state →
      ∃ next, fetch past.length state = .ok next ∧ invariant (past ++ [stored]) stored next)
    (hstore : ∀ past stored state, stored < past.length → past.length ≤ count →
      invariant past stored state →
        ∃ next, store stored state = .ok next ∧ invariant past (stored + 1) next)
    {state : State} (h : invariant [] 0 state) :
    ∃ last, run fetch store 0 0 schedule.events state = .ok last ∧
      invariant schedule.lags count last := by
  obtain ⟨last, hlast, hfinal⟩ := run_of_invariant hfetch hstore schedule.events [] 0 state
    (by rw [List.length_nil, schedule.fetches, Nat.zero_add]) schedule.causal h
  rw [List.nil_append, Nat.zero_add, schedule.stores] at hfinal
  exact ⟨last, hlast, hfinal⟩

end K210Firmware.Duplex
