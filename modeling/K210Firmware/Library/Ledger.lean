import Mathlib.Data.Nat.Notation
import Mathlib.Logic.Function.Basic
import Mathlib.Tactic.SplitIfs

/-!
# Occupancy ledgers

Each processor is occupied by one task at a time. The ledger keeps the total time that every task
has occupied every processor, which is what any measurement of processor time has to agree with.
-/

namespace K210Firmware

/-- The time, the task on each processor, and the time each task has had each processor. -/
structure Ledger (Core Task : Type*) where
  now : ℕ
  running : Core → Task
  ran : Task → Core → ℕ
  bounded : ∀ task core, ran task core ≤ now

namespace Ledger

variable {Core Task : Type*}

/-- Nothing has run yet. -/
def start (running : Core → Task) : Ledger Core Task :=
  ⟨0, running, fun _ _ ↦ 0, fun _ _ ↦ Nat.le_refl 0⟩

section Time

variable [DecidableEq Task]

/-- The time a task will have had a processor at `tick` if no task is dispatched before. -/
def ranUpTo (ledger : Ledger Core Task) (tick : ℕ) (task : Task) (core : Core) : ℕ :=
  ledger.ran task core + if ledger.running core = task then tick - ledger.now else 0

/-- Time passes up to `tick`. -/
def advance (ledger : Ledger Core Task) (tick : ℕ) : Ledger Core Task where
  now := ledger.now + (tick - ledger.now)
  running := ledger.running
  ran := ledger.ranUpTo tick
  bounded task core := by
    have hbounded := ledger.bounded task core
    unfold ranUpTo
    split_ifs <;> omega

variable {ledger : Ledger Core Task} {tick : ℕ} {task : Task} {core : Core}

theorem advance_now (h : ledger.now ≤ tick) : (ledger.advance tick).now = tick := by
  change ledger.now + (tick - ledger.now) = tick
  omega

theorem ran_le_ranUpTo : ledger.ran task core ≤ ledger.ranUpTo tick task core :=
  Nat.le_add_right ..

end Time

section Dispatch

variable [DecidableEq Core]

/-- Tasks stay on different processors when one processor gets a task that runs nowhere. -/
theorem injective_update {running : Core → Task} (h : Function.Injective running) {task : Task}
    (hidle : ∀ core, running core ≠ task) (core : Core) :
    Function.Injective (Function.update running core task) := by
  intro first second hsame
  by_cases hfirst : first = core
  · by_cases hsecond : second = core
    · rw [hfirst, hsecond]
    · rw [hfirst, Function.update_self, Function.update_of_ne hsecond] at hsame
      exact absurd hsame.symm (hidle second)
  · by_cases hsecond : second = core
    · rw [hsecond, Function.update_self, Function.update_of_ne hfirst] at hsame
      exact absurd hsame (hidle first)
    · rw [Function.update_of_ne hfirst, Function.update_of_ne hsecond] at hsame
      exact h hsame

def dispatch (ledger : Ledger Core Task) (core : Core) (task : Task) : Ledger Core Task :=
  { ledger with running := Function.update ledger.running core task }

/-- Every task runs on at most one processor. -/
def Exclusive (ledger : Ledger Core Task) : Prop := Function.Injective ledger.running

theorem Exclusive.dispatch {ledger : Ledger Core Task} (h : ledger.Exclusive) {task : Task}
    (hidle : ∀ core, ledger.running core ≠ task) (core : Core) :
    (ledger.dispatch core task).Exclusive :=
  injective_update h hidle core

end Dispatch

end Ledger

end K210Firmware
