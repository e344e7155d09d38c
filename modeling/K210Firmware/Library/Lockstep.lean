import K210Firmware.Library.Heap
import K210Firmware.Library.Transition
import Mathlib.Data.Option.Basic

/-!
# Two runs in lockstep

Two runs of a program from related states stay related if they take the same branches. `Alike`
relates outcomes: the same fault, or related results. It goes through sequences and loops, heaps
with related cells answer every access alike, and `Run.lockstep` carries the relation through a
history.
-/

namespace K210Firmware.Lockstep

open Memory Transition

universe u

/-- Both programs end in the same fault, or in related values. -/
inductive Alike {Fault : Type*} {Value Other : Type*} (rel : Value → Other → Prop) :
    Except Fault Value → Except Fault Other → Prop
  | error (fault : Fault) : Alike rel (.error fault) (.error fault)
  | ok {value : Value} {other : Other} : rel value other → Alike rel (.ok value) (.ok other)

namespace Alike

variable {Fault : Type*} {Value Other Result Answer : Type u} {rel : Value → Other → Prop}
  {goal : Result → Answer → Prop}

theorem exists_ok {State Twin : Type*} {pairs : State → Twin → Prop} {state : State}
    {outcome : Except Fault Twin} (h : Alike pairs (.ok state) outcome) :
    ∃ twin, outcome = .ok twin ∧ pairs state twin := by
  cases h with
  | ok hrel => exact ⟨_, rfl, hrel⟩

theorem related {State Twin : Type*} {pairs : State → Twin → Prop} {state : State} {twin : Twin}
    (h : Alike pairs (.ok state : Except Fault State) (.ok twin)) : pairs state twin := by
  cases h with
  | ok hrel => exact hrel

theorem bind {first : Except Fault Value} {second : Except Fault Other}
    {next : Value → Except Fault Result} {follow : Other → Except Fault Answer}
    (h : Alike rel first second)
    (hnext : ∀ value other, rel value other → Alike goal (next value) (follow other)) :
    Alike goal (first >>= next) (second >>= follow) := by
  cases h with
  | error fault => exact .error fault
  | ok hrel => exact hnext _ _ hrel

/-- A loop over the same items. -/
theorem foldlM {Item : Type*} {step : Value → Item → Except Fault Value}
    {pace : Other → Item → Except Fault Other}
    (hstep : ∀ value other item, rel value other → Alike rel (step value item) (pace other item))
    (items : List Item) {value : Value} {other : Other} (h : rel value other) :
    Alike rel (items.foldlM step value) (items.foldlM pace other) := by
  induction items generalizing value other with
  | nil => exact .ok h
  | cons item items ih =>
    rw [List.foldlM_cons, List.foldlM_cons]
    exact (hstep value other item h).bind fun _ _ hrel ↦ ih hrel

end Alike

/-! ## Heaps -/

section Heap

variable {Object Twin : Type*} {rel : Object → Twin → Prop} {heap : Heap Object} {twin : Heap Twin}

/-- The same addresses are live and hold related objects. -/
def HeapAlike (rel : Object → Twin → Prop) (heap : Heap Object) (twin : Heap Twin) : Prop :=
  ∀ address, Option.Rel rel (heap.cell address) (twin.cell address)

theorem HeapAlike.cell_eq_none (h : HeapAlike rel heap twin) (address : Address) :
    heap.cell address = none ↔ twin.cell address = none := by
  have hcell := h address
  generalize heap.cell address = left at hcell
  generalize twin.cell address = right at hcell
  cases hcell <;> simp

theorem HeapAlike.fresh_iff (h : HeapAlike rel heap twin) (address : Address) :
    heap.Fresh address ↔ twin.Fresh address :=
  and_congr_right' (h.cell_eq_none address)

theorem HeapAlike.load (h : HeapAlike rel heap twin) (address : Address) :
    Alike rel (heap.load address) (twin.load address) := by
  have hcell := h address
  rw [Heap.load, Heap.load]
  split_ifs
  · exact .error _
  · generalize heap.cell address = left at hcell
    generalize twin.cell address = right at hcell
    cases hcell with
    | some hrel => exact .ok hrel
    | none => exact .error _

theorem HeapAlike.set (h : HeapAlike rel heap twin) (address : Address) {object : Object}
    {other : Twin} (hrel : rel object other) :
    HeapAlike rel (heap.set address (some object)) (twin.set address (some other)) := by
  intro place
  by_cases hone : place = address
  · subst hone
    rw [Heap.cell_set_self, Heap.cell_set_self]
    exact .some hrel
  · rw [Heap.cell_set_of_ne hone, Heap.cell_set_of_ne hone]
    exact h place

end Heap

/-! ## Histories -/

/-- **Lockstep rule.** If related states enable the same events and steps keep the relation, then
a run of one system is matched by a run of the other. -/
theorem Run.lockstep {State Twin Event Fault : Type*} {system : System State Event Fault}
    {other : System Twin Event Fault} {rel : State → Twin → Prop}
    (henabled : ∀ state twin event, rel state twin → system.enabled state event →
      other.enabled twin event)
    (hstep : ∀ state twin event, rel state twin →
      Alike rel (system.step state event) (other.step twin event))
    {first last : State} {events : List Event} (hrun : system.Run first events last)
    {twin : Twin} (hrel : rel first twin) :
    ∃ reached, other.Run twin events reached ∧ rel last reached := by
  induction hrun generalizing twin with
  | nil state => exact ⟨twin, .nil twin, hrel⟩
  | cons hevent hnext _ ih =>
    obtain ⟨next, hother, hmiddle⟩ := (hnext ▸ hstep _ twin _ hrel).exists_ok
    obtain ⟨reached, hreached, hlast⟩ := ih hmiddle
    exact ⟨reached, .cons (henabled _ _ _ hrel hevent) hother hreached, hlast⟩

end K210Firmware.Lockstep
