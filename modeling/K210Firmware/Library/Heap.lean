import K210Firmware.Library.Memory
import Mathlib.Data.Nat.Notation
import Mathlib.Tactic.SplitIfs

/-!
# A heap of objects

Objects live at nonnull addresses. An access through the null pointer and one to an object that is
not live are faults, and so is freeing an object twice.
-/

namespace K210Firmware.Memory

/-- A pointer value; zero is the null pointer. -/
abbrev Address := ℕ

/-- The live objects by address. -/
structure Heap (Object : Type*) where
  cell : Address → Option Object

namespace Heap

variable {Object : Type*}

def empty : Heap Object := ⟨fun _ ↦ none⟩

/-- An address that an allocation may return. -/
def Fresh (heap : Heap Object) (address : Address) : Prop :=
  address ≠ 0 ∧ heap.cell address = none

def set (heap : Heap Object) (address : Address) (object : Option Object) : Heap Object :=
  ⟨Function.update heap.cell address object⟩

def load (heap : Heap Object) (address : Address) : Except Fault Object :=
  if address = 0 then .error .nullPointer
  else match heap.cell address with
    | none => .error .deadObject
    | some object => .ok object

def free (heap : Heap Object) (address : Address) : Except Fault (Heap Object) := do
  let _ ← heap.load address
  return heap.set address none

variable {heap : Heap Object} {address : Address}

theorem load_eq_ok {object : Object} (haddress : address ≠ 0)
    (hcell : heap.cell address = some object) : heap.load address = .ok object := by
  rw [load, if_neg haddress, hcell]

@[simp]
theorem cell_set_self (object : Option Object) : (heap.set address object).cell address = object :=
  Function.update_self ..

theorem cell_set_of_ne {other : Address} (hother : other ≠ address) (object : Option Object) :
    (heap.set address object).cell other = heap.cell other :=
  Function.update_of_ne hother ..

theorem free_eq_ok {object : Object} (haddress : address ≠ 0)
    (hcell : heap.cell address = some object) :
    heap.free address = .ok (heap.set address none) := by
  rw [free, load_eq_ok haddress hcell]
  rfl

end Heap

end K210Firmware.Memory
