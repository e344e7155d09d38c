import K210Firmware.Library.Heap
import Mathlib.Data.Set.Insert
import Mathlib.Data.Set.Function

/-!
# Inventories

A set of entries describes a heap: each entry has an object of its own there, and there are no
other objects. Allocating an object enters it, and freeing one removes its entry.
-/

namespace K210Firmware.Memory

structure Inventory {Object Entry : Type*} (heap : Heap Object) (address : Entry → Address)
    (object : Entry → Object) (entries : Set Entry) : Prop where
  nonnull : ∀ entry ∈ entries, address entry ≠ 0
  live : ∀ entry ∈ entries, heap.cell (address entry) = some (object entry)
  owned : ∀ place, heap.cell place ≠ none → ∃ entry ∈ entries, address entry = place
  separate : Set.InjOn address entries

namespace Inventory

variable {Object Entry : Type*} {heap : Heap Object} {address : Entry → Address}
  {object : Entry → Object} {entries : Set Entry} {entry : Entry}

theorem empty (address : Entry → Address) (object : Entry → Object) :
    Inventory Heap.empty address object ∅ where
  nonnull := nofun
  live := nofun
  owned _ h := absurd rfl h
  separate := nofun

/-- The object at an address is that of an entry. -/
theorem entry_of_cell (h : Inventory heap address object entries) {place : Address}
    {found : Object} (hcell : heap.cell place = some found) :
    ∃ entry ∈ entries, address entry = place ∧ object entry = found := by
  obtain ⟨entry, hentry, rfl⟩ := h.owned place (by rw [hcell]; nofun)
  exact ⟨entry, hentry, rfl, Option.some.inj ((h.live entry hentry).symm.trans hcell)⟩

/-- A fresh address is that of no entry. -/
theorem ne_of_fresh (h : Inventory heap address object entries) {place : Address}
    (hfresh : heap.Fresh place) (hentry : entry ∈ entries) : address entry ≠ place := by
  rintro rfl
  cases hfresh.2.symm.trans (h.live entry hentry)

/-- **Allocation.** -/
theorem allocate (h : Inventory heap address object entries)
    (hfresh : heap.Fresh (address entry)) :
    Inventory (heap.set (address entry) (some (object entry))) address object
      (insert entry entries) where
  nonnull := by
    rintro other (rfl | hother)
    · exact hfresh.1
    · exact h.nonnull other hother
  live := by
    rintro other (rfl | hother)
    · exact Heap.cell_set_self _
    · rw [Heap.cell_set_of_ne (h.ne_of_fresh hfresh hother)]
      exact h.live other hother
  owned place hplace := by
    by_cases hsame : place = address entry
    · exact ⟨entry, Set.mem_insert .., hsame.symm⟩
    · rw [Heap.cell_set_of_ne hsame] at hplace
      obtain ⟨other, hother, haddress⟩ := h.owned place hplace
      exact ⟨other, Set.mem_insert_of_mem _ hother, haddress⟩
  separate := by
    have hnew : entry ∉ entries := fun hentry ↦ h.ne_of_fresh hfresh hentry rfl
    rw [Set.injOn_insert hnew]
    refine ⟨h.separate, ?_⟩
    rintro ⟨other, hother, haddress⟩
    exact h.ne_of_fresh hfresh hother haddress

/-- **Deallocation.** -/
theorem free (h : Inventory heap address object entries) (hentry : entry ∈ entries) :
    Inventory (heap.set (address entry) none) address object (entries \ {entry}) where
  nonnull other hother := h.nonnull other hother.1
  live other hother := by
    have hne : address other ≠ address entry :=
      fun haddress ↦ hother.2 (h.separate hother.1 hentry haddress)
    rw [Heap.cell_set_of_ne hne]
    exact h.live other hother.1
  owned place hplace := by
    by_cases hsame : place = address entry
    · rw [hsame, Heap.cell_set_self] at hplace
      exact absurd rfl hplace
    · rw [Heap.cell_set_of_ne hsame] at hplace
      obtain ⟨other, hother, rfl⟩ := h.owned place hplace
      refine ⟨other, ⟨hother, ?_⟩, rfl⟩
      rintro rfl
      exact hsame rfl
  separate := h.separate.mono Set.sdiff_subset

end Inventory

end K210Firmware.Memory
