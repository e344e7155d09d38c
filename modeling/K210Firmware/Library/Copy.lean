import K210Firmware.Library.Memory
import Mathlib.Data.Nat.Notation
import Mathlib.Tactic.SplitIfs

/-!
# Copies into and out of a block

`memcpy` between a block and a list, cell by cell. A copy that stays inside the block has the
effect of laying the list over its cells, and every other copy faults.
-/

namespace K210Firmware.Memory.Block

variable {Element : Type*}

/-- `memcpy(&block[index], values, length of values)`. -/
def store (block : Block Element) (index : ℤ) : List Element → Except Fault (Block Element)
  | [] => .ok block
  | value :: values => do
      let block ← block.write index value
      block.store (index + 1) values

/-- `memcpy(values, &block[index], count)`. -/
def load (block : Block Element) (index : ℤ) : ℕ → Except Fault (List Element)
  | 0 => .ok []
  | count + 1 => do
      let value ← block.read index
      let values ← block.load (index + 1) count
      return value :: values

/-- The values lie over the cells from `index` on. -/
def overlay (block : Block Element) (index : ℤ) (values : List Element) : Block Element where
  size := block.size
  cell place :=
    if index ≤ place then (values[(place - index).toNat]?).getD (block.cell place)
    else block.cell place

variable {block : Block Element} {index place : ℤ} {values : List Element}

theorem overlay_cell_inside {k : ℕ} (hplace : place = index + k) (hk : k < values.length) :
    values[k]? = some ((block.overlay index values).cell place) := by
  have hindex : (place - index).toNat = k := by omega
  have hvalue := List.getElem?_eq_getElem hk
  simp only [overlay]
  rw [if_pos (by omega), hindex, hvalue, Option.getD_some]

theorem overlay_cell_outside (houtside : place < index ∨ index + values.length ≤ place) :
    (block.overlay index values).cell place = block.cell place := by
  simp only [overlay]
  split_ifs with hle
  · rw [List.getElem?_eq_none (by omega), Option.getD_none]
  · rfl

theorem overlay_nil : block.overlay index [] = block := by
  unfold overlay
  simp

theorem overlay_cons {value : Element} :
    Block.overlay { block with cell := Function.update block.cell index value } (index + 1) values =
      block.overlay index (value :: values) := by
  unfold overlay
  congr 1
  funext place
  by_cases hbehind : index + 1 ≤ place
  · have hsplit : (place - index).toNat = (place - (index + 1)).toNat + 1 := by omega
    have hne : place ≠ index := by omega
    simp only
    rw [if_pos hbehind, if_pos (by omega), hsplit, List.getElem?_cons_succ,
      Function.update_of_ne hne]
  · simp only
    rw [if_neg hbehind]
    rcases eq_or_ne place index with rfl | hne
    · simp
    · rw [if_neg (by omega), Function.update_of_ne hne]

/-- **A copy inside the block.** -/
theorem store_eq_ok (hlower : 0 ≤ index) (hupper : index + values.length ≤ block.size) :
    block.store index values = .ok (block.overlay index values) := by
  induction values generalizing block index with
  | nil => rw [store, overlay_nil]
  | cons value values ih =>
    rw [List.length_cons] at hupper
    push_cast at hupper
    rw [store, write_eq_ok hlower (by omega), ok_bind, ih (by omega) (by simp only; omega),
      overlay_cons]

/-- Every other copy leaves the block. -/
theorem store_eq_error (hlower : 0 ≤ index) (hinside : index ≤ block.size)
    (hupper : block.size < index + values.length) :
    block.store index values = .error .outOfBounds := by
  induction values generalizing block index with
  | nil =>
    simp only [List.length_nil] at hupper
    omega
  | cons value values ih =>
    rw [List.length_cons] at hupper
    push_cast at hupper
    rw [store]
    by_cases hlt : index < block.size
    · rw [write_eq_ok hlower hlt, ok_bind]
      exact ih (by omega) (by simp only; omega) (by simp only; omega)
    · rw [write, if_neg (by omega)]
      rfl

/-- A copy in two parts. -/
theorem store_append (others : List Element) :
    block.store index (values ++ others) =
      block.store index values >>= fun next ↦ next.store (index + values.length) others := by
  induction values generalizing block index with
  | nil => simp [store]
  | cons value values ih =>
    rw [List.cons_append, store, store]
    cases block.write index value with
    | error fault => rfl
    | ok next =>
      have hshift : index + 1 + values.length = index + (value :: values).length := by
        rw [List.length_cons]
        omega
      rw [ok_bind, ok_bind, ih, hshift]

theorem store_concat (value : Element) :
    block.store index (values ++ [value]) =
      block.store index values >>= fun next ↦ next.write (index + values.length) value := by
  rw [store_append]
  congr 1
  funext next
  rw [store]
  cases next.write (index + values.length) value <;> rfl

theorem load_eq_ok {count : ℕ} (hlower : 0 ≤ index) (hupper : index + count ≤ block.size) :
    block.load index count = .ok ((List.range count).map fun k : ℕ ↦ block.cell (index + k)) := by
  induction count generalizing index with
  | zero => rfl
  | succ count ih =>
    push_cast at hupper
    have hshift : (List.range count).map (fun k : ℕ ↦ block.cell (index + 1 + k)) =
        (List.range count).map fun k : ℕ ↦ block.cell (index + (k + 1 : ℕ)) := by
      apply List.map_congr_left
      intro k _
      congr 1
      push_cast
      omega
    rw [load, read_eq_ok hlower (by omega), ok_bind, ih (by omega) (by omega), ok_bind, hshift,
      List.range_succ_eq_map, List.map_cons, List.map_map]
    congr 2
    simp

end K210Firmware.Memory.Block
