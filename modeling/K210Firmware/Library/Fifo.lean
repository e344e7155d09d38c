import Mathlib.Data.Int.Notation
import Mathlib.Data.Nat.Notation
import Mathlib.Logic.Function.Basic
import Mathlib.Tactic.SplitIfs

/-!
# Queues in a ring of cells

A queue occupies the cells of a ring from its first cell on, wrapping round at the end. Pushing
writes the cell behind the last one, and popping moves the first cell on.
-/

namespace K210Firmware.Fifo

variable {Value : Type*}

/-- The cell `offset` places after `first`; no offset wraps round more than once. -/
def place (size first offset : ℤ) : ℤ :=
  if first + offset < size then first + offset else first + offset - size

/-- The cells from `first` on hold the queue. -/
structure Stores (cell : ℤ → Value) (size first : ℤ) (queue : List Value) : Prop where
  first_nonneg : 0 ≤ first
  first_lt : first < size
  length_le : (queue.length : ℤ) ≤ size
  entry : ∀ age : ℕ, age < queue.length → queue[age]? = some (cell (place size first age))

variable {cell : ℤ → Value} {size first : ℤ} {queue : List Value}

theorem place_nonneg {offset : ℤ} (hfirst : 0 ≤ first) (hoffset : 0 ≤ offset) :
    0 ≤ place size first offset := by
  unfold place
  split_ifs <;> omega

theorem place_lt {offset : ℤ} (hfirst : first < size) (hoffset : offset ≤ size) :
    place size first offset < size := by
  unfold place
  split_ifs <;> omega

theorem stores_nil (cell : ℤ → Value) (hnonneg : 0 ≤ first) (hlt : first < size) :
    Stores cell size first [] where
  first_nonneg := hnonneg
  first_lt := hlt
  length_le := by
    rw [List.length_nil]
    omega
  entry age h := absurd h (Nat.not_lt_zero age)

/-- **Pushing.** -/
theorem Stores.push (h : Stores cell size first queue) (hroom : (queue.length : ℤ) < size)
    (value : Value) :
    Stores (Function.update cell (place size first queue.length) value) size first
      (queue ++ [value]) where
  first_nonneg := h.first_nonneg
  first_lt := h.first_lt
  length_le := by
    rw [List.length_append, List.length_singleton]
    omega
  entry age hage := by
    rw [List.length_append, List.length_singleton] at hage
    by_cases hlast : age = queue.length
    · rw [hlast, Function.update_self, List.getElem?_append_right (Nat.le_refl _), Nat.sub_self]
      rfl
    · have hlt : age < queue.length := by omega
      have hne : place size first age ≠ place size first queue.length := by
        have hnonneg := h.first_nonneg
        have hfirst := h.first_lt
        unfold place
        split_ifs <;> omega
      rw [Function.update_of_ne hne, List.getElem?_append_left hlt]
      exact h.entry age hlt

/-- **Popping.** -/
theorem Stores.pop {value : Value} (h : Stores cell size first (value :: queue)) :
    cell first = value ∧ Stores cell size (place size first 1) queue := by
  have hnonneg := h.first_nonneg
  have hlt := h.first_lt
  have hlength := h.length_le
  rw [List.length_cons] at hlength
  push_cast at hlength
  constructor
  · have hhead := h.entry 0 (Nat.succ_pos _)
    have hplace : place size first (0 : ℕ) = first := by
      unfold place
      rw [if_pos] <;> simp [hlt]
    rw [hplace] at hhead
    exact (Option.some.inj hhead).symm
  · refine ⟨place_nonneg hnonneg (by omega), place_lt hlt (by omega), by omega, ?_⟩
    intro age hage
    have hplace : place size (place size first 1) age = place size first (age + 1 : ℕ) := by
      unfold place
      push_cast
      split_ifs <;> omega
    rw [hplace]
    exact h.entry (age + 1) (Nat.succ_lt_succ hage)

/-! ## Whole blocks -/

/-- **Appending** a block: its values are in the cells behind the queue, whose own cells are as they
were. -/
theorem Stores.append {cell' : ℤ → Value} (h : Stores cell size first queue) {block : List Value}
    (hroom : (queue.length : ℤ) + block.length ≤ size)
    (hnew : ∀ k : ℕ, k < block.length →
      block[k]? = some (cell' (place size first (queue.length + k : ℕ))))
    (hold : ∀ age : ℕ, age < queue.length →
      cell' (place size first age) = cell (place size first age)) :
    Stores cell' size first (queue ++ block) where
  first_nonneg := h.first_nonneg
  first_lt := h.first_lt
  length_le := by
    rw [List.length_append]
    push_cast
    exact hroom
  entry age hage := by
    rw [List.length_append] at hage
    rcases Nat.lt_or_ge age queue.length with hlt | hge
    · rw [List.getElem?_append_left hlt, hold age hlt]
      exact h.entry age hlt
    · have hnew' := hnew (age - queue.length) (by omega)
      rw [Nat.add_sub_cancel' hge] at hnew'
      rw [List.getElem?_append_right hge]
      exact hnew'

theorem place_place {offset more : ℤ} (hfirst : first < size) (hmore : 0 ≤ more)
    (hsum : offset + more ≤ size) :
    place size (place size first offset) more = place size first (offset + more) := by
  unfold place
  split_ifs <;> omega

/-- **Dropping** the oldest values. -/
theorem Stores.drop (h : Stores cell size first queue) {count : ℕ} (hcount : count ≤ queue.length) :
    Stores cell size (place size first count) (queue.drop count) := by
  have hnonneg := h.first_nonneg
  have hlt := h.first_lt
  have hlength := h.length_le
  refine ⟨place_nonneg hnonneg (by omega), place_lt hlt (by omega), ?_, ?_⟩
  · rw [List.length_drop]
    omega
  · intro age hage
    rw [List.length_drop] at hage
    have hplace : place size (place size first count) age = place size first (count + age : ℕ) := by
      rw [place_place hlt (by omega) (by omega)]
      push_cast
      rfl
    rw [hplace, List.getElem?_drop]
    exact h.entry (count + age) (by omega)

end K210Firmware.Fifo
