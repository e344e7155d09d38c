import Mathlib.Data.Int.Notation
import Mathlib.Logic.Function.Basic

/-!
# Checked C memory

The ways a C program can leave its defined behaviour are explicit faults. A `Block` is one
allocated array: its cells are total, but `read` and `write` admit only indices inside the
allocation, so a program that returns has made no access outside its arrays. Whatever the cells
held before the first write is arbitrary.
-/

namespace K210Firmware.Memory

universe u

/-- Undefined behaviour met by a step of the program. -/
inductive Fault
  | outOfBounds
  | nullPointer
  | deadObject
  | wrongObject
  | divergence
  | overflow
  | divisionByZero
  deriving DecidableEq, Repr

/-- An array of `size` elements, indexed by C `int`. -/
structure Block (Element : Type*) where
  size : ℤ
  cell : ℤ → Element

namespace Block

variable {Element : Type*} (block : Block Element)

def read (index : ℤ) : Except Fault Element :=
  if 0 ≤ index ∧ index < block.size then .ok (block.cell index) else .error .outOfBounds

def write (index : ℤ) (value : Element) : Except Fault (Block Element) :=
  if 0 ≤ index ∧ index < block.size then
    .ok { block with cell := Function.update block.cell index value }
  else .error .outOfBounds

/-- The effect of a loop that stores `value` into the first `count` elements. -/
def fill (count : ℤ) (value : Element) : Block Element where
  size := block.size
  cell index := if 0 ≤ index ∧ index < count then value else block.cell index

variable {block}

theorem read_eq_ok {index : ℤ} (hlower : 0 ≤ index) (hupper : index < block.size) :
    block.read index = .ok (block.cell index) := by
  rw [read, if_pos ⟨hlower, hupper⟩]

theorem write_eq_ok {index : ℤ} {value : Element} (hlower : 0 ≤ index)
    (hupper : index < block.size) :
    block.write index value =
      .ok { block with cell := Function.update block.cell index value } := by
  rw [write, if_pos ⟨hlower, hupper⟩]

/-- An access that succeeds was inside the block. -/
theorem bounds_of_read {index : ℤ} {value : Element} (h : block.read index = .ok value) :
    0 ≤ index ∧ index < block.size := by
  rw [read] at h
  split at h
  · assumption
  · cases h

theorem fill_cell {count index : ℤ} {value : Element} (hlower : 0 ≤ index)
    (hupper : index < count) : (block.fill count value).cell index = value :=
  if_pos ⟨hlower, hupper⟩

end Block

@[simp]
theorem ok_bind {Value Result : Type u} (value : Value) (next : Value → Except Fault Result) :
    (Except.ok value >>= next) = next value := rfl

/-- A sequence that succeeds takes its steps apart. -/
theorem bind_eq_ok {Value Result : Type u} {first : Except Fault Value}
    {next : Value → Except Fault Result} {result : Result} :
    (first >>= next) = .ok result ↔ ∃ value, first = .ok value ∧ next value = .ok result := by
  cases first with
  | error fault =>
    constructor
    · intro h
      cases h
    · rintro ⟨value, ⟨⟩, _⟩
  | ok value =>
    rw [ok_bind]
    constructor
    · exact fun h ↦ ⟨value, rfl, h⟩
    · rintro ⟨_, ⟨⟩, h⟩
      exact h

/-- A loop whose steps all succeed collects their values. -/
theorem mapM_eq_ok {Index Value : Type} {next : Index → Except Fault Value} {value : Index → Value}
    {indices : List Index} (h : ∀ index ∈ indices, next index = .ok (value index)) :
    indices.mapM next = .ok (indices.map value) := by
  induction indices with
  | nil => rfl
  | cons index indices ih =>
    rw [List.mapM_cons, h index (List.mem_cons_self ..), ok_bind,
      ih fun other hother ↦ h other (List.mem_cons_of_mem _ hother), ok_bind]
    rfl

/-- Every step of a loop that succeeds has succeeded. -/
theorem of_mapM_eq_ok {Index Value : Type} {next : Index → Except Fault Value}
    {indices : List Index} {values : List Value} (h : indices.mapM next = .ok values)
    {index : Index} (hindex : index ∈ indices) : ∃ value, next index = .ok value := by
  induction indices generalizing values with
  | nil => cases hindex
  | cons head tail ih =>
    rw [List.mapM_cons] at h
    obtain ⟨value, hvalue, hrest⟩ := bind_eq_ok.mp h
    obtain ⟨rest, hrest, _⟩ := bind_eq_ok.mp hrest
    rcases List.mem_cons.mp hindex with rfl | htail
    · exact ⟨value, hvalue⟩
    · exact ih hrest htail

/-- **Fold rule.** A loop that can only fail with `fault` ends there or with its invariant, which
may speak of the items that are left. -/
theorem foldlM_rule {Item State : Type} {step : State → Item → Except Fault State} {fault : Fault}
    (invariant : List Item → State → Prop)
    (hstep : ∀ item items state, invariant (item :: items) state →
      step state item = .error fault ∨
        ∃ next, step state item = .ok next ∧ invariant items next)
    {items : List Item} {state : State} (h : invariant items state) :
    items.foldlM step state = .error fault ∨
      ∃ last, items.foldlM step state = .ok last ∧ invariant [] last := by
  induction items generalizing state with
  | nil => exact .inr ⟨state, rfl, h⟩
  | cons item items ih =>
    rw [List.foldlM_cons]
    rcases hstep item items state h with hfault | ⟨next, hnext, hinvariant⟩
    · rw [hfault]
      exact .inl rfl
    · rw [hnext, ok_bind]
      exact ih hinvariant

/-- What every step of a loop preserves holds when the loop ends. -/
theorem foldlM_preserves {Item State : Type} {step : State → Item → Except Fault State}
    {invariant : State → Prop}
    (hstep : ∀ state item next, invariant state → step state item = .ok next → invariant next)
    {items : List Item} {state last : State} (h : invariant state)
    (hrun : items.foldlM step state = .ok last) : invariant last := by
  induction items generalizing state with
  | nil =>
    cases hrun
    exact h
  | cons item items ih =>
    rw [List.foldlM_cons] at hrun
    obtain ⟨next, hnext, hrest⟩ := bind_eq_ok.mp hrun
    exact ih (hstep state item next h hnext) hrest

end K210Firmware.Memory
