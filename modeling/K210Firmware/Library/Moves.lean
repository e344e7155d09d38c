import K210Firmware.Library.Heap
import Mathlib.Data.List.Induction
import Mathlib.Data.Prod.Basic

/-!
# Copying in place

A copy loop is a list of assignments `*target = *source`, made one after the other. If no target
occurs twice, the loop does what a copy through a temporary does exactly if no assignment changes
a value that a later one has yet to read.
-/

namespace K210Firmware.Memory

/-- One assignment `*target = *source`. -/
structure Move (Place : Type*) where
  target : Place
  source : Place
  deriving DecidableEq

section Copying

variable {Place Value : Type*} [DecidableEq Place]

def Move.apply (move : Move Place) (memory : Place → Value) : Place → Value :=
  Function.update memory move.target (memory move.source)

/-- The assignments one after the other. -/
def runMoves (moves : List (Move Place)) (memory : Place → Value) : Place → Value :=
  moves.foldl (fun memory move ↦ move.apply memory) memory

/-- What a copy through a temporary does. -/
structure Copied (moves : List (Move Place)) (before after : Place → Value) : Prop where
  moved : ∀ move ∈ moves, after move.target = before move.source
  kept : ∀ place, (∀ move ∈ moves, move.target ≠ place) → after place = before place

/-- No value is overwritten before it is read, except by the same value. -/
def Undisturbed (moves : List (Move Place)) (memory : Place → Value) : Prop :=
  moves.Pairwise fun early late ↦
    early.target = late.source → memory early.source = memory late.source

variable {moves : List (Move Place)} {memory after : Place → Value}

theorem runMoves_append_singleton (moves : List (Move Place)) (move : Move Place)
    (memory : Place → Value) :
    runMoves (moves ++ [move]) memory = move.apply (runMoves moves memory) := by
  rw [runMoves, List.foldl_append]
  rfl

theorem runMoves_kept {place : Place} (h : ∀ move ∈ moves, move.target ≠ place) :
    runMoves moves memory place = memory place := by
  induction moves using List.reverseRecOn with
  | nil => rfl
  | append_singleton moves move ih =>
    have hlast : move.target ≠ place := h move (by simp)
    rw [runMoves_append_singleton, Move.apply, Function.update_of_ne hlast.symm]
    exact ih fun other hother ↦ h other (List.mem_append_left _ hother)

/-- A place still holds what a temporary would have kept, if the copies made into it so far are
of that same value. -/
theorem Copied.eq_iff (h : Copied moves memory after) (place : Place) :
    after place = memory place ↔
      ∀ move ∈ moves, move.target = place → memory move.source = memory place := by
  constructor
  · rintro hsame move hmove rfl
    rw [← h.moved move hmove, hsame]
  · intro hsources
    by_cases hwritten : ∃ move ∈ moves, move.target = place
    · obtain ⟨move, hmove, rfl⟩ := hwritten
      rw [h.moved move hmove, hsources move hmove rfl]
    · exact h.kept place fun move hmove htarget ↦ hwritten ⟨move, hmove, htarget⟩

/-- One more assignment, to a place not written so far, keeps a copy right if its source still
holds its old value. -/
theorem copied_append_singleton_iff {move : Move Place}
    (hfresh : ∀ other ∈ moves, other.target ≠ move.target) :
    Copied (moves ++ [move]) memory (runMoves (moves ++ [move]) memory) ↔
      Copied moves memory (runMoves moves memory) ∧
        runMoves moves memory move.source = memory move.source := by
  rw [runMoves_append_singleton]
  have hother : ∀ other ∈ moves, move.apply (runMoves moves memory) other.target =
      runMoves moves memory other.target :=
    fun other h ↦ Function.update_of_ne (hfresh other h) ..
  have hlast : move.apply (runMoves moves memory) move.target =
      runMoves moves memory move.source := Function.update_self ..
  constructor
  · intro h
    refine ⟨⟨fun other hmem ↦ ?_, fun place hplace ↦ runMoves_kept hplace⟩, ?_⟩
    · rw [← hother other hmem]
      exact h.moved other (List.mem_append_left _ hmem)
    · rw [← hlast]
      exact h.moved move (by simp)
  · rintro ⟨h, hsource⟩
    refine ⟨fun other hmem ↦ ?_, fun place hplace ↦ ?_⟩
    · rcases List.mem_append.mp hmem with hmem | hmem
      · rw [hother other hmem, h.moved other hmem]
      · rw [List.mem_singleton.mp hmem, hlast, hsource]
    · rw [Move.apply, Function.update_of_ne (hplace move (by simp)).symm]
      exact h.kept place fun other hmem ↦ hplace other (List.mem_append_left _ hmem)

/-- **Copying in place.** With distinct targets, the assignments made one after the other have the
effect of a copy through a temporary exactly if they leave what is yet to be read undisturbed. -/
theorem copied_runMoves_iff
    (hdistinct : moves.Pairwise fun early late ↦ early.target ≠ late.target) :
    Copied moves memory (runMoves moves memory) ↔ Undisturbed moves memory := by
  induction moves using List.reverseRecOn with
  | nil => exact ⟨fun _ ↦ .nil, fun _ ↦ ⟨by simp, fun _ _ ↦ rfl⟩⟩
  | append_singleton moves move ih =>
    obtain ⟨hmoves, _, hfresh⟩ := List.pairwise_append.mp hdistinct
    have hfresh : ∀ other ∈ moves, other.target ≠ move.target :=
      fun other h ↦ hfresh other h move (List.mem_singleton_self move)
    have hsplit : Undisturbed (moves ++ [move]) memory ↔ Undisturbed moves memory ∧
        ∀ other ∈ moves, other.target = move.source →
          memory other.source = memory move.source := by
      simp [Undisturbed, List.pairwise_append]
    rw [copied_append_singleton_iff hfresh, hsplit, ← ih hmoves]
    exact and_congr_right fun h ↦ h.eq_iff move.source

/-- The copy through a temporary does not depend on the order. -/
theorem Copied.unique {moves' : List (Move Place)} {after' : Place → Value}
    (h : Copied moves memory after) (h' : Copied moves' memory after')
    (hsame : ∀ move, move ∈ moves ↔ move ∈ moves') : after = after' := by
  funext place
  by_cases hwritten : ∃ move ∈ moves, move.target = place
  · obtain ⟨move, hmove, rfl⟩ := hwritten
    rw [h.moved move hmove, h'.moved move ((hsame move).mp hmove)]
  · have hmoves : ∀ move ∈ moves, move.target ≠ place :=
      fun move hmove htarget ↦ hwritten ⟨move, hmove, htarget⟩
    rw [h.kept place hmoves, h'.kept place fun move hmove ↦ hmoves move ((hsame move).mpr hmove)]

end Copying

/-! ## Arrays on the heap -/

/-- An element of an array on the heap. -/
abbrev Place := Address × ℤ

namespace Heap

variable {Value : Type} (heap : Heap (Block Value))

/-- What the arrays hold. -/
def contents [Inhabited Value] (place : Place) : Value :=
  match heap.cell place.1 with
  | none => default
  | some block => block.cell place.2

/-- The same arrays with other contents. -/
def filled (memory : Place → Value) : Heap (Block Value) where
  cell address := (heap.cell address).map fun block ↦
    ⟨block.size, fun index ↦ memory (address, index)⟩

/-- An access to the place stays inside a live array. -/
def InBounds (place : Place) : Prop :=
  ∃ block, heap.load place.1 = .ok block ∧ 0 ≤ place.2 ∧ place.2 < block.size

def assign (move : Move Place) : Except Fault (Heap (Block Value)) := do
  let value ← (← heap.load move.source.1).read move.source.2
  let block ← heap.load move.target.1
  return heap.set move.target.1 (some (← block.write move.target.2 value))

variable {heap}

theorem eq_of_cell {Object : Type*} {heap heap' : Heap Object}
    (h : ∀ address, heap.cell address = heap'.cell address) : heap = heap' := by
  cases heap
  cases heap'
  exact congrArg Heap.mk (funext h)

@[simp]
theorem cell_filled (memory : Place → Value) (address : Address) :
    (heap.filled memory).cell address = (heap.cell address).map fun block ↦
      ⟨block.size, fun index ↦ memory (address, index)⟩ := rfl

theorem load_eq_ok_iff {Object : Type*} {heap : Heap Object} {address : Address}
    {object : Object} :
    heap.load address = .ok object ↔ address ≠ 0 ∧ heap.cell address = some object := by
  constructor
  · intro h
    rw [load] at h
    split_ifs at h with hzero
    refine ⟨hzero, ?_⟩
    cases hcell : heap.cell address with
    | none =>
      rw [hcell] at h
      cases h
    | some held =>
      rw [hcell] at h
      rw [Except.ok.inj h]
  · rintro ⟨haddress, hcell⟩
    exact load_eq_ok haddress hcell

theorem set_eq_self {Object : Type*} {heap : Heap Object} {address : Address} {object : Object}
    (h : heap.load address = .ok object) : heap.set address (some object) = heap := by
  apply eq_of_cell
  intro other
  by_cases hother : other = address
  · rw [hother, cell_set_self, (load_eq_ok_iff.mp h).2]
  · exact cell_set_of_ne hother _

@[simp]
theorem filled_contents [Inhabited Value] (heap : Heap (Block Value)) :
    heap.filled heap.contents = heap := by
  apply eq_of_cell
  intro address
  cases h : heap.cell address with
  | none => simp [h]
  | some block => simp [contents, h]

theorem load_filled {address : Address} {block : Block Value} (h : heap.load address = .ok block)
    (memory : Place → Value) :
    (heap.filled memory).load address =
      .ok ⟨block.size, fun index ↦ memory (address, index)⟩ := by
  obtain ⟨haddress, hcell⟩ := load_eq_ok_iff.mp h
  exact load_eq_ok haddress (by simp [hcell])

theorem assign_filled {move : Move Place} (hsource : heap.InBounds move.source)
    (htarget : heap.InBounds move.target) (memory : Place → Value) :
    (heap.filled memory).assign move = .ok (heap.filled (move.apply memory)) := by
  obtain ⟨source, hsource, hlower, hupper⟩ := hsource
  obtain ⟨target, htarget, htlower, htupper⟩ := htarget
  have hcell := (load_eq_ok_iff.mp htarget).2
  have hread : (Block.mk source.size fun index ↦ memory (move.source.1, index)).read
      move.source.2 = .ok (memory move.source) := Block.read_eq_ok hlower hupper
  have hwrite : (Block.mk target.size fun index ↦ memory (move.target.1, index)).write
      move.target.2 (memory move.source) = .ok ⟨target.size, Function.update
        (fun index ↦ memory (move.target.1, index)) move.target.2 (memory move.source)⟩ :=
    Block.write_eq_ok htlower htupper
  rw [assign, load_filled hsource memory, ok_bind, hread, ok_bind,
    load_filled htarget memory, ok_bind, hwrite, ok_bind]
  refine congrArg Except.ok (eq_of_cell fun address ↦ ?_)
  by_cases haddress : address = move.target.1
  · subst haddress
    rw [cell_set_self, cell_filled, hcell, Option.map_some]
    refine congrArg (fun cell ↦ some (Block.mk target.size cell)) (funext fun index ↦ ?_)
    rw [Move.apply, Function.update_apply, Function.update_apply]
    simp only [Prod.ext_iff, true_and]
  · rw [cell_set_of_ne haddress, cell_filled, cell_filled]
    refine congrArg (fun next ↦ Option.map next (heap.cell address)) (funext fun block ↦ ?_)
    refine congrArg (Block.mk block.size) (funext fun index ↦ ?_)
    rw [Move.apply, Function.update_of_ne]
    exact fun hplace ↦ haddress (congrArg Prod.fst hplace)

theorem contents_of_load [Inhabited Value] {address : Address} {block : Block Value}
    (h : heap.load address = .ok block) (index : ℤ) :
    heap.contents (address, index) = block.cell index := by
  rw [contents, (load_eq_ok_iff.mp h).2]

/-- Assignments into one array change no other. -/
theorem filled_runMoves [Inhabited Value] {address : Address} {block : Block Value}
    (h : heap.load address = .ok block) {moves : List (Move Place)}
    (htarget : ∀ move ∈ moves, move.target.1 = address) :
    heap.filled (runMoves moves heap.contents) = heap.set address
      (some ⟨block.size, fun index ↦ runMoves moves heap.contents (address, index)⟩) := by
  apply eq_of_cell
  intro other
  by_cases hother : other = address
  · rw [hother, cell_set_self, cell_filled, (load_eq_ok_iff.mp h).2, Option.map_some]
  · have hkept : ∀ index, runMoves moves heap.contents (other, index) =
        heap.contents (other, index) := fun index ↦ runMoves_kept fun move hmove hplace ↦
      hother ((congrArg Prod.fst hplace).symm.trans (htarget move hmove))
    rw [cell_set_of_ne hother, cell_filled]
    simp only [hkept]
    rw [← cell_filled, filled_contents]

/-- **A copy loop in bounds** changes the contents of the arrays as its assignments do. -/
theorem foldlM_assign {moves : List (Move Place)}
    (h : ∀ move ∈ moves, heap.InBounds move.source ∧ heap.InBounds move.target)
    (memory : Place → Value) :
    moves.foldlM assign (heap.filled memory) = .ok (heap.filled (runMoves moves memory)) := by
  induction moves generalizing memory with
  | nil => rfl
  | cons move moves ih =>
    obtain ⟨hsource, htarget⟩ := h move (List.mem_cons_self ..)
    rw [List.foldlM_cons, assign_filled hsource htarget, ok_bind,
      ih fun other hother ↦ h other (List.mem_cons_of_mem _ hother)]
    rfl

/-- An assignment keeps every array live and at its size. -/
theorem load_assign {move : Move Place} {after : Heap (Block Value)}
    (h : heap.assign move = .ok after) {address : Address} {block : Block Value}
    (hload : heap.load address = .ok block) :
    ∃ next, after.load address = .ok next ∧ next.size = block.size := by
  obtain ⟨source, _, h⟩ := bind_eq_ok.mp h
  obtain ⟨value, _, h⟩ := bind_eq_ok.mp h
  obtain ⟨target, htarget, h⟩ := bind_eq_ok.mp h
  obtain ⟨written, hwritten, h⟩ := bind_eq_ok.mp h
  obtain rfl := Except.ok.inj h
  obtain ⟨haddress, hcell⟩ := load_eq_ok_iff.mp hload
  by_cases hother : address = move.target.1
  · subst hother
    obtain rfl := Except.ok.inj (hload.symm.trans htarget)
    refine ⟨written, load_eq_ok haddress (cell_set_self _), ?_⟩
    rw [Block.write] at hwritten
    split at hwritten
    · rw [← Except.ok.inj hwritten]
    · cases hwritten
  · exact ⟨block, load_eq_ok haddress ((cell_set_of_ne hother _).trans hcell), rfl⟩

theorem load_foldlM_assign {moves : List (Move Place)} {after : Heap (Block Value)}
    (h : moves.foldlM assign heap = .ok after) {address : Address} {block : Block Value}
    (hload : heap.load address = .ok block) :
    ∃ next, after.load address = .ok next ∧ next.size = block.size := by
  have hstep : ∀ (heap : Heap (Block Value)) (move : Move Place) (next : Heap (Block Value)),
      (∃ held, heap.load address = .ok held ∧ held.size = block.size) →
        heap.assign move = .ok next →
          ∃ held, next.load address = .ok held ∧ held.size = block.size := by
    rintro heap move next ⟨held, hheld, hsize⟩ hassign
    obtain ⟨last, hlast, hlastSize⟩ := load_assign hassign hheld
    exact ⟨last, hlast, hlastSize.trans hsize⟩
  exact foldlM_preserves hstep ⟨block, hload, rfl⟩ h

end Heap

end K210Firmware.Memory
