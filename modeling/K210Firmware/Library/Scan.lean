import K210Firmware.Library.Raster
import Mathlib.Data.List.Flatten

/-!
# The points of a window in the order of a loop

Two nested counted loops visit a grid of items. With both counters going up, or both going down,
they visit the points of a window in the order of its scan or in the opposite order.
-/

namespace K210Firmware.Raster

section Grid


variable {Item : Type*}

/-- The items of the rows, one row after the other. -/
def grid (rows columns : ℕ) (item : ℕ → ℕ → Item) : List Item :=
  (List.range rows).flatMap fun row ↦ (List.range columns).map (item row)

variable {rows columns : ℕ} {item : ℕ → ℕ → Item}

theorem mem_grid {value : Item} :
    value ∈ grid rows columns item ↔
      ∃ row < rows, ∃ column < columns, item row column = value := by
  simp [grid]

theorem grid_succ (rows columns : ℕ) (item : ℕ → ℕ → Item) :
    grid (rows + 1) columns item =
      (List.range columns).map (item 0) ++ grid rows columns fun row ↦ item (row + 1) := by
  rw [grid, List.range_succ_eq_map, List.flatMap_cons, List.flatMap_map]
  rfl

theorem map_grid {Image : Type*} (next : Item → Image) :
    (grid rows columns item).map next =
      grid rows columns fun row column ↦ next (item row column) := by
  rw [grid, List.map_flatMap]
  simp only [List.map_map]
  rfl

theorem pairwise_range_iff {count : ℕ} {related : ℕ → ℕ → Prop} :
    (List.range count).Pairwise related ↔ ∀ i j, i < j → j < count → related i j := by
  rw [List.pairwise_iff_getElem]
  simp only [List.length_range, List.getElem_range]
  exact ⟨fun h i j hlt hcount ↦ h i j (Nat.lt_trans hlt hcount) hcount hlt,
    fun h i j _ hcount hlt ↦ h i j hlt hcount⟩

/-- The order of the scan: first by row, then by column. -/
theorem pairwise_grid_iff {related : Item → Item → Prop} :
    (grid rows columns item).Pairwise related ↔
      ∀ row column row' column', row < rows → row' < rows → column < columns →
        column' < columns → (row < row' ∨ row = row' ∧ column < column') →
          related (item row column) (item row' column') := by
  simp only [grid, List.pairwise_flatMap, List.pairwise_map, pairwise_range_iff, List.mem_map,
    List.mem_range, forall_exists_index, and_imp, forall_apply_eq_imp_iff₂]
  constructor
  · rintro ⟨hrow, hrows⟩ row column row' column' hlt hlt' hcolumn hcolumn' (hbefore | ⟨rfl, h⟩)
    · exact hrows row row' hbefore hlt' column hcolumn column' hcolumn'
    · exact hrow row hlt column column' h hcolumn'
  · intro h
    refine ⟨fun row hlt column column' hbefore hcolumn' ↦ ?_,
      fun row row' hbefore hlt' column hcolumn column' hcolumn' ↦ ?_⟩
    · exact h row column row column' hlt hlt (Nat.lt_trans hbefore hcolumn') hcolumn'
        (.inr ⟨rfl, hbefore⟩)
    · exact h row column row' column' (Nat.lt_trans hbefore hlt') hlt' hcolumn hcolumn'
        (.inl hbefore)

end Grid

/-! ## Both directions -/

inductive Direction
  | forward
  | backward
  deriving DecidableEq, Repr

def Direction.step : Direction → ℤ
  | forward => 1
  | backward => -1

/-- The order in which a loop visits the points. -/
def Direction.Before : Direction → ℤ × ℤ → ℤ × ℤ → Prop
  | forward, first, second => first.2 < second.2 ∨ first.2 = second.2 ∧ first.1 < second.1
  | backward, first, second => second.2 < first.2 ∨ first.2 = second.2 ∧ second.1 < first.1

namespace Window

variable (window : Window)

/-- The first point of a loop. -/
def corner : Direction → ℤ × ℤ
  | .forward => (window.x1, window.y1)
  | .backward => (window.x2, window.y2)

/-- The point of a loop after `row` full rows and `column` steps. -/
def visit (direction : Direction) (row column : ℕ) : ℤ × ℤ :=
  ((window.corner direction).1 + direction.step * column,
    (window.corner direction).2 + direction.step * row)

/-- The points of the window in the order of a loop. -/
def scan (direction : Direction) : List (ℤ × ℤ) :=
  grid window.height.toNat window.width.toNat (window.visit direction)

variable {window} {direction : Direction}

theorem covers_visit (direction : Direction) {row column : ℕ} (hrow : row < window.height.toNat)
    (hcolumn : column < window.width.toNat) :
    window.Covers (window.visit direction row column).1
      (window.visit direction row column).2 := by
  rw [height] at hrow
  rw [width] at hcolumn
  cases direction
  all_goals
    simp only [Covers, visit, corner, Direction.step]
    omega

theorem Covers.exists_visit {x y : ℤ} (h : window.Covers x y) (direction : Direction) :
    ∃ row < window.height.toNat, ∃ column < window.width.toNat,
      window.visit direction row column = (x, y) := by
  obtain ⟨⟨hleft, hright⟩, htop, hbottom⟩ := h
  rw [height, width]
  cases direction with
  | forward =>
    refine ⟨(y - window.y1).toNat, by omega, (x - window.x1).toNat, by omega, ?_⟩
    simp only [visit, corner, Direction.step, Prod.mk.injEq]
    omega
  | backward =>
    refine ⟨(window.y2 - y).toNat, by omega, (window.x2 - x).toNat, by omega, ?_⟩
    simp only [visit, corner, Direction.step, Prod.mk.injEq]
    omega

theorem before_visit_iff {row column row' column' : ℕ} :
    direction.Before (window.visit direction row column) (window.visit direction row' column') ↔
      row < row' ∨ row = row' ∧ column < column' := by
  cases direction
  all_goals
    simp only [Direction.Before, visit, corner, Direction.step]
    omega

theorem mem_scan {x y : ℤ} : (x, y) ∈ window.scan direction ↔ window.Covers x y := by
  rw [scan, mem_grid]
  constructor
  · rintro ⟨row, hrow, column, hcolumn, hpoint⟩
    have hcovers := covers_visit direction hrow hcolumn
    rwa [hpoint] at hcovers
  · exact fun h ↦ h.exists_visit direction

theorem scan_eq_nil (h : ∀ x y, ¬ window.Covers x y) : window.scan direction = [] :=
  List.eq_nil_iff_forall_not_mem.mpr fun point hpoint ↦ h point.1 point.2 (mem_scan.mp hpoint)

/-- **The order of a loop.** -/
theorem pairwise_scan_iff {related : ℤ × ℤ → ℤ × ℤ → Prop} :
    (window.scan direction).Pairwise related ↔
      ∀ x y x' y', window.Covers x y → window.Covers x' y' →
        direction.Before (x, y) (x', y') → related (x, y) (x', y') := by
  rw [scan, pairwise_grid_iff]
  constructor
  · intro h x y x' y' hcovers hcovers' hbefore
    obtain ⟨row, hrow, column, hcolumn, hvisit⟩ := hcovers.exists_visit direction
    obtain ⟨row', hrow', column', hcolumn', hvisit'⟩ := hcovers'.exists_visit direction
    rw [← hvisit, ← hvisit'] at hbefore ⊢
    exact h row column row' column' hrow hrow' hcolumn hcolumn' (before_visit_iff.mp hbefore)
  · intro h row column row' column' hrow hrow' hcolumn hcolumn' hbefore
    exact h _ _ _ _ (covers_visit _ hrow hcolumn) (covers_visit _ hrow' hcolumn')
      (before_visit_iff.mpr hbefore)

end Window

end K210Firmware.Raster
