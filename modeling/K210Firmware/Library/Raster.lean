import Mathlib.Algebra.Order.Ring.Int
import Mathlib.Data.List.Induction
import Mathlib.Tactic.Ring

/-!
# Windows of a raster, and layers painted over each other

A window is numbered row by row: `offset` gives the place of a point in the scan and `point` the
point at a place, and they are inverse to each other inside the window. A picture that is painted
layer by layer shows at each point the last layer covering it.
-/

namespace K210Firmware.Raster

abbrev Picture (Color : Type*) := ℤ → ℤ → Color

/-- An inclusive rectangle. -/
structure Window where
  x1 : ℤ
  y1 : ℤ
  x2 : ℤ
  y2 : ℤ
  deriving DecidableEq, Repr

namespace Window

variable (window : Window)

def width : ℤ := window.x2 - window.x1 + 1

def height : ℤ := window.y2 - window.y1 + 1

def size : ℤ := window.width * window.height

def Covers (x y : ℤ) : Prop :=
  (window.x1 ≤ x ∧ x ≤ window.x2) ∧ window.y1 ≤ y ∧ y ≤ window.y2

instance (x y : ℤ) : Decidable (window.Covers x y) :=
  inferInstanceAs (Decidable ((_ ∧ _) ∧ _ ∧ _))

/-- The place of a point in the row-by-row scan. -/
def offset (x y : ℤ) : ℤ := (y - window.y1) * window.width + (x - window.x1)

/-- The point at a place of the scan. -/
def point (place : ℤ) : ℤ × ℤ :=
  (window.x1 + place % window.width, window.y1 + place / window.width)

variable {window}

theorem Covers.width_pos {x y : ℤ} (h : window.Covers x y) : 0 < window.width := by
  obtain ⟨⟨hleft, hright⟩, _⟩ := h
  rw [width]
  omega

theorem Covers.offset_nonneg {x y : ℤ} (h : window.Covers x y) : 0 ≤ window.offset x y := by
  have hwidth := h.width_pos
  obtain ⟨⟨hleft, _⟩, htop, _⟩ := h
  have hrows : 0 ≤ (y - window.y1) * window.width := mul_nonneg (by omega) hwidth.le
  rw [offset]
  omega

theorem Covers.offset_lt_size {x y : ℤ} (h : window.Covers x y) :
    window.offset x y < window.size := by
  have hwidth := h.width_pos
  obtain ⟨⟨_, hright⟩, _, hbottom⟩ := h
  have hrows : (y - window.y1 + 1) * window.width ≤ window.height * window.width :=
    mul_le_mul_of_nonneg_right (by rw [height]; omega) hwidth.le
  have hsplit : (y - window.y1 + 1) * window.width =
      (y - window.y1) * window.width + window.width := by ring
  have hx : x - window.x1 < window.width := by
    rw [width]
    omega
  rw [offset, size, mul_comm window.width]
  omega

theorem Covers.point_offset {x y : ℤ} (h : window.Covers x y) :
    window.point (window.offset x y) = (x, y) := by
  have hwidth := h.width_pos
  obtain ⟨⟨hleft, hright⟩, _⟩ := h
  have hx : x - window.x1 < window.width := by
    rw [width]
    omega
  rw [point, offset, Int.add_comm ((y - window.y1) * window.width),
    Int.add_mul_emod_self_right, Int.add_mul_ediv_right _ _ hwidth.ne',
    Int.emod_eq_of_lt (by omega) hx, Int.ediv_eq_zero_of_lt (by omega) hx]
  simp

/-- The scan visits no point twice. -/
theorem offset_point (window : Window) (place : ℤ) :
    window.offset (window.point place).1 (window.point place).2 = place := by
  have hdivision := Int.mul_ediv_add_emod place window.width
  simp only [offset, point, add_sub_cancel_left]
  rw [mul_comm]
  exact hdivision

theorem Covers.point_eq_iff {x y place : ℤ} (h : window.Covers x y) :
    window.point place = (x, y) ↔ place = window.offset x y := by
  constructor
  · intro hpoint
    have hplace := offset_point window place
    rw [hpoint] at hplace
    exact hplace.symm
  · intro hsame
    subst hsame
    exact h.point_offset

theorem covers_point (hwidth : 0 < window.width) {place : ℤ} (hplace : 0 ≤ place)
    (hsize : place < window.size) :
    window.Covers (window.point place).1 (window.point place).2 := by
  have hcolumn := Int.emod_nonneg place hwidth.ne'
  have hcolumn_lt := Int.emod_lt_of_pos place hwidth
  have hrow := Int.ediv_nonneg hplace hwidth.le
  have hrow_lt : place / window.width < window.height :=
    Int.ediv_lt_of_lt_mul hwidth (by rwa [mul_comm])
  have hcolumns : window.width = window.x2 - window.x1 + 1 := rfl
  have hrows : window.height = window.y2 - window.y1 + 1 := rfl
  simp only [Covers, point]
  omega

end Window

/-! ## Filling a window -/

variable {Color : Type*}

def setPixel (picture : Picture Color) (point : ℤ × ℤ) (color : Color) : Picture Color :=
  fun x y ↦ if (x, y) = point then color else picture x y

/-- The colours of a stream, written from one place of the scan on. -/
def fill (window : Window) : ℤ → List Color → Picture Color → Picture Color
  | _, [], picture => picture
  | place, color :: colors, picture =>
      fill window (place + 1) colors (setPixel picture (window.point place) color)

/-- A point passed over by the stream keeps its colour. -/
theorem fill_of_lt {window : Window} {x y : ℤ} (h : window.Covers x y) {place : ℤ}
    (hplace : window.offset x y < place) (colors : List Color) (picture : Picture Color) :
    fill window place colors picture x y = picture x y := by
  induction colors generalizing place picture with
  | nil => rfl
  | cons color colors ih =>
    rw [fill, ih (by omega), setPixel, if_neg]
    intro hpoint
    have := h.point_eq_iff.mp hpoint.symm
    omega

/-- A point reached by the stream gets the colour of its place. -/
theorem fill_apply {window : Window} {x y : ℤ} (h : window.Covers x y) {place : ℤ}
    {colors : List Color} (index : ℕ) (hindex : window.offset x y = place + index)
    (hlength : index < colors.length) (picture : Picture Color) :
    fill window place colors picture x y = colors[index] := by
  induction colors generalizing place index picture with
  | nil => exact absurd hlength (Nat.not_lt_zero index)
  | cons color colors ih =>
    rw [fill]
    cases index with
    | zero =>
      have hplace : window.point place = (x, y) := h.point_eq_iff.mpr (by omega)
      rw [fill_of_lt h (by omega), hplace, setPixel, if_pos rfl]
      rfl
    | succ index =>
      exact ih index (by push_cast at hindex; omega) (Nat.lt_of_succ_lt_succ hlength) _

/-- A point beyond the end of the stream keeps its colour. -/
theorem fill_of_ge {window : Window} {x y : ℤ} (h : window.Covers x y) {place : ℤ}
    {colors : List Color} (hplace : place + colors.length ≤ window.offset x y)
    (picture : Picture Color) : fill window place colors picture x y = picture x y := by
  induction colors generalizing place picture with
  | nil => rfl
  | cons color colors ih =>
    rw [List.length_cons] at hplace
    push_cast at hplace
    rw [fill, ih (by omega), setPixel, if_neg]
    intro hpoint
    have := h.point_eq_iff.mp hpoint.symm
    omega

/-- A stream that fits into the window leaves the points outside it alone. -/
theorem fill_of_not_covers {window : Window} {x y : ℤ} (h : ¬ window.Covers x y)
    (hwidth : 0 < window.width) {place : ℤ} (hplace : 0 ≤ place) {colors : List Color}
    (hlength : place + colors.length ≤ window.size) (picture : Picture Color) :
    fill window place colors picture x y = picture x y := by
  induction colors generalizing place picture with
  | nil => rfl
  | cons color colors ih =>
    rw [List.length_cons] at hlength
    push_cast at hlength
    rw [fill, ih (by omega) (by omega), setPixel, if_neg]
    intro hpoint
    have hcovers := Window.covers_point hwidth hplace (by omega)
    rw [← hpoint] at hcovers
    exact h hcovers

/-- A stream that is not longer than a row stays in the first row. -/
theorem fill_row {window : Window} (hwidth : 0 < window.width) (hheight : 0 < window.height)
    {colors : List Color} (hlength : (colors.length : ℤ) ≤ window.width) (picture : Picture Color)
    (x y : ℤ) :
    fill window 0 colors picture x y =
      if y = window.y1 ∧ window.x1 ≤ x then colors[(x - window.x1).toNat]?.getD (picture x y)
      else picture x y := by
  have hcolumns : window.width = window.x2 - window.x1 + 1 := rfl
  by_cases hcovers : window.Covers x y
  · obtain ⟨⟨hleft, _⟩, htop, _⟩ := id hcovers
    by_cases hfirst : y = window.y1
    · have hoffset : window.offset x y = x - window.x1 := by
        rw [Window.offset, hfirst, sub_self, zero_mul, zero_add]
      rw [if_pos ⟨hfirst, hleft⟩]
      by_cases hreached : (x - window.x1).toNat < colors.length
      · rw [List.getElem?_eq_getElem hreached]
        exact fill_apply hcovers _ (by omega) hreached picture
      · rw [List.getElem?_eq_none (by omega)]
        exact fill_of_ge hcovers (by omega) picture
    · rw [if_neg fun hboth ↦ hfirst hboth.1]
      apply fill_of_ge hcovers
      have hrow : window.width ≤ (y - window.y1) * window.width :=
        le_mul_of_one_le_left hwidth.le (by omega)
      rw [Window.offset]
      omega
  · have hsize : window.width ≤ window.size := le_mul_of_one_le_right hwidth.le hheight
    rw [fill_of_not_covers hcovers hwidth le_rfl (by omega)]
    split_ifs with hfirst
    · have hrows : window.height = window.y2 - window.y1 + 1 := rfl
      have hright : window.x2 < x := by
        by_contra hle
        exact hcovers ⟨⟨hfirst.2, by omega⟩, by omega, by omega⟩
      rw [List.getElem?_eq_none (by omega)]
      rfl
    · rfl

/-! ## Layers -/

/-- Colours for the points of a window. -/
structure Layer (Color : Type*) where
  window : Window
  color : Picture Color

/-- The layer where it covers, the picture below it elsewhere. -/
def Layer.over (layer : Layer Color) (picture : Picture Color) : Picture Color :=
  fun x y ↦ if layer.window.Covers x y then layer.color x y else picture x y

/-- The layers painted one after the other. -/
def compose (background : Picture Color) (layers : List (Layer Color)) : Picture Color :=
  layers.foldl (fun picture layer ↦ layer.over picture) background

theorem compose_append (background : Picture Color) (layers : List (Layer Color))
    (layer : Layer Color) :
    compose background (layers ++ [layer]) = layer.over (compose background layers) := by
  rw [compose, List.foldl_append]
  rfl

/-- **The last layer wins.** -/
theorem compose_apply (background : Picture Color) (layers : List (Layer Color)) (x y : ℤ) :
    compose background layers x y =
      (layers.reverse.find? fun layer ↦ layer.window.Covers x y).elim (background x y)
        fun layer ↦ layer.color x y := by
  induction layers using List.reverseRecOn with
  | nil => rfl
  | append_singleton layers layer ih =>
    rw [compose_append, List.reverse_append, List.reverse_singleton, List.singleton_append,
      List.find?_cons, Layer.over]
    by_cases h : layer.window.Covers x y
    · simp [h]
    · simpa [h] using ih

end K210Firmware.Raster
