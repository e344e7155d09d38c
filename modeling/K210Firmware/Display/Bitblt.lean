import K210Firmware.Library.CInt
import K210Firmware.Library.Moves
import K210Firmware.Library.Scan

/-!
# Copying rectangles between pixel arrays

`rt_bitblt` clips a rectangle against its source and its destination array, one clamp after the
other, and copies what is left row by row: upwards if the destination has the lower address,
downwards otherwise. The clamps leave exactly the points that lie in both arrays.
-/

namespace K210Firmware.Display.Bitblt

open Memory Raster

/-- The arguments of `rt_bitblt`. -/
structure Blit where
  dest : Address
  destSegment : ℤ
  destCommon : ℤ
  destX : ℤ
  destY : ℤ
  width : ℤ
  height : ℤ
  src : Address
  srcSegment : ℤ
  srcCommon : ℤ
  srcX : ℤ
  srcY : ℤ
  deriving DecidableEq, Repr

/-- The locals that hold the first and the last column and row of both rectangles. -/
structure Corners where
  sx0 : ℤ
  sx1 : ℤ
  sy0 : ℤ
  sy1 : ℤ
  dx0 : ℤ
  dx1 : ℤ
  dy0 : ℤ
  dy1 : ℤ
  deriving DecidableEq, Repr

/-- `near + extent - 1` -/
def last (near extent : ℤ) : Except Fault ℤ := do
  int32 ((← int32 (near + extent)) - 1)

/-- `if (near < 0) { other -= near; near = 0; }` -/
def clampLow (near other : ℤ) : Except Fault (ℤ × ℤ) :=
  if near < 0 then do return (0, ← int32 (other - near)) else return (near, other)

/-- `if (far >= limit) { other -= (far - limit + 1); far = limit - 1; }` -/
def clampHigh (limit far other : ℤ) : Except Fault (ℤ × ℤ) :=
  if far ≥ limit then do
    let excess ← int32 ((← int32 (far - limit)) + 1)
    let other ← int32 (other - excess)
    return (← int32 (limit - 1), other)
  else return (far, other)

/-- The sums and the eight clamps. -/
def corners (blit : Blit) : Except Fault Corners := do
  let sx1 ← last blit.srcX blit.width
  let sy1 ← last blit.srcY blit.height
  let dx1 ← last blit.destX blit.width
  let dy1 ← last blit.destY blit.height
  let (sx0, dx0) ← clampLow blit.srcX blit.destX
  let (sy0, dy0) ← clampLow blit.srcY blit.destY
  let (sx1, dx1) ← clampHigh blit.srcSegment sx1 dx1
  let (sy1, dy1) ← clampHigh blit.srcCommon sy1 dy1
  let (dx0, sx0) ← clampLow dx0 sx0
  let (dy0, sy0) ← clampLow dy0 sy0
  let (dx1, sx1) ← clampHigh blit.destSegment dx1 sx1
  let (dy1, sy1) ← clampHigh blit.destCommon dy1 sy1
  return ⟨sx0, sx1, sy0, sy1, dx0, dx1, dy0, dy1⟩

/-- The inner loop: `*dest++ = *src++` for each column, or `*dest-- = *src--`. -/
def copyRow (step : ℤ) (blit : Blit) (dest src : ℤ) :
    ℕ → Heap (Block UInt16) → Except Fault (Heap (Block UInt16))
  | 0, heap => return heap
  | columns + 1, heap => do
    let heap ← heap.assign ⟨(blit.dest, dest), (blit.src, src)⟩
    copyRow step blit (dest + step) (src + step) columns heap

/-- The outer loop, with the two row pointers `buff_dest` and `buff_src`. -/
def copyRows (step : ℤ) (blit : Blit) (columns : ℕ) (buffDest buffSrc : ℤ) :
    ℕ → Heap (Block UInt16) → Except Fault (Heap (Block UInt16))
  | 0, heap => return heap
  | rows + 1, heap => do
    let heap ← copyRow step blit buffDest buffSrc columns heap
    copyRows step blit columns (buffDest + step * blit.destSegment)
      (buffSrc + step * blit.srcSegment) rows heap

/-- The two loop nests; the products are `int`, the additions are to pointers. -/
def copyLoop (direction : Direction) (blit : Blit) (corners : Corners)
    (heap : Heap (Block UInt16)) : Except Fault (Heap (Block UInt16)) :=
  let columns := (corners.sx1 + 1 - corners.sx0).toNat
  let rows := (corners.sy1 + 1 - corners.sy0).toNat
  match direction with
  | .forward => do
    let buffSrc := (← int32 (corners.sy0 * blit.srcSegment)) + corners.sx0
    let buffDest := (← int32 (corners.dy0 * blit.destSegment)) + corners.dx0
    copyRows 1 blit columns buffDest buffSrc rows heap
  | .backward => do
    let buffSrc := (← int32 (corners.sy1 * blit.srcSegment)) + corners.sx1
    let buffDest := (← int32 (corners.dy1 * blit.destSegment)) + corners.dx1
    copyRows (-1) blit columns buffDest buffSrc rows heap

/-- `rt_bitblt` with the direction as a parameter. -/
def bitblt (direction : Direction) (blit : Blit) (heap : Heap (Block UInt16)) :
    Except Fault (Heap (Block UInt16)) :=
  if blit.width ≤ 0 then return heap
  else if blit.height ≤ 0 then return heap
  else do
    let corners ← corners blit
    if corners.sx1 < 0 ∨ corners.sx0 ≥ blit.srcSegment then return heap
    else if corners.sy1 < 0 ∨ corners.sy0 ≥ blit.srcCommon then return heap
    else if corners.dx1 < 0 ∨ corners.dx0 ≥ blit.destSegment then return heap
    else if corners.dy1 < 0 ∨ corners.dy0 ≥ blit.destCommon then return heap
    else copyLoop direction blit corners heap

def rtBitblt (blit : Blit) (heap : Heap (Block UInt16)) : Except Fault (Heap (Block UInt16)) :=
  bitblt (if blit.dest < blit.src then .forward else .backward) blit heap

/-! ## Clipping -/

/-- All pixels of an array with `common` rows of `segment` pixels. -/
def surface (segment common : ℤ) : Window := ⟨0, 0, segment - 1, common - 1⟩

def rectangle (x y width height : ℤ) : Window := ⟨x, y, x + width - 1, y + height - 1⟩

namespace Blit

variable (blit : Blit)

/-- How far a pixel moves. -/
def shiftX : ℤ := blit.destX - blit.srcX

def shiftY : ℤ := blit.destY - blit.srcY

/-- The source pixels that are copied. -/
def region : Window where
  x1 := max (max blit.srcX 0) (-blit.shiftX)
  y1 := max (max blit.srcY 0) (-blit.shiftY)
  x2 := min (min (blit.srcX + blit.width - 1) (blit.srcSegment - 1))
    (blit.destSegment - 1 - blit.shiftX)
  y2 := min (min (blit.srcY + blit.height - 1) (blit.srcCommon - 1))
    (blit.destCommon - 1 - blit.shiftY)

/-- The corners of the region and of its place in the destination. -/
def clipped : Corners where
  sx0 := blit.region.x1
  sx1 := blit.region.x2
  sy0 := blit.region.y1
  sy1 := blit.region.y2
  dx0 := blit.region.x1 + blit.shiftX
  dx1 := blit.region.x2 + blit.shiftX
  dy0 := blit.region.y1 + blit.shiftY
  dy1 := blit.region.y2 + blit.shiftY

end Blit

theorem surface_covers {segment common x y : ℤ} :
    (surface segment common).Covers x y ↔ (0 ≤ x ∧ x < segment) ∧ 0 ≤ y ∧ y < common := by
  simp only [Window.Covers, surface]
  omega

theorem rectangle_covers {x y width height i j : ℤ} :
    (rectangle x y width height).Covers i j ↔
      (x ≤ i ∧ i < x + width) ∧ y ≤ j ∧ j < y + height := by
  simp only [Window.Covers, rectangle]
  omega

/-- The region is what lies in the rectangle, in the source and, moved, in the destination. -/
theorem region_covers {blit : Blit} {x y : ℤ} :
    blit.region.Covers x y ↔
      (rectangle blit.srcX blit.srcY blit.width blit.height).Covers x y ∧
        (surface blit.srcSegment blit.srcCommon).Covers x y ∧
          (surface blit.destSegment blit.destCommon).Covers (x + blit.shiftX)
            (y + blit.shiftY) := by
  rw [rectangle_covers, surface_covers, surface_covers]
  simp only [Window.Covers, Blit.region, max_le_iff, le_min_iff]
  omega

theorem eq_of_last {near extent far : ℤ} (h : last near extent = .ok far) :
    far = near + extent - 1 := by
  obtain ⟨sum, hsum, hfar⟩ := bind_eq_ok.mp h
  rw [eq_of_int32 hfar, eq_of_int32 hsum]

theorem eq_of_clampLow {near other near' other' : ℤ}
    (h : clampLow near other = .ok (near', other')) :
    near' = max near 0 ∧ other' = other + (near' - near) := by
  rw [clampLow] at h
  split at h
  · obtain ⟨moved, hmoved, hpair⟩ := bind_eq_ok.mp h
    obtain ⟨rfl, rfl⟩ := Prod.mk.inj (Except.ok.inj hpair)
    rw [eq_of_int32 hmoved]
    omega
  · obtain ⟨rfl, rfl⟩ := Prod.mk.inj (Except.ok.inj h)
    omega

theorem eq_of_clampHigh {limit far other far' other' : ℤ}
    (h : clampHigh limit far other = .ok (far', other')) :
    far' = min far (limit - 1) ∧ other' = other + (far' - far) := by
  rw [clampHigh] at h
  split at h
  · obtain ⟨beyond, hbeyond, h⟩ := bind_eq_ok.mp h
    obtain ⟨excess, hexcess, h⟩ := bind_eq_ok.mp h
    obtain ⟨moved, hmoved, h⟩ := bind_eq_ok.mp h
    obtain ⟨far, hfar, hpair⟩ := bind_eq_ok.mp h
    obtain ⟨rfl, rfl⟩ := Prod.mk.inj (Except.ok.inj hpair)
    rw [eq_of_int32 hmoved, eq_of_int32 hexcess, eq_of_int32 hbeyond, eq_of_int32 hfar]
    omega
  · obtain ⟨rfl, rfl⟩ := Prod.mk.inj (Except.ok.inj h)
    omega

/-- The near ends of one axis, clamped in the source and then in the destination. -/
theorem eq_of_clampLow_clampLow {near other near₁ other₁ near₂ other₂ : ℤ}
    (hlow : clampLow near other = .ok (near₁, other₁))
    (hlow' : clampLow other₁ near₁ = .ok (other₂, near₂)) :
    near₂ = max (max near 0) (-(other - near)) ∧ other₂ = near₂ + (other - near) := by
  obtain ⟨hnear₁, hother₁⟩ := eq_of_clampLow hlow
  obtain ⟨hother₂, hnear₂⟩ := eq_of_clampLow hlow'
  rw [← hnear₁]
  clear hnear₁ hlow hlow'
  omega

/-- The far ends of one axis. -/
theorem eq_of_clampHigh_clampHigh {near other extent limit limit' far far' far₁ far₁' far₂
    far₂' : ℤ} (hfar : last near extent = .ok far) (hfar' : last other extent = .ok far')
    (hhigh : clampHigh limit far far' = .ok (far₁, far₁'))
    (hhigh' : clampHigh limit' far₁' far₁ = .ok (far₂', far₂)) :
    far₂ = min (min (near + extent - 1) (limit - 1)) (limit' - 1 - (other - near)) ∧
      far₂' = far₂ + (other - near) := by
  have hfar' := eq_of_last hfar'
  obtain ⟨hfar₁, hfar₁'⟩ := eq_of_clampHigh hhigh
  obtain ⟨hfar₂', hfar₂⟩ := eq_of_clampHigh hhigh'
  rw [eq_of_last hfar] at hfar₁ hfar₁'
  rw [← hfar₁]
  clear hfar₁ hhigh hhigh' hfar
  omega

/-- The sums and the clamps of one axis return these ends. -/
def AxisReturns (near other extent limit limit' near₂ other₂ far₂ far₂' : ℤ) : Prop :=
  ∃ far far' near₁ other₁ far₁ far₁', last near extent = .ok far ∧ last other extent = .ok far' ∧
    clampLow near other = .ok (near₁, other₁) ∧ clampLow other₁ near₁ = .ok (other₂, near₂) ∧
    clampHigh limit far far' = .ok (far₁, far₁') ∧ clampHigh limit' far₁' far₁ = .ok (far₂', far₂)

/-- The two axes of a call do not depend on each other. -/
theorem axes_of_corners {blit : Blit} {result : Corners} (h : corners blit = .ok result) :
    AxisReturns blit.srcX blit.destX blit.width blit.srcSegment blit.destSegment
        result.sx0 result.dx0 result.sx1 result.dx1 ∧
      AxisReturns blit.srcY blit.destY blit.height blit.srcCommon blit.destCommon
        result.sy0 result.dy0 result.sy1 result.dy1 := by
  obtain ⟨sx1, hsx1, h⟩ := bind_eq_ok.mp h
  obtain ⟨sy1, hsy1, h⟩ := bind_eq_ok.mp h
  obtain ⟨dx1, hdx1, h⟩ := bind_eq_ok.mp h
  obtain ⟨dy1, hdy1, h⟩ := bind_eq_ok.mp h
  obtain ⟨⟨sx0, dx0⟩, hleft, h⟩ := bind_eq_ok.mp h
  obtain ⟨⟨sy0, dy0⟩, htop, h⟩ := bind_eq_ok.mp h
  obtain ⟨⟨sx1', dx1'⟩, hright, h⟩ := bind_eq_ok.mp h
  obtain ⟨⟨sy1', dy1'⟩, hbottom, h⟩ := bind_eq_ok.mp h
  obtain ⟨⟨dx0', sx0'⟩, hleft', h⟩ := bind_eq_ok.mp h
  obtain ⟨⟨dy0', sy0'⟩, htop', h⟩ := bind_eq_ok.mp h
  obtain ⟨⟨dx1'', sx1''⟩, hright', h⟩ := bind_eq_ok.mp h
  obtain ⟨⟨dy1'', sy1''⟩, hbottom', h⟩ := bind_eq_ok.mp h
  cases h
  exact ⟨⟨_, _, _, _, _, _, hsx1, hdx1, hleft, hleft', hright, hright'⟩,
    ⟨_, _, _, _, _, _, hsy1, hdy1, htop, htop', hbottom, hbottom'⟩⟩

/-- **Clipping.** Unless a sum overflows, the eight clamps compute the region. -/
theorem eq_of_corners {blit : Blit} {result : Corners} (h : corners blit = .ok result) :
    result = blit.clipped := by
  obtain ⟨⟨_, _, _, _, _, _, hsx1, hdx1, hleft, hleft', hright, hright'⟩,
    ⟨_, _, _, _, _, _, hsy1, hdy1, htop, htop', hbottom, hbottom'⟩⟩ := axes_of_corners h
  obtain ⟨hsx0, hdx0⟩ := eq_of_clampLow_clampLow hleft hleft'
  obtain ⟨hsy0, hdy0⟩ := eq_of_clampLow_clampLow htop htop'
  obtain ⟨hsx1, hdx1⟩ := eq_of_clampHigh_clampHigh hsx1 hdx1 hright hright'
  obtain ⟨hsy1, hdy1⟩ := eq_of_clampHigh_clampHigh hsy1 hdy1 hbottom hbottom'
  cases result
  simp only at hsx0 hdx0 hsy0 hdy0 hsx1 hdx1 hsy1 hdy1
  rw [hdx0, hdx1, hdy0, hdy1, hsx0, hsx1, hsy0, hsy1]
  rfl

/-! ## The loops -/

/-- The pixel at a point of the source, on its way to the destination. -/
def Blit.move (blit : Blit) (point : ℤ × ℤ) : Move Place where
  target := (blit.dest, (point.2 + blit.shiftY) * blit.destSegment + (point.1 + blit.shiftX))
  source := (blit.src, point.2 * blit.srcSegment + point.1)

/-- The assignments of a copy in their order. -/
def Blit.moves (blit : Blit) (direction : Direction) : List (Move Place) :=
  (blit.region.scan direction).map blit.move

theorem copyRow_eq (step : ℤ) (blit : Blit) (dest src : ℤ) (columns : ℕ)
    (heap : Heap (Block UInt16)) :
    copyRow step blit dest src columns heap =
      ((List.range columns).map fun column : ℕ ↦ Move.mk (blit.dest, dest + step * column)
        (blit.src, src + step * column)).foldlM Heap.assign heap := by
  induction columns generalizing dest src heap with
  | zero => rfl
  | succ columns ih =>
    rw [copyRow, List.range_succ_eq_map, List.map_cons, List.foldlM_cons, List.map_map]
    simp only [ih, Nat.cast_zero, mul_zero, add_zero]
    refine congrArg (heap.assign _ >>= ·) (funext fun next ↦ ?_)
    refine congrArg (List.foldlM Heap.assign next) (List.map_congr_left fun column _ ↦ ?_)
    simp only [Function.comp_apply, Nat.cast_succ, mul_add, mul_one, add_assoc, add_comm step]

theorem copyRows_eq (step : ℤ) (blit : Blit) (columns : ℕ) (buffDest buffSrc : ℤ) (rows : ℕ)
    (heap : Heap (Block UInt16)) :
    copyRows step blit columns buffDest buffSrc rows heap =
      (grid rows columns fun row column : ℕ ↦
        Move.mk (blit.dest, buffDest + step * blit.destSegment * row + step * column)
          (blit.src, buffSrc + step * blit.srcSegment * row + step * column)).foldlM
        Heap.assign heap := by
  induction rows generalizing buffDest buffSrc heap with
  | zero => rfl
  | succ rows ih =>
    rw [copyRows, copyRow_eq, grid_succ, List.foldlM_append]
    simp only [ih, Nat.cast_zero, mul_zero, add_zero]
    refine congrArg (_ >>= ·) (funext fun next ↦ ?_)
    refine congrArg (fun item ↦ List.foldlM Heap.assign next (grid rows columns item)) ?_
    funext row column
    simp only [Nat.cast_succ, mul_add, mul_one, add_assoc, add_comm (step * _ * (row : ℤ))]

theorem moves_eq_grid (blit : Blit) (direction : Direction) :
    blit.moves direction =
      grid blit.region.height.toNat blit.region.width.toNat fun row column : ℕ ↦
        Move.mk (blit.dest,
            ((blit.region.corner direction).2 + blit.shiftY) * blit.destSegment +
              ((blit.region.corner direction).1 + blit.shiftX) +
              direction.step * blit.destSegment * row + direction.step * column)
          (blit.src,
            (blit.region.corner direction).2 * blit.srcSegment +
              (blit.region.corner direction).1 +
              direction.step * blit.srcSegment * row + direction.step * column) := by
  rw [Blit.moves, Window.scan, map_grid]
  refine congrArg (grid _ _) (funext fun row ↦ funext fun column ↦ ?_)
  refine congrArg₂ Move.mk (congrArg _ ?_) (congrArg _ ?_)
  all_goals
    simp only [Window.visit]
    ring

/-- The two products with the row at which the loops start are `int`s. -/
structure Blit.RowsFit (blit : Blit) (direction : Direction) : Prop where
  src : -2 ^ 31 ≤ (blit.region.corner direction).2 * blit.srcSegment ∧
    (blit.region.corner direction).2 * blit.srcSegment < 2 ^ 31
  dest : -2 ^ 31 ≤ ((blit.region.corner direction).2 + blit.shiftY) * blit.destSegment ∧
    ((blit.region.corner direction).2 + blit.shiftY) * blit.destSegment < 2 ^ 31

/-- The loops make the assignments of the region. -/
theorem copyLoop_of_rowsFit {direction : Direction} {blit : Blit} (h : blit.RowsFit direction)
    (heap : Heap (Block UInt16)) :
    copyLoop direction blit blit.clipped heap =
      (blit.moves direction).foldlM Heap.assign heap := by
  have hcolumns : blit.clipped.sx1 + 1 - blit.clipped.sx0 = blit.region.width := by
    simp only [Blit.clipped, Window.width]
    omega
  have hrows : blit.clipped.sy1 + 1 - blit.clipped.sy0 = blit.region.height := by
    simp only [Blit.clipped, Window.height]
    omega
  rw [moves_eq_grid]
  cases direction with
  | forward =>
    have hsrc : int32 (blit.clipped.sy0 * blit.srcSegment) = .ok _ :=
      int32_eq_ok h.src.1 h.src.2
    have hdest : int32 (blit.clipped.dy0 * blit.destSegment) = .ok _ :=
      int32_eq_ok h.dest.1 h.dest.2
    simp only [copyLoop, hcolumns, hrows, copyRows_eq]
    rw [hsrc, ok_bind, hdest, ok_bind]
    rfl
  | backward =>
    have hsrc : int32 (blit.clipped.sy1 * blit.srcSegment) = .ok _ :=
      int32_eq_ok h.src.1 h.src.2
    have hdest : int32 (blit.clipped.dy1 * blit.destSegment) = .ok _ :=
      int32_eq_ok h.dest.1 h.dest.2
    simp only [copyLoop, hcolumns, hrows, copyRows_eq]
    rw [hsrc, ok_bind, hdest, ok_bind]
    rfl

theorem copyLoop_of_not_rowsFit {direction : Direction} {blit : Blit}
    (h : ¬ blit.RowsFit direction) (heap : Heap (Block UInt16)) :
    copyLoop direction blit blit.clipped heap = .error .overflow := by
  cases direction with
  | forward =>
    rcases int32_cases (blit.clipped.sy0 * blit.srcSegment) with hsrc | hsrc
    · simp only [copyLoop, hsrc]
      rfl
    rcases int32_cases (blit.clipped.dy0 * blit.destSegment) with hdest | hdest
    · simp only [copyLoop, hsrc, hdest]
      rfl
    · exact absurd ⟨range_of_int32 hsrc, range_of_int32 hdest⟩ h
  | backward =>
    rcases int32_cases (blit.clipped.sy1 * blit.srcSegment) with hsrc | hsrc
    · simp only [copyLoop, hsrc]
      rfl
    rcases int32_cases (blit.clipped.dy1 * blit.destSegment) with hdest | hdest
    · simp only [copyLoop, hsrc, hdest]
      rfl
    · exact absurd ⟨range_of_int32 hsrc, range_of_int32 hdest⟩ h

theorem moves_eq_nil {blit : Blit} (h : ∀ x y, ¬ blit.region.Covers x y) (direction : Direction) :
    blit.moves direction = [] := by
  rw [Blit.moves, Window.scan_eq_nil h]
  rfl

theorem onlyOverflows_last (near extent : ℤ) : OnlyOverflows (last near extent) :=
  (onlyOverflows_int32 _).bind fun _ ↦ onlyOverflows_int32 _

theorem onlyOverflows_clampLow (near other : ℤ) : OnlyOverflows (clampLow near other) := by
  rw [clampLow]
  split
  · exact (onlyOverflows_int32 _).bind fun _ ↦ onlyOverflows_ok _
  · exact onlyOverflows_ok _

theorem onlyOverflows_clampHigh (limit far other : ℤ) :
    OnlyOverflows (clampHigh limit far other) := by
  rw [clampHigh]
  split
  · refine (onlyOverflows_int32 _).bind fun _ ↦ (onlyOverflows_int32 _).bind fun _ ↦ ?_
    exact (onlyOverflows_int32 _).bind fun _ ↦ (onlyOverflows_int32 _).bind fun _ ↦
      onlyOverflows_ok _
  · exact onlyOverflows_ok _

theorem onlyOverflows_corners (blit : Blit) : OnlyOverflows (corners blit) := by
  refine (onlyOverflows_last _ _).bind fun _ ↦ (onlyOverflows_last _ _).bind fun _ ↦ ?_
  refine (onlyOverflows_last _ _).bind fun _ ↦ (onlyOverflows_last _ _).bind fun _ ↦ ?_
  refine (onlyOverflows_clampLow _ _).bind fun _ ↦ (onlyOverflows_clampLow _ _).bind fun _ ↦ ?_
  refine (onlyOverflows_clampHigh _ _ _).bind fun _ ↦ ?_
  refine (onlyOverflows_clampHigh _ _ _).bind fun _ ↦ ?_
  refine (onlyOverflows_clampLow _ _).bind fun _ ↦ (onlyOverflows_clampLow _ _).bind fun _ ↦ ?_
  refine (onlyOverflows_clampHigh _ _ _).bind fun _ ↦ ?_
  exact (onlyOverflows_clampHigh _ _ _).bind fun _ ↦ onlyOverflows_ok _

theorem corners_cases (blit : Blit) :
    corners blit = .error .overflow ∨ corners blit = .ok blit.clipped := by
  cases h : corners blit with
  | error fault => exact .inl (congrArg _ (onlyOverflows_corners blit fault h))
  | ok result => exact .inr (congrArg _ (eq_of_corners h))

/-- A call with nothing to copy returns at once. -/
theorem bitblt_of_empty {blit : Blit} (hempty : ¬ (0 < blit.width ∧ 0 < blit.height))
    (direction : Direction) (heap : Heap (Block UInt16)) :
    bitblt direction blit heap = .ok heap := by
  rw [bitblt]
  split
  · rfl
  · rw [if_pos (by omega)]
    rfl

/-- A call with something to copy reaches the loops. -/
theorem bitblt_eq_copyLoop {blit : Blit} (hcorners : corners blit = .ok blit.clipped) {x y : ℤ}
    (hcovers : blit.region.Covers x y) (direction : Direction) (heap : Heap (Block UInt16)) :
    bitblt direction blit heap = copyLoop direction blit blit.clipped heap := by
  obtain ⟨hrectangle, hsrc, hdest⟩ := region_covers.mp hcovers
  rw [rectangle_covers] at hrectangle
  rw [surface_covers] at hsrc hdest
  obtain ⟨⟨hx0, hx1⟩, hy0, hy1⟩ := hcovers
  have hx0 : blit.clipped.sx0 ≤ x := hx0
  have hx1 : x ≤ blit.clipped.sx1 := hx1
  have hy0 : blit.clipped.sy0 ≤ y := hy0
  have hy1 : y ≤ blit.clipped.sy1 := hy1
  have hdx0 : blit.clipped.dx0 = blit.clipped.sx0 + blit.shiftX := rfl
  have hdx1 : blit.clipped.dx1 = blit.clipped.sx1 + blit.shiftX := rfl
  have hdy0 : blit.clipped.dy0 = blit.clipped.sy0 + blit.shiftY := rfl
  have hdy1 : blit.clipped.dy1 = blit.clipped.sy1 + blit.shiftY := rfl
  rw [bitblt, if_neg (by omega), if_neg (by omega), hcorners, ok_bind, if_neg (by omega),
    if_neg (by omega), if_neg (by omega), if_neg (by omega)]

/-- **The assignments of a call.** The early returns only skip calls that copy nothing. -/
theorem bitblt_cases (direction : Direction) (blit : Blit) (heap : Heap (Block UInt16)) :
    bitblt direction blit heap = .error .overflow ∨
      bitblt direction blit heap = (blit.moves direction).foldlM Heap.assign heap := by
  have hloop : copyLoop direction blit blit.clipped heap = .error .overflow ∨
      copyLoop direction blit blit.clipped heap =
        (blit.moves direction).foldlM Heap.assign heap := by
    by_cases hrows : blit.RowsFit direction
    · exact .inr (copyLoop_of_rowsFit hrows heap)
    · exact .inl (copyLoop_of_not_rowsFit hrows heap)
  by_cases hcovered : ∃ x y, blit.region.Covers x y
  · obtain ⟨x, y, hcovers⟩ := hcovered
    rcases corners_cases blit with hcorners | hcorners
    · have hinside := rectangle_covers.mp (region_covers.mp hcovers).1
      rw [bitblt, if_neg (by omega), if_neg (by omega), hcorners]
      exact .inl rfl
    · rw [bitblt_eq_copyLoop hcorners hcovers]
      exact hloop
  · have hnothing : Except.ok heap = (blit.moves direction).foldlM Heap.assign heap := by
      rw [moves_eq_nil fun x y hcovers ↦ hcovered ⟨x, y, hcovers⟩]
      rfl
    rw [bitblt]
    split
    · exact .inr hnothing
    split
    · exact .inr hnothing
    rcases corners_cases blit with hcorners | hcorners
    · rw [hcorners]
      exact .inl rfl
    rw [hcorners, ok_bind]
    split
    · exact .inr hnothing
    split
    · exact .inr hnothing
    split
    · exact .inr hnothing
    split
    · exact .inr hnothing
    exact hloop

/-! ## What a call does -/

/-- The pixels of an array. -/
def pixel (block : Block UInt16) (segment : ℤ) : Picture UInt16 :=
  fun x y ↦ block.cell (y * segment + x)

/-- The destination after a copy: the pixels that have a place in both arrays are copied, all
others are kept. -/
structure Blitted (blit : Blit) (dest src after : Block UInt16) : Prop where
  size : after.size = dest.size
  copied : ∀ i j, 0 ≤ i → i < blit.width → 0 ≤ j → j < blit.height →
    (surface blit.destSegment blit.destCommon).Covers (blit.destX + i) (blit.destY + j) →
      (surface blit.srcSegment blit.srcCommon).Covers (blit.srcX + i) (blit.srcY + j) →
        pixel after blit.destSegment (blit.destX + i) (blit.destY + j) =
          pixel src blit.srcSegment (blit.srcX + i) (blit.srcY + j)
  kept : ∀ x y, (surface blit.destSegment blit.destCommon).Covers x y →
    (∀ i j, 0 ≤ i → i < blit.width → 0 ≤ j → j < blit.height → x = blit.destX + i →
      y = blit.destY + j →
        ¬ (surface blit.srcSegment blit.srcCommon).Covers (blit.srcX + i) (blit.srcY + j)) →
      pixel after blit.destSegment x y = pixel dest blit.destSegment x y

theorem surface_offset (segment common x y : ℤ) :
    (surface segment common).offset x y = y * segment + x := by
  simp [Window.offset, Window.width, surface]

theorem surface_size (segment common : ℤ) : (surface segment common).size = segment * common := by
  simp [Window.size, Window.width, Window.height, surface]

theorem inBounds_pixel {heap : Heap (Block UInt16)} {array : Address} {block : Block UInt16}
    {segment common x y : ℤ} (hload : heap.load array = .ok block)
    (hsize : block.size = segment * common) (hcovers : (surface segment common).Covers x y) :
    heap.InBounds (array, y * segment + x) := by
  have hnonneg := hcovers.offset_nonneg
  have hlt := hcovers.offset_lt_size
  rw [surface_offset] at hnonneg hlt
  rw [surface_size, ← hsize] at hlt
  exact ⟨block, hload, hnonneg, hlt⟩

/-- The region lies in both arrays. -/
theorem inBounds_move {blit : Blit} {heap : Heap (Block UInt16)} {dest src : Block UInt16}
    (hdest : heap.load blit.dest = .ok dest) (hsrc : heap.load blit.src = .ok src)
    (hdestSize : dest.size = blit.destSegment * blit.destCommon)
    (hsrcSize : src.size = blit.srcSegment * blit.srcCommon) (x y : ℤ)
    (hcovers : blit.region.Covers x y) :
    heap.InBounds (blit.move (x, y)).source ∧ heap.InBounds (blit.move (x, y)).target := by
  obtain ⟨_, hsurface, hplace⟩ := region_covers.mp hcovers
  exact ⟨inBounds_pixel hsrc hsrcSize hsurface, inBounds_pixel hdest hdestSize hplace⟩

/-- Different pixels have different places. -/
theorem pixel_injective {segment common x y x' y' : ℤ}
    (hcovers : (surface segment common).Covers x y)
    (hcovers' : (surface segment common).Covers x' y')
    (h : y * segment + x = y' * segment + x') : x = x' ∧ y = y' := by
  have hpoint := hcovers.point_offset
  rw [surface_offset, h, ← surface_offset segment common, hcovers'.point_offset] at hpoint
  exact ⟨(congrArg Prod.fst hpoint).symm, (congrArg Prod.snd hpoint).symm⟩

theorem mem_moves {blit : Blit} {direction : Direction} {move : Move Place} :
    move ∈ blit.moves direction ↔ ∃ x y, blit.region.Covers x y ∧ blit.move (x, y) = move := by
  rw [Blit.moves, List.mem_map]
  constructor
  · rintro ⟨⟨x, y⟩, hpoint, hmove⟩
    exact ⟨x, y, Window.mem_scan.mp hpoint, hmove⟩
  · rintro ⟨x, y, hcovers, hmove⟩
    exact ⟨(x, y), Window.mem_scan.mpr hcovers, hmove⟩

theorem moves_distinct (blit : Blit) (direction : Direction) :
    (blit.moves direction).Pairwise fun early late ↦ early.target ≠ late.target := by
  rw [Blit.moves, List.pairwise_map, Window.pairwise_scan_iff]
  intro x y x' y' hcovers hcovers' hbefore htarget
  obtain ⟨hx, hy⟩ := pixel_injective (region_covers.mp hcovers).2.2
    (region_covers.mp hcovers').2.2 (Prod.mk.inj htarget).2
  cases direction
  all_goals
    simp only [Direction.Before] at hbefore
    omega

/-- The assignments of a call in bounds change the destination only. -/
theorem foldlM_moves {blit : Blit} {heap : Heap (Block UInt16)} {dest : Block UInt16}
    (hdest : heap.load blit.dest = .ok dest)
    (hbounds : ∀ x y, blit.region.Covers x y →
      heap.InBounds (blit.move (x, y)).source ∧ heap.InBounds (blit.move (x, y)).target)
    (direction : Direction) :
    (blit.moves direction).foldlM Heap.assign heap =
      .ok (heap.set blit.dest (some ⟨dest.size, fun index ↦
        runMoves (blit.moves direction) heap.contents (blit.dest, index)⟩)) := by
  have htarget : ∀ move ∈ blit.moves direction, move.target.1 = blit.dest := by
    intro move hmove
    obtain ⟨x, y, _, rfl⟩ := mem_moves.mp hmove
    rfl
  have hmoves : ∀ move ∈ blit.moves direction,
      heap.InBounds move.source ∧ heap.InBounds move.target := by
    intro move hmove
    obtain ⟨x, y, hcovers, rfl⟩ := mem_moves.mp hmove
    exact hbounds x y hcovers
  have hrun := Heap.foldlM_assign hmoves heap.contents
  rw [Heap.filled_contents] at hrun
  rw [hrun, Heap.filled_runMoves hdest htarget]

theorem bitblt_eq_ok {direction : Direction} {blit : Blit} {heap : Heap (Block UInt16)}
    {dest : Block UInt16} (hdest : heap.load blit.dest = .ok dest)
    (hbounds : ∀ x y, blit.region.Covers x y →
      heap.InBounds (blit.move (x, y)).source ∧ heap.InBounds (blit.move (x, y)).target)
    (hsums : bitblt direction blit heap ≠ .error .overflow) :
    bitblt direction blit heap = .ok (heap.set blit.dest (some ⟨dest.size, fun index ↦
      runMoves (blit.moves direction) heap.contents (blit.dest, index)⟩)) := by
  rw [(bitblt_cases direction blit heap).resolve_left hsums, foldlM_moves hdest hbounds]

/-- The assignments copy the right pixels exactly if each of them finds what a temporary would
hold. -/
theorem blitted_iff {direction : Direction} {blit : Blit} {heap : Heap (Block UInt16)}
    {dest src : Block UInt16} (hdest : heap.load blit.dest = .ok dest)
    (hsrc : heap.load blit.src = .ok src) :
    Blitted blit dest src ⟨dest.size, fun index ↦
        runMoves (blit.moves direction) heap.contents (blit.dest, index)⟩ ↔
      Copied (blit.moves direction) heap.contents
        (runMoves (blit.moves direction) heap.contents) := by
  constructor
  · intro h
    refine ⟨fun move hmove ↦ ?_, fun place hplace ↦ runMoves_kept hplace⟩
    obtain ⟨x, y, hcovers, rfl⟩ := mem_moves.mp hmove
    obtain ⟨hrectangle, hsurface, hplace⟩ := region_covers.mp hcovers
    rw [rectangle_covers] at hrectangle
    have hx : blit.destX + (x - blit.srcX) = x + blit.shiftX := by
      rw [Blit.shiftX]
      omega
    have hy : blit.destY + (y - blit.srcY) = y + blit.shiftY := by
      rw [Blit.shiftY]
      omega
    have hcopied := h.copied (x - blit.srcX) (y - blit.srcY) (by omega) (by omega) (by omega)
      (by omega) (by rwa [hx, hy]) (by simpa using hsurface)
    rw [hx, hy] at hcopied
    refine hcopied.trans ?_
    rw [pixel, Blit.move, Heap.contents_of_load hsrc]
    simp
  · intro h
    refine ⟨rfl, fun i j hi hwidth hj hheight hplace hsurface ↦ ?_, fun x y hplace hkept ↦ ?_⟩
    · have hx : blit.srcX + i + blit.shiftX = blit.destX + i := by
        rw [Blit.shiftX]
        omega
      have hy : blit.srcY + j + blit.shiftY = blit.destY + j := by
        rw [Blit.shiftY]
        omega
      have hcovers : blit.region.Covers (blit.srcX + i) (blit.srcY + j) := by
        refine region_covers.mpr ⟨rectangle_covers.mpr ?_, hsurface, ?_⟩
        · omega
        · rwa [hx, hy]
      have hmoved := h.moved _ (mem_moves.mpr ⟨_, _, hcovers, rfl⟩)
      simp only [Blit.move, hx, hy, Heap.contents_of_load hsrc] at hmoved
      exact hmoved
    · refine (h.kept (blit.dest, y * blit.destSegment + x) fun move hmove htarget ↦ ?_).trans
        (Heap.contents_of_load hdest _)
      obtain ⟨x', y', hcovers, rfl⟩ := mem_moves.mp hmove
      obtain ⟨hrectangle, hsurface, hplace'⟩ := region_covers.mp hcovers
      rw [rectangle_covers] at hrectangle
      obtain ⟨hx, hy⟩ := pixel_injective hplace' hplace (Prod.mk.inj htarget).2
      rw [Blit.shiftX] at hx
      rw [Blit.shiftY] at hy
      refine hkept (x' - blit.srcX) (y' - blit.srcY) (by omega) (by omega) (by omega) (by omega)
        (by omega) (by omega) ?_
      simpa using hsurface

/-- A call that returns keeps every array live and at its size. -/
theorem load_bitblt {direction : Direction} {blit : Blit} {heap after : Heap (Block UInt16)}
    (h : bitblt direction blit heap = .ok after) {address : Address} {block : Block UInt16}
    (hload : heap.load address = .ok block) :
    ∃ next, after.load address = .ok next ∧ next.size = block.size := by
  rcases bitblt_cases direction blit heap with hfault | hmoves
  · cases hfault.symm.trans h
  · exact Heap.load_foldlM_assign (hmoves.symm.trans h) hload

/-! ## Sums and products that fit -/

/-- One axis of a call: the origins are `int`s, and so are the sums with the extent and, in both
directions, the distance of the move. -/
structure AxisFits (near other extent : ℤ) : Prop where
  near_fits : -2 ^ 31 ≤ near ∧ near + extent < 2 ^ 31
  other_fits : -2 ^ 31 ≤ other ∧ other + extent < 2 ^ 31
  move_fits : -2 ^ 31 < other - near ∧ other - near < 2 ^ 31

/-- The sums of coordinates that a call forms do not overflow. -/
structure Blit.SumsFit (blit : Blit) : Prop where
  x : AxisFits blit.srcX blit.destX blit.width
  y : AxisFits blit.srcY blit.destY blit.height

/-- The extents of both arrays are positive. -/
structure Blit.Sized (blit : Blit) : Prop where
  src : 0 < blit.srcSegment ∧ 0 < blit.srcCommon
  dest : 0 < blit.destSegment ∧ 0 < blit.destCommon

theorem clampLow_returns {near other : ℤ}
    (hmoved : near < 0 → -2 ^ 31 ≤ other - near ∧ other - near < 2 ^ 31) :
    ∃ near' other', clampLow near other = .ok (near', other') := by
  rw [clampLow]
  split
  next hnear =>
    rw [int32_eq_ok (hmoved hnear).1 (hmoved hnear).2]
    exact ⟨_, _, rfl⟩
  next => exact ⟨_, _, rfl⟩

theorem clampHigh_returns {limit far other : ℤ} (hlimit : 0 < limit) (hfar : far < 2 ^ 31)
    (hupper : other < 2 ^ 31) (hmoved : limit ≤ far → -2 ^ 31 ≤ other - (far - limit + 1)) :
    ∃ far' other', clampHigh limit far other = .ok (far', other') := by
  rw [clampHigh]
  split
  next hfar' =>
    have hlower := hmoved hfar'
    rw [int32_eq_ok (by omega) (by omega), ok_bind, int32_eq_ok (by omega) (by omega), ok_bind,
      int32_eq_ok (by omega) (by omega), ok_bind, int32_eq_ok (by omega) (by omega)]
    exact ⟨_, _, rfl⟩
  next => exact ⟨_, _, rfl⟩

/-- The clamps of one axis do not overflow. -/
theorem clamps_eq_ok {near other extent limit limit' : ℤ} (hextent : 0 < extent)
    (h : AxisFits near other extent) (hlimit : 0 < limit) (hlimit' : 0 < limit') :
    last near extent = .ok (near + extent - 1) ∧ last other extent = .ok (other + extent - 1) ∧
      ∃ near₁ other₁, clampLow near other = .ok (near₁, other₁) ∧
      ∃ far₁ far₁', clampHigh limit (near + extent - 1) (other + extent - 1) = .ok (far₁, far₁') ∧
      ∃ other₂ near₂, clampLow other₁ near₁ = .ok (other₂, near₂) ∧
      ∃ far₂' far₂, clampHigh limit' far₁' far₁ = .ok (far₂', far₂) := by
  obtain ⟨⟨hnear, hfar⟩, ⟨hother, hfar'⟩, hback, hon⟩ := h
  have hlast {origin : ℤ} (horigin : -2 ^ 31 ≤ origin) (hsum : origin + extent < 2 ^ 31) :
      last origin extent = .ok (origin + extent - 1) := by
    rw [last, int32_eq_ok (by omega) hsum, ok_bind, int32_eq_ok (by omega) (by omega)]
  refine ⟨hlast hnear hfar, hlast hother hfar', ?_⟩
  obtain ⟨near₁, other₁, hlow⟩ := @clampLow_returns near other (fun _ ↦ by omega)
  obtain ⟨hnear₁, hother₁⟩ := eq_of_clampLow hlow
  obtain ⟨far₁, far₁', hhigh⟩ := @clampHigh_returns limit (near + extent - 1) (other + extent - 1)
    hlimit (by omega) (by omega) (fun _ ↦ by omega)
  obtain ⟨hfar₁, hfar₁'⟩ := eq_of_clampHigh hhigh
  have hmoved : other₁ = near₁ + (other - near) := by omega
  have hmoved' : far₁' = far₁ + (other - near) := by omega
  have hfar₁_le : far₁ ≤ near + extent - 1 := hfar₁ ▸ min_le_left _ _
  obtain ⟨other₂, near₂, hlow'⟩ := @clampLow_returns other₁ near₁ (fun _ ↦ by omega)
  obtain ⟨far₂', far₂, hhigh'⟩ := @clampHigh_returns limit' far₁' far₁ hlimit' (by omega) (by omega)
    (fun _ ↦ by omega)
  exact ⟨near₁, other₁, hlow, far₁, far₁', hhigh, other₂, near₂, hlow', far₂', far₂, hhigh'⟩

/-- Where the sums and the clamps return, the axis fits. -/
theorem axisFits_of_returns {near other extent limit limit' near₂ other₂ far₂ far₂' : ℤ}
    (hnear : -2 ^ 31 ≤ near) (hother : -2 ^ 31 ≤ other) (hextent : 0 < extent)
    (h : AxisReturns near other extent limit limit' near₂ other₂ far₂ far₂') :
    AxisFits near other extent := by
  obtain ⟨far, far', near₁, other₁, _, _, hfar, hfar', hlow, hlow', _, _⟩ := h
  have hsum {origin far : ℤ} (h : last origin extent = .ok far) : origin + extent < 2 ^ 31 := by
    obtain ⟨sum, hsum, _⟩ := bind_eq_ok.mp h
    exact (range_of_int32 hsum).2
  obtain ⟨hnear₁, hother₁⟩ := eq_of_clampLow hlow
  have hsums := hsum hfar
  have hsums' := hsum hfar'
  refine ⟨⟨hnear, hsums⟩, ⟨hother, hsums'⟩, ?_, ?_⟩
  · -- an origin of the source that is not negative, and a negative one of the destination
    by_contra hfault
    rw [clampLow, if_pos (by omega)] at hlow'
    obtain ⟨moved, hmoved, _⟩ := bind_eq_ok.mp hlow'
    have hrange := range_of_int32 hmoved
    omega
  · by_contra hfault
    rw [clampLow, if_pos (by omega)] at hlow
    obtain ⟨moved, hmoved, _⟩ := bind_eq_ok.mp hlow
    have hrange := range_of_int32 hmoved
    omega

theorem corners_eq_ok {blit : Blit} (hwidth : 0 < blit.width) (hheight : 0 < blit.height)
    (hsized : blit.Sized) (h : blit.SumsFit) : corners blit = .ok blit.clipped := by
  obtain ⟨hsx1, hdx1, sx0, dx0, hleft, sx1, dx1, hright, dx0', sx0', hleft', dx1', sx1', hright'⟩ :=
    clamps_eq_ok hwidth h.x hsized.src.1 hsized.dest.1
  obtain ⟨hsy1, hdy1, sy0, dy0, htop, sy1, dy1, hbottom, dy0', sy0', htop', dy1', sy1', hbottom'⟩ :=
    clamps_eq_ok hheight h.y hsized.src.2 hsized.dest.2
  refine (corners_cases blit).resolve_left fun hfault ↦ ?_
  simp only [corners, hsx1, hdx1, hleft, hleft', hright, hright', hsy1, hdy1, htop, htop',
    hbottom, hbottom', ok_bind] at hfault
  cases hfault

/-- Exactly then the sums do not overflow. -/
theorem corners_eq_ok_iff {blit : Blit} (hwidth : 0 < blit.width) (hheight : 0 < blit.height)
    (hsized : blit.Sized) (hsrc : -2 ^ 31 ≤ blit.srcX ∧ -2 ^ 31 ≤ blit.srcY)
    (hdest : -2 ^ 31 ≤ blit.destX ∧ -2 ^ 31 ≤ blit.destY) :
    corners blit = .ok blit.clipped ↔ blit.SumsFit := by
  refine ⟨fun h ↦ ?_, corners_eq_ok hwidth hheight hsized⟩
  obtain ⟨hx, hy⟩ := axes_of_corners h
  exact ⟨axisFits_of_returns hsrc.1 hdest.1 hwidth hx, axisFits_of_returns hsrc.2 hdest.2 hheight hy⟩

/-- A call that is not skipped by one of the early returns. -/
structure Blit.Reached (blit : Blit) : Prop where
  width : 0 < blit.width
  height : 0 < blit.height
  src_x : 0 ≤ blit.region.x2 ∧ blit.region.x1 < blit.srcSegment
  src_y : 0 ≤ blit.region.y2 ∧ blit.region.y1 < blit.srcCommon
  dest_x : 0 ≤ blit.region.x2 + blit.shiftX ∧ blit.region.x1 + blit.shiftX < blit.destSegment
  dest_y : 0 ≤ blit.region.y2 + blit.shiftY ∧ blit.region.y1 + blit.shiftY < blit.destCommon

/-- The offsets of the rows at which the loops start are `int`s, if the loops are reached. -/
def Blit.OffsetsFit (blit : Blit) (direction : Direction) : Prop :=
  blit.Reached → blit.RowsFit direction

theorem rowOffset_fits {row segment common : ℤ} (hrow : 0 ≤ row ∧ row < common)
    (hsegment : 0 < segment) (hsize : segment * common ≤ 2 ^ 31) :
    -2 ^ 31 ≤ row * segment ∧ row * segment < 2 ^ 31 := by
  have hnonneg : 0 ≤ row * segment := mul_nonneg hrow.1 hsegment.le
  have hlt : row * segment < common * segment := mul_lt_mul_of_pos_right hrow.2 hsegment
  rw [mul_comm common] at hlt
  exact ⟨le_trans (by decide) hnonneg, hlt.trans_le hsize⟩

/-- In arrays of at most `2 ^ 31` pixels every offset fits. -/
theorem Blit.offsetsFit_of_size {blit : Blit} (hsized : blit.Sized)
    (hsrc : blit.srcSegment * blit.srcCommon ≤ 2 ^ 31)
    (hdest : blit.destSegment * blit.destCommon ≤ 2 ^ 31) (direction : Direction) :
    blit.OffsetsFit direction := by
  intro hreached
  have hy1 : 0 ≤ blit.region.y1 := le_trans (le_max_right _ _) (le_max_left _ _)
  have hy1' : -blit.shiftY ≤ blit.region.y1 := le_max_right _ _
  have hy2 : blit.region.y2 ≤ blit.srcCommon - 1 := le_trans (min_le_left _ _) (min_le_right _ _)
  have hy2' : blit.region.y2 ≤ blit.destCommon - 1 - blit.shiftY := min_le_right _ _
  obtain ⟨hlast, hfirst⟩ := hreached.src_y
  obtain ⟨hlast', hfirst'⟩ := hreached.dest_y
  have hrow : (0 ≤ (blit.region.corner direction).2 ∧
      (blit.region.corner direction).2 < blit.srcCommon) ∧
      0 ≤ (blit.region.corner direction).2 + blit.shiftY ∧
        (blit.region.corner direction).2 + blit.shiftY < blit.destCommon := by
    cases direction with
    | forward =>
      simp only [Window.corner]
      omega
    | backward =>
      simp only [Window.corner]
      omega
  exact ⟨rowOffset_fits hrow.1 hsized.src.1 hsrc, rowOffset_fits hrow.2 hsized.dest.1 hdest⟩

/-- A call without an overflow reaches the loops, or has nothing to copy. -/
theorem bitblt_of_corners {blit : Blit}
    (hcorners : 0 < blit.width → 0 < blit.height → corners blit = .ok blit.clipped)
    (direction : Direction) (heap : Heap (Block UInt16)) :
    blit.Reached ∧ bitblt direction blit heap = copyLoop direction blit blit.clipped heap ∨
      ¬ blit.Reached ∧ bitblt direction blit heap = .ok heap := by
  by_cases hempty : 0 < blit.width ∧ 0 < blit.height
  swap
  · exact .inr ⟨fun h ↦ hempty ⟨h.width, h.height⟩, bitblt_of_empty hempty direction heap⟩
  rw [bitblt, if_neg (by omega), if_neg (by omega), hcorners hempty.1 hempty.2, ok_bind]
  split
  next hskip => exact .inr ⟨fun h ↦ hskip.elim (not_lt.mpr h.src_x.1) (not_le.mpr h.src_x.2), rfl⟩
  next hsrc_x =>
  split
  next hskip => exact .inr ⟨fun h ↦ hskip.elim (not_lt.mpr h.src_y.1) (not_le.mpr h.src_y.2), rfl⟩
  next hsrc_y =>
  split
  next hskip => exact .inr ⟨fun h ↦ hskip.elim (not_lt.mpr h.dest_x.1) (not_le.mpr h.dest_x.2), rfl⟩
  next hdest_x =>
  split
  next hskip => exact .inr ⟨fun h ↦ hskip.elim (not_lt.mpr h.dest_y.1) (not_le.mpr h.dest_y.2), rfl⟩
  next hdest_y =>
  simp only [not_or, not_lt, not_le] at hsrc_x hsrc_y hdest_x hdest_y
  exact .inl ⟨⟨hempty.1, hempty.2, hsrc_x, hsrc_y, hdest_x, hdest_y⟩, rfl⟩

/-- Beyond the sums, a call overflows exactly if the offset of a first row does. -/
theorem bitblt_overflows_iff {blit : Blit} {heap : Heap (Block UInt16)} {dest : Block UInt16}
    (hdest : heap.load blit.dest = .ok dest)
    (hbounds : ∀ x y, blit.region.Covers x y →
      heap.InBounds (blit.move (x, y)).source ∧ heap.InBounds (blit.move (x, y)).target)
    (hcorners : 0 < blit.width → 0 < blit.height → corners blit = .ok blit.clipped)
    (direction : Direction) :
    bitblt direction blit heap = .error .overflow ↔ ¬ blit.OffsetsFit direction := by
  rcases bitblt_of_corners hcorners direction heap with ⟨hreached, hrun⟩ | ⟨hskipped, hrun⟩
  · rw [hrun, Blit.OffsetsFit]
    by_cases hrows : blit.RowsFit direction
    · rw [copyLoop_of_rowsFit hrows, foldlM_moves hdest hbounds]
      exact iff_of_false (fun hfault ↦ by cases hfault) (not_not_intro fun _ ↦ hrows)
    · exact iff_of_true (copyLoop_of_not_rowsFit hrows heap) fun hfits ↦ hrows (hfits hreached)
  · rw [hrun]
    exact iff_of_false (fun hfault ↦ by cases hfault)
      (not_not_intro fun hreached ↦ absurd hreached hskipped)

/-! ## Two arrays -/

/-- A copy between two arrays never reads what it has written. -/
theorem undisturbed_of_ne {blit : Blit} (hdisjoint : blit.dest ≠ blit.src) (direction : Direction)
    (memory : Place → UInt16) : Undisturbed (blit.moves direction) memory := by
  rw [Undisturbed, Blit.moves, List.pairwise_map, Window.pairwise_scan_iff]
  intro x y x' y' _ _ _ hplace
  exact absurd (congrArg Prod.fst hplace) hdisjoint

/-- The loops that `rt_bitblt` chooses by the addresses. -/
def Blit.direction (blit : Blit) : Direction :=
  if blit.dest < blit.src then .forward else .backward

/-- **Clipping is exact.** Unless a sum of coordinates or the offset of a first row overflows, a copy
between two arrays stays in both of them, copies every pixel that has a place in both and no other,
and does so in either direction. -/
theorem rtBitblt_clips {blit : Blit} {heap : Heap (Block UInt16)} {dest src : Block UInt16}
    (hdest : heap.load blit.dest = .ok dest) (hsrc : heap.load blit.src = .ok src)
    (hdisjoint : blit.dest ≠ blit.src) (hsized : blit.Sized)
    (hdestSize : dest.size = blit.destSegment * blit.destCommon)
    (hsrcSize : src.size = blit.srcSegment * blit.srcCommon)
    (hsums : 0 < blit.width → 0 < blit.height → blit.SumsFit)
    (hoffsets : blit.OffsetsFit blit.direction) :
    ∃ after, rtBitblt blit heap = .ok (heap.set blit.dest (some after)) ∧
      Blitted blit dest src after ∧
      ∀ direction, blit.OffsetsFit direction →
        bitblt direction blit heap = .ok (heap.set blit.dest (some after)) := by
  have hbounds := inBounds_move hdest hsrc hdestSize hsrcSize
  have hcorners (hwidth : 0 < blit.width) (hheight : 0 < blit.height) :=
    corners_eq_ok hwidth hheight hsized (hsums hwidth hheight)
  have hreturns (direction : Direction) (hfits : blit.OffsetsFit direction) :
      bitblt direction blit heap ≠ .error .overflow :=
    mt (bitblt_overflows_iff hdest hbounds hcorners direction).mp (not_not_intro hfits)
  have hcopied (direction : Direction) :=
    (copied_runMoves_iff (moves_distinct blit direction)).mpr
      (undisturbed_of_ne hdisjoint direction heap.contents)
  refine ⟨_, bitblt_eq_ok hdest hbounds (hreturns _ hoffsets),
    (blitted_iff hdest hsrc).mpr (hcopied _), ?_⟩
  intro direction hfits
  rw [bitblt_eq_ok hdest hbounds (hreturns direction hfits),
    (hcopied direction).unique (hcopied _) fun move ↦ ?_]
  rw [mem_moves, mem_moves]

/-- Three rows of three pixels. -/
def exampleSource : Block UInt16 := ⟨9, fun index ↦ index.toNat.toUInt16⟩

/-- A heap with an array of two by two pixels and the source. -/
def exampleHeap : Heap (Block UInt16) where
  cell address := match address with
    | 1 => some ⟨4, fun _ ↦ 100⟩
    | 2 => some exampleSource
    | _ => none

/-- A rectangle that reaches beyond both arrays. -/
def exampleBlit : Blit := ⟨1, 2, 2, -1, 1, 5, 4, 2, 3, 3, -1, 0⟩

theorem exampleBlit_clips :
    ∃ after, rtBitblt exampleBlit exampleHeap = .ok (exampleHeap.set 1 (some after)) ∧
      Blitted exampleBlit ⟨4, fun _ ↦ 100⟩ exampleSource after ∧
      ∀ direction, exampleBlit.OffsetsFit direction →
        bitblt direction exampleBlit exampleHeap = .ok (exampleHeap.set 1 (some after)) := by
  refine rtBitblt_clips rfl rfl (by decide) ⟨by decide, by decide⟩ rfl rfl (fun _ _ ↦ ?_) ?_
  · exact ⟨⟨by decide, by decide, by decide⟩, by decide, by decide, by decide⟩
  · exact Blit.offsetsFit_of_size ⟨by decide, by decide⟩ (by decide) (by decide) _

/-- One pixel, for the row 32768 of an array of 65536 rows of 65536 pixels. -/
def bigBlit : Blit := ⟨1, 65536, 65536, 0, 32768, 1, 1, 2, 1, 1, 0, 0⟩

def bigHeap : Heap (Block UInt16) where
  cell address := match address with
    | 1 => some ⟨65536 * 65536, fun _ ↦ 100⟩
    | 2 => some ⟨1, fun _ ↦ 0⟩
    | _ => none

/-- No sum overflows, and both pixels are inside their arrays, but not the product with the row. -/
theorem bigBlit_overflows :
    bigBlit.dest ≠ bigBlit.src ∧ bigBlit.Sized ∧ bigBlit.SumsFit ∧
      bigHeap.load bigBlit.dest =
        .ok ⟨bigBlit.destSegment * bigBlit.destCommon, fun _ ↦ 100⟩ ∧
      bigHeap.load bigBlit.src = .ok ⟨bigBlit.srcSegment * bigBlit.srcCommon, fun _ ↦ 0⟩ ∧
      (surface bigBlit.destSegment bigBlit.destCommon).Covers bigBlit.destX bigBlit.destY ∧
      rtBitblt bigBlit bigHeap = .error .overflow ∧
      ∀ direction, bitblt direction bigBlit bigHeap = .error .overflow := by
  refine ⟨by decide, ⟨by decide, by decide⟩,
    ⟨⟨by decide, by decide, by decide⟩, by decide, by decide, by decide⟩, rfl, rfl,
    surface_covers.mpr (by decide), rfl, fun direction ↦ ?_⟩
  cases direction
  · rfl
  · rfl

end K210Firmware.Display.Bitblt
