import K210Firmware.Display.Bitblt

/-!
# Moving a rectangle within one array

`rt_bitblt` chooses its direction by the addresses of the two arrays. Within one array these are
equal, so every move runs backwards from the last pixel, wherever the rectangle goes. A move up, or
to the left in the same rows, then overwrites pixels that it has yet to copy.
-/

namespace K210Firmware.Display.Overlap

open Memory Raster Bitblt

/-- A call on one array with both rectangles inside it; the extents of the array are `int`s. -/
structure InPlace (blit : Blit) (before : Block UInt16) : Prop where
  array : blit.src = blit.dest
  segment : blit.srcSegment = blit.destSegment
  common : blit.srcCommon = blit.destCommon
  segment_lt : blit.destSegment < 2 ^ 31
  common_lt : blit.destCommon < 2 ^ 31
  size : before.size = blit.destSegment * blit.destCommon
  src_x : 0 ≤ blit.srcX ∧ blit.srcX + blit.width ≤ blit.destSegment
  src_y : 0 ≤ blit.srcY ∧ blit.srcY + blit.height ≤ blit.destCommon
  dest_x : 0 ≤ blit.destX ∧ blit.destX + blit.width ≤ blit.destSegment
  dest_y : 0 ≤ blit.destY ∧ blit.destY + blit.height ≤ blit.destCommon

/-- The source rectangle. -/
def source (blit : Blit) : Window := rectangle blit.srcX blit.srcY blit.width blit.height

/-- The places of the last rows are `int`s, unless there is nothing to copy. -/
def LastRowsFit (blit : Blit) : Prop :=
  0 < blit.width → 0 < blit.height →
    (blit.srcY + blit.height - 1) * blit.destSegment < 2 ^ 31 ∧
      (blit.destY + blit.height - 1) * blit.destSegment < 2 ^ 31

/-- The rectangle moves down, or not up and not to the left. -/
def MovesOn (blit : Blit) : Prop := 0 < blit.shiftY ∨ blit.shiftY = 0 ∧ 0 ≤ blit.shiftX

/-- Where the two rectangles overlap, the array repeats itself at the distance of the move. -/
def Repeats (blit : Blit) (before : Block UInt16) : Prop :=
  ∀ x y, (source blit).Covers x y → (source blit).Covers (x + blit.shiftX) (y + blit.shiftY) →
    pixel before blit.destSegment x y =
      pixel before blit.destSegment (x + blit.shiftX) (y + blit.shiftY)

variable {blit : Blit} {heap : Heap (Block UInt16)} {before : Block UInt16}

/-- Nothing is clipped. -/
theorem InPlace.region_covers (h : InPlace blit before) {x y : ℤ} :
    blit.region.Covers x y ↔ (source blit).Covers x y := by
  have hsrc_x := h.src_x
  have hsrc_y := h.src_y
  have hdest_x := h.dest_x
  have hdest_y := h.dest_y
  have hsegment := h.segment
  have hcommon := h.common
  rw [Bitblt.region_covers, source, rectangle_covers, surface_covers, surface_covers, Blit.shiftX,
    Blit.shiftY]
  omega

theorem InPlace.sized (h : InPlace blit before) (hwidth : 0 < blit.width)
    (hheight : 0 < blit.height) : blit.Sized := by
  have hsrc_x := h.src_x
  have hsrc_y := h.src_y
  have hsegment := h.segment
  have hcommon := h.common
  constructor
  all_goals omega

theorem InPlace.sumsFit (h : InPlace blit before) (hwidth : 0 < blit.width)
    (hheight : 0 < blit.height) : blit.SumsFit := by
  have hsrc_x := h.src_x
  have hsrc_y := h.src_y
  have hdest_x := h.dest_x
  have hdest_y := h.dest_y
  have hsegment := h.segment
  have hcommon := h.common
  have hsegment_lt := h.segment_lt
  have hcommon_lt := h.common_lt
  constructor
  all_goals
    constructor
    all_goals omega

theorem InPlace.rowsFit_iff (h : InPlace blit before) (hwidth : 0 < blit.width)
    (hheight : 0 < blit.height) : blit.RowsFit .backward ↔ LastRowsFit blit := by
  have hsrc_y := h.src_y
  have hdest_y := h.dest_y
  have hrow : (blit.region.corner .backward).2 = blit.srcY + blit.height - 1 := by
    have hcommon := h.common
    simp only [Window.corner, Blit.region, Blit.shiftY]
    omega
  have hdestRow : blit.srcY + blit.height - 1 + blit.shiftY = blit.destY + blit.height - 1 := by
    rw [Blit.shiftY]
    omega
  have hsegment : 0 < blit.destSegment := by
    have hsrc_x := h.src_x
    omega
  have hsrc : 0 ≤ (blit.srcY + blit.height - 1) * blit.destSegment :=
    mul_nonneg (by omega) hsegment.le
  have hdest : 0 ≤ (blit.destY + blit.height - 1) * blit.destSegment :=
    mul_nonneg (by omega) hsegment.le
  have hlower : (-2 ^ 31 : ℤ) ≤ 0 := by decide
  constructor
  · intro hrows _ _
    have hsrcRow := hrows.src.2
    have hdestRow' := hrows.dest.2
    rw [hrow, h.segment] at hsrcRow
    rw [hrow, hdestRow] at hdestRow'
    exact ⟨hsrcRow, hdestRow'⟩
  · intro hrows
    obtain ⟨hsrc_lt, hdest_lt⟩ := hrows hwidth hheight
    refine ⟨?_, ?_⟩
    · rw [hrow, h.segment]
      exact ⟨hlower.trans hsrc, hsrc_lt⟩
    · rw [hrow, hdestRow]
      exact ⟨hlower.trans hdest, hdest_lt⟩

/-- A backward copy reads each pixel before it is written exactly if the rectangle moves on, or if
it does not matter. -/
theorem InPlace.undisturbed_iff (h : InPlace blit before)
    (hload : heap.load blit.dest = .ok before) :
    Undisturbed (blit.moves .backward) heap.contents ↔ MovesOn blit ∨ Repeats blit before := by
  have hcontents (x y : ℤ) : heap.contents (blit.src, y * blit.srcSegment + x) =
      pixel before blit.destSegment x y := by
    rw [h.array, h.segment, Heap.contents_of_load hload, pixel]
  rw [Undisturbed, Blit.moves, List.pairwise_map, Window.pairwise_scan_iff]
  simp only [Blit.move, hcontents, h.region_covers, Direction.Before]
  constructor
  · intro hreads
    by_cases hforward : MovesOn blit
    · exact .inl hforward
    · refine .inr fun x y hcovers hcovers' ↦ hreads x y _ _ hcovers hcovers' ?_ ?_
      · rw [MovesOn] at hforward
        omega
      · rw [h.array, h.segment]
  · intro hsafe x y x' y' hcovers hcovers' hbefore hplace
    have hregion := (Bitblt.region_covers.mp (h.region_covers.mpr hcovers)).2.2
    have hregion' := (Bitblt.region_covers.mp (h.region_covers.mpr hcovers')).2.1
    have hoffset := (Prod.mk.inj hplace).2
    rw [h.segment] at hoffset
    rw [h.segment, h.common] at hregion'
    obtain ⟨rfl, rfl⟩ := pixel_injective hregion hregion' hoffset
    rcases hsafe with hforward | hrepeats
    · rw [MovesOn] at hforward
      omega
    · exact hrepeats x y hcovers hcovers'

/-- The call returns with the array that a copy through a temporary would leave. -/
def OverlapSafe (blit : Blit) (heap : Heap (Block UInt16)) (before : Block UInt16) : Prop :=
  ∃ after, rtBitblt blit heap = .ok (heap.set blit.dest (some after)) ∧
    Blitted blit before before after

theorem InPlace.rtBitblt_eq (h : InPlace blit before) (heap : Heap (Block UInt16)) :
    rtBitblt blit heap = bitblt .backward blit heap := by
  rw [rtBitblt, if_neg (by rw [h.array]; exact lt_irrefl _)]

/-- A call with nothing to copy changes nothing. -/
theorem overlapSafe_of_empty (hload : heap.load blit.dest = .ok before)
    (hempty : ¬ (0 < blit.width ∧ 0 < blit.height)) : OverlapSafe blit heap before := by
  refine ⟨before, ?_, rfl, fun i j hi hwidth hj hheight ↦ ?_, fun x y _ _ ↦ rfl⟩
  · rw [Heap.set_eq_self hload]
    exact bitblt_of_empty hempty _ heap
  · omega

/-- The loops run to their end exactly if the places of the last rows are `int`s; the array they
leave is then the one of the backward assignments. -/
theorem InPlace.overlapSafe_iff_of_pos (h : InPlace blit before)
    (hload : heap.load blit.dest = .ok before) (hwidth : 0 < blit.width)
    (hheight : 0 < blit.height) :
    OverlapSafe blit heap before ↔
      LastRowsFit blit ∧ Undisturbed (blit.moves .backward) heap.contents := by
  have hsrc : heap.load blit.src = .ok before := h.array ▸ hload
  have hsrcSize : before.size = blit.srcSegment * blit.srcCommon := by
    rw [h.segment, h.common, h.size]
  have hcovers : blit.region.Covers blit.srcX blit.srcY := by
    rw [h.region_covers, source, rectangle_covers]
    omega
  have hloop : rtBitblt blit heap = copyLoop .backward blit blit.clipped heap := by
    rw [h.rtBitblt_eq]
    exact bitblt_eq_copyLoop (corners_eq_ok hwidth hheight (h.sized hwidth hheight)
      (h.sumsFit hwidth hheight)) hcovers _ _
  rw [OverlapSafe, hloop, ← h.rowsFit_iff hwidth hheight,
    ← copied_runMoves_iff (moves_distinct blit .backward), ← blitted_iff hload hsrc]
  by_cases hrows : blit.RowsFit .backward
  · have hrun := foldlM_moves hload (inBounds_move hload hsrc h.size hsrcSize) .backward
    rw [copyLoop_of_rowsFit hrows, hrun]
    constructor
    · rintro ⟨after, hafter, hblitted⟩
      have hcell := congrArg (fun heap ↦ heap.cell blit.dest) (Except.ok.inj hafter)
      simp only [Heap.cell_set_self, Option.some.injEq] at hcell
      exact ⟨hrows, hcell ▸ hblitted⟩
    · rintro ⟨_, hblitted⟩
      exact ⟨_, rfl, hblitted⟩
  · rw [copyLoop_of_not_rowsFit hrows]
    constructor
    · rintro ⟨after, hafter, _⟩
      cases hafter
    · rintro ⟨hfit, _⟩
      exact absurd hfit hrows

/-- **Moves within an array.** The direction is right exactly for rectangles that move on, and for
arrays in which the overwritten pixels had the same colour anyway. -/
theorem rtBitblt_overlapSafe_iff (hload : heap.load blit.dest = .ok before)
    (h : InPlace blit before) :
    OverlapSafe blit heap before ↔
      LastRowsFit blit ∧ (MovesOn blit ∨ Repeats blit before) := by
  by_cases hempty : 0 < blit.width ∧ 0 < blit.height
  · rw [h.overlapSafe_iff_of_pos hload hempty.1 hempty.2, h.undisturbed_iff hload]
  · refine iff_of_true (overlapSafe_of_empty hload hempty) ⟨fun hwidth hheight ↦ ?_, .inr ?_⟩
    · exact absurd ⟨hwidth, hheight⟩ hempty
    · intro x y hcovers
      rw [source, rectangle_covers] at hcovers
      omega

/-- One row of three pixels. -/
def exampleRow : Block UInt16 := ⟨3, fun index ↦ index.toNat.toUInt16⟩

def exampleRowHeap : Heap (Block UInt16) where
  cell address := match address with
    | 1 => some exampleRow
    | _ => none

/-- The last `width` pixels of the row, moved from `srcX` to `destX`. -/
def exampleMove (srcX destX : ℤ) : Blit := ⟨1, 3, 1, destX, 0, 2, 1, 1, 3, 1, srcX, 0⟩

theorem exampleMove_right_overlapSafe_iff :
    OverlapSafe (exampleMove 0 1) exampleRowHeap exampleRow ↔
      LastRowsFit (exampleMove 0 1) ∧
        (MovesOn (exampleMove 0 1) ∨ Repeats (exampleMove 0 1) exampleRow) :=
  rtBitblt_overlapSafe_iff rfl (by constructor <;> decide)

/-- Two pixels moved one place to the left: the second is copied first, and then copied again. -/
theorem exampleMove_left_not_overlapSafe :
    InPlace (exampleMove 1 0) exampleRow ∧
      exampleRowHeap.load (exampleMove 1 0).dest = .ok exampleRow ∧
        ¬ OverlapSafe (exampleMove 1 0) exampleRowHeap exampleRow := by
  refine ⟨by constructor <;> decide, rfl, ?_⟩
  rintro ⟨after, hrun, hblitted⟩
  have hcopied := hblitted.copied 0 0 (by decide) (by decide) (by decide) (by decide) (by decide)
    (by decide)
  have hread := congrArg (fun outcome ↦ outcome.toOption.bind fun heap ↦
    (heap.cell 1).map fun block ↦ pixel block 3 0 0) hrun
  have hleft : ((rtBitblt (exampleMove 1 0) exampleRowHeap).toOption.bind fun heap ↦
    (heap.cell 1).map fun block ↦ pixel block 3 0 0) = some 2 := by decide
  rw [hleft] at hread
  have hafter : pixel after 3 0 0 = 2 := (Option.some.inj hread).symm
  have hbefore : pixel exampleRow 3 1 0 = 1 := by decide
  exact absurd (hafter.symm.trans (hcopied.trans hbefore)) (by decide)

end K210Firmware.Display.Overlap
