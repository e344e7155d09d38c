import K210Firmware.Display.Tft

/-!
# From LVGL's areas to the panel

`disp_flush` copies the colours of an area into the framebuffer, row by row; `tft_flush` streams
the framebuffer to the panel, row by row over the whole screen. The framebuffer therefore stands
for a picture, an area for a layer of it, and the panel shows the layers painted over each other.
-/

namespace K210Firmware.Display.Flush

open Memory Raster Tft

/-- The inner loop of `disp_flush`; `colorP` is the offset of the C pointer. -/
def flushRow (info : GraphicInfo) (x2 y : ℤ) (color : Block UInt16) (framebuffer : Block UInt32)
    (x colorP : ℤ) : Except Fault (Block UInt32 × ℤ) :=
  if x ≤ x2 then do
    let framebuffer ← framebuffer.write (x + info.width.toNat * y) (← color.read colorP).toUInt32
    flushRow info x2 y color framebuffer (x + 1) (colorP + 1)
  else return (framebuffer, colorP)
termination_by (x2 + 1 - x).toNat

/-- The outer loop of `disp_flush`. -/
def flushRows (info : GraphicInfo) (area : Window) (color : Block UInt16)
    (framebuffer : Block UInt32) (y colorP : ℤ) : Except Fault (Block UInt32) :=
  if y ≤ area.y2 then do
    let (framebuffer, colorP) ← flushRow info area.x2 y color framebuffer area.x1 colorP
    flushRows info area color framebuffer (y + 1) colorP
  else return framebuffer
termination_by (area.y2 + 1 - y).toNat

def dispFlush (info : GraphicInfo) (area : Window) (color : Block UInt16)
    (framebuffer : Block UInt32) : Except Fault (Block UInt32) :=
  flushRows info area color framebuffer area.y1 0

/-- The arguments of a flush: an area of the screen, and one colour for each of its pixels. -/
structure FlushCall where
  area : Window
  color : Block UInt16
  left : 0 ≤ area.x1
  columns : area.x1 ≤ area.x2
  right : area.x2 < 320
  top : 0 ≤ area.y1
  rows : area.y1 ≤ area.y2
  bottom : area.y2 < 240
  color_size : color.size = area.size

def dispFlushes (info : GraphicInfo) (framebuffer : Block UInt32) (calls : List FlushCall) :
    Except Fault (Block UInt32) :=
  calls.foldlM (fun framebuffer call ↦ dispFlush info call.area call.color framebuffer) framebuffer

/-- The colours of a call, laid out over its area. -/
def FlushCall.layer (call : FlushCall) : Layer UInt16 where
  window := call.area
  color x y := call.color.cell (call.area.offset x y)

/-- What the framebuffer stands for: the low half of word `x + 320 * y` is pixel `(x, y)`. -/
structure Represents (framebuffer : Block UInt32) (picture : Picture UInt16) : Prop where
  size : framebuffer.size = 320 * 240
  pixel : ∀ x y, screen.Covers x y →
    (framebuffer.cell (x + 320 * y)).toUInt16 = picture x y

theorem tftHwInit_represents : Represents (tftHwInit tftInfo).2 fun _ _ ↦ 0 :=
  ⟨rfl, fun _ _ _ ↦ rfl⟩

/-! ## The two loops -/

/-- The inner loop writes the rest of row `y` and moves the colour pointer past it. -/
theorem flushRow_spec (x2 y : ℤ) (color : Block UInt16) (framebuffer : Block UInt32) (x colorP : ℤ)
    (hx : 0 ≤ x ∧ x ≤ x2 + 1) (hx2 : x2 < 320) (hy : 0 ≤ y ∧ y < 240)
    (hsize : framebuffer.size = 320 * 240)
    (hcolor : 0 ≤ colorP ∧ colorP + (x2 + 1 - x) ≤ color.size) :
    ∃ after, flushRow tftInfo x2 y color framebuffer x colorP =
        .ok (after, colorP + (x2 + 1 - x)) ∧
      after.size = 320 * 240 ∧
      ∀ i j, screen.Covers i j → after.cell (i + 320 * j) =
        if j = y ∧ x ≤ i ∧ i ≤ x2 then (color.cell (colorP + (i - x))).toUInt32
        else framebuffer.cell (i + 320 * j) := by
  have hwidth : (tftInfo.width.toNat : ℤ) = 320 := rfl
  by_cases hend : x ≤ x2
  · have hread : color.read colorP = .ok (color.cell colorP) :=
      Block.read_eq_ok hcolor.1 (by omega)
    have hwrite : framebuffer.write (x + 320 * y) (color.cell colorP).toUInt32 =
        .ok ⟨framebuffer.size, Function.update framebuffer.cell (x + 320 * y)
          (color.cell colorP).toUInt32⟩ := Block.write_eq_ok (by omega) (by omega)
    obtain ⟨after, hrun, hafter, hcell⟩ :=
      flushRow_spec x2 y color ⟨framebuffer.size, Function.update framebuffer.cell (x + 320 * y)
        (color.cell colorP).toUInt32⟩ (x + 1) (colorP + 1) (by omega) hx2 hy hsize (by omega)
    refine ⟨after, ?_, hafter, fun i j hcovers ↦ ?_⟩
    · rw [flushRow, if_pos hend, hread, ok_bind, hwidth, hwrite, ok_bind, hrun]
      rw [show colorP + 1 + (x2 + 1 - (x + 1)) = colorP + (x2 + 1 - x) by omega]
    · rw [screen_covers] at hcovers
      simp only [hcell i j (screen_covers.mpr hcovers), Function.update_apply]
      by_cases hhere : i = x ∧ j = y
      · obtain ⟨rfl, rfl⟩ := hhere
        rw [if_neg (by omega), if_pos rfl, if_pos (by omega), sub_self, add_zero]
      · have hother : i + 320 * j ≠ x + 320 * y := by omega
        rw [if_neg hother, show colorP + 1 + (i - (x + 1)) = colorP + (i - x) by omega]
        by_cases hrow : j = y ∧ x ≤ i ∧ i ≤ x2
        · rw [if_pos (by omega), if_pos hrow]
        · rw [if_neg (by omega), if_neg hrow]
  · refine ⟨framebuffer, ?_, hsize, fun i j _ ↦ ?_⟩
    · rw [flushRow, if_neg hend, show colorP + (x2 + 1 - x) = colorP by omega]
      rfl
    · rw [if_neg (by omega)]
termination_by (x2 + 1 - x).toNat

/-- The outer loop writes the rest of the area, each pixel with the colour of its offset. -/
theorem flushRows_spec (call : FlushCall) (framebuffer : Block UInt32) (y colorP : ℤ)
    (hy : call.area.y1 ≤ y ∧ y ≤ call.area.y2 + 1) (hsize : framebuffer.size = 320 * 240)
    (hcolor : colorP = (y - call.area.y1) * call.area.width) :
    ∃ after, flushRows tftInfo call.area call.color framebuffer y colorP = .ok after ∧
      after.size = 320 * 240 ∧
      ∀ i j, screen.Covers i j → after.cell (i + 320 * j) =
        if call.area.Covers i j ∧ y ≤ j then (call.layer.color i j).toUInt32
        else framebuffer.cell (i + 320 * j) := by
  have hleft := call.left
  have hcolumns := call.columns
  have hright := call.right
  have htop := call.top
  have hbottom := call.bottom
  by_cases hend : y ≤ call.area.y2
  · have hfirst : call.area.Covers call.area.x1 y := ⟨⟨le_rfl, hcolumns⟩, hy.1, hend⟩
    have hlast : call.area.Covers call.area.x2 y := ⟨⟨hcolumns, le_rfl⟩, hy.1, hend⟩
    have hstart : colorP = call.area.offset call.area.x1 y := by
      rw [hcolor, Window.offset, sub_self, add_zero]
    have hstop : call.area.offset call.area.x2 y = colorP + (call.area.x2 - call.area.x1) := by
      rw [hcolor, Window.offset]
    have hnonneg := hfirst.offset_nonneg
    have hlt := hlast.offset_lt_size
    obtain ⟨row, hrow, hrowsize, hrowcell⟩ :=
      flushRow_spec call.area.x2 y call.color framebuffer call.area.x1 colorP (by omega) hright
        (by omega) hsize ⟨by omega, by rw [call.color_size]; omega⟩
    obtain ⟨after, hrun, hafter, hcell⟩ := flushRows_spec call row (y + 1)
      (colorP + (call.area.x2 + 1 - call.area.x1)) (by omega) hrowsize
      (by rw [hcolor, Window.width]; ring)
    refine ⟨after, ?_, hafter, fun i j hcovers ↦ ?_⟩
    · rw [flushRows, if_pos hend, hrow, ok_bind]
      exact hrun
    · rw [hcell i j hcovers, hrowcell i j hcovers]
      by_cases harea : call.area.Covers i j
      · obtain ⟨⟨hi, hi'⟩, hj, hj'⟩ := id harea
        rcases lt_trichotomy j y with hlt | rfl | hgt
        · rw [if_neg (by omega), if_neg (by omega), if_neg (by omega)]
        · have hplace : colorP + (i - call.area.x1) = call.area.offset i j := by
            rw [hcolor, Window.offset]
          rw [if_neg (by omega), if_pos ⟨rfl, hi, hi'⟩, if_pos ⟨harea, le_rfl⟩, hplace]
          rfl
        · rw [if_pos ⟨harea, by omega⟩, if_pos ⟨harea, hgt.le⟩]
      · have hrow : ¬ (j = y ∧ call.area.x1 ≤ i ∧ i ≤ call.area.x2) := by
          rintro ⟨rfl, hi, hi'⟩
          exact harea ⟨⟨hi, hi'⟩, hy.1, hend⟩
        rw [if_neg (fun h ↦ harea h.1), if_neg hrow, if_neg (fun h ↦ harea h.1)]
  · refine ⟨framebuffer, ?_, hsize, fun i j _ ↦ ?_⟩
    · rw [flushRows, if_neg hend]
      rfl
    · have hnone : ¬ (call.area.Covers i j ∧ y ≤ j) := by
        rintro ⟨⟨_, _, hj⟩, hle⟩
        omega
      rw [if_neg hnone]
termination_by (call.area.y2 + 1 - y).toNat

/-! ## Refinement -/

/-- **One flush** paints its layer over the picture that the framebuffer stands for. -/
theorem dispFlush_represents (call : FlushCall) {framebuffer : Block UInt32}
    {picture : Picture UInt16} (h : Represents framebuffer picture) :
    ∃ after, dispFlush tftInfo call.area call.color framebuffer = .ok after ∧
      Represents after (call.layer.over picture) := by
  have hrows := call.rows
  obtain ⟨after, hrun, hsize, hcell⟩ := flushRows_spec call framebuffer call.area.y1 0
    (by omega) h.size (by simp)
  refine ⟨after, hrun, hsize, fun x y hcovers ↦ ?_⟩
  have hwindow : call.layer.window = call.area := rfl
  rw [hcell x y hcovers, Layer.over, hwindow]
  by_cases harea : call.area.Covers x y
  · rw [if_pos ⟨harea, harea.2.1⟩, if_pos harea, UInt16.toUInt16_toUInt32]
  · rw [if_neg fun hboth ↦ harea hboth.1, if_neg harea, h.pixel x y hcovers]

/-- All flushes return, and the framebuffer stands for their layers painted in order. -/
theorem dispFlushes_represents (calls : List FlushCall) {framebuffer : Block UInt32}
    {picture : Picture UInt16} (h : Represents framebuffer picture) :
    ∃ after, dispFlushes tftInfo framebuffer calls = .ok after ∧
      Represents after (compose picture (calls.map FlushCall.layer)) := by
  induction calls generalizing framebuffer picture with
  | nil => exact ⟨framebuffer, rfl, h⟩
  | cons call calls ih =>
    obtain ⟨middle, hmiddle, hrepresents⟩ := dispFlush_represents call h
    obtain ⟨after, hrun, hafter⟩ := ih hrepresents
    refine ⟨after, ?_, hafter⟩
    rw [dispFlushes, List.foldlM_cons, hmiddle, ok_bind]
    exact hrun

/-- The colour the last flush covering a pixel supplied for it, or zero. -/
def lastColor (calls : List FlushCall) (x y : ℤ) : UInt16 :=
  match calls.reverse.find? fun call ↦ call.area.Covers x y with
  | some call =>
      call.color.cell ((y - call.area.y1) * (call.area.x2 - call.area.x1 + 1) + (x - call.area.x1))
  | none => 0

theorem compose_eq_lastColor (calls : List FlushCall) (x y : ℤ) :
    compose (fun _ _ ↦ 0) (calls.map FlushCall.layer) x y = lastColor calls x y := by
  rw [compose_apply, ← List.map_reverse, List.find?_map, lastColor]
  have hcovers : ((fun layer : Layer UInt16 ↦ decide (layer.window.Covers x y)) ∘ FlushCall.layer) =
      fun call ↦ decide (call.area.Covers x y) := rfl
  rw [hcovers]
  cases calls.reverse.find? fun call ↦ decide (call.area.Covers x y) with
  | none => rfl
  | some call => rfl

/-- **The panel shows what was drawn last.** Every sequence of flushes of areas of the screen, and
the refresh after it, make no access outside their buffers; then each pixel of the panel is the
colour that the last flush covering it supplied. -/
theorem panel_shows_last_flush (panel : Panel) (calls : List FlushCall) :
    ∃ framebuffer transfers,
      dispFlushes tftInfo (tftHwInit tftInfo).2 calls = .ok framebuffer ∧
      tftFlush tftInfo (some framebuffer) = .ok transfers ∧
      ∀ x y, (0 ≤ x ∧ x < 320) ∧ 0 ≤ y ∧ y < 240 →
        (panel.receiveAll transfers).memory x y = lastColor calls x y := by
  obtain ⟨framebuffer, hflushes, hrepresents⟩ :=
    dispFlushes_represents calls tftHwInit_represents
  obtain ⟨transfers, hflush, hpixels⟩ := tftFlush_spec hrepresents.size panel
  refine ⟨framebuffer, transfers, hflushes, hflush, fun x y hscreen ↦ ?_⟩
  have hcovers := screen_covers.mpr hscreen
  rw [hpixels x y hcovers, hrepresents.pixel x y hcovers, compose_eq_lastColor]

end K210Firmware.Display.Flush
