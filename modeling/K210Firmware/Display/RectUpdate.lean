import K210Firmware.Display.Lcd
import K210Firmware.Library.Transition

/-!
# What a refresh of the LCD sends

A refresh is correct if the panel then shows the rectangle of the framebuffer, and keeps the rest.
The bounce buffer is filled by `rt_bitblt`, and its pixels leave in pairs: the driver is correct for
rectangles of an even area whose words fit into the buffer, once that buffer exists.
-/

namespace K210Firmware.Display.Lcd

open Memory Raster Tft Bitblt Transition

variable {lcd : Lcd8080Device} {framebuffer : Block UInt16} {grant : Grant} {rect : RectInfo}

/-! ## Filling the bounce buffer -/

/-- The rectangle on the screen. -/
def RectInfo.window (rect : RectInfo) : Window :=
  rectangle rect.x.toNat rect.y.toNat rect.width.toNat rect.height.toNat

/-- The number of pixels of the rectangle. -/
def RectInfo.area (rect : RectInfo) : ℕ := rect.width.toNat * rect.height.toNat

/-- The rectangle is not empty and lies on the screen. -/
structure Inside (lcd : Lcd8080Device) (rect : RectInfo) : Prop where
  width_pos : 1 ≤ rect.width.toNat
  height_pos : 1 ≤ rect.height.toNat
  right : (rect.x.toNat + rect.width.toNat : ℤ) ≤ lcd.width
  bottom : (rect.y.toNat + rect.height.toNat : ℤ) ≤ lcd.height

/-- The words that are sent fit into a buffer of the size of the screen. -/
def WordsFit (lcd : Lcd8080Device) (rect : RectInfo) : Prop :=
  ((2 * (rect.area / 2) : ℕ) : ℤ) ≤ lcd.width * lcd.height

theorem Inside.area_le (h : Inside lcd rect) : (rect.area : ℤ) ≤ lcd.width * lcd.height := by
  have hright := h.right
  have hbottom := h.bottom
  have hwidth : (rect.width.toNat : ℤ) ≤ lcd.width := by omega
  have hheight : (rect.height.toNat : ℤ) ≤ lcd.height := by omega
  rw [RectInfo.area, Nat.cast_mul]
  exact mul_le_mul hwidth hheight (by omega) (by omega)

/-- If all words fit, so do all pixels of the rectangle that have a source on the screen. -/
theorem rectBlit_inBounds (h : Ready lcd framebuffer) {buffer : Block UInt16}
    (hbuffer : lcd.heap.load lcd.rectBuffer = .ok buffer)
    (hsize : buffer.size = lcd.width * lcd.height) (hwords : WordsFit lcd rect) (x y : ℤ)
    (hcovers : (rectBlit lcd rect).region.Covers x y) :
    lcd.heap.InBounds ((rectBlit lcd rect).move (x, y)).source ∧
      lcd.heap.InBounds ((rectBlit lcd rect).move (x, y)).target := by
  obtain ⟨_, hsurface, hplace⟩ := region_covers.mp hcovers
  refine ⟨inBounds_pixel h.framebuffer_load h.framebuffer_size hsurface, buffer, hbuffer, ?_⟩
  have hnonneg := hplace.offset_nonneg
  have hlt := hplace.offset_lt_size
  rw [surface_offset] at hnonneg hlt
  rw [surface_size] at hlt
  refine ⟨hnonneg, lt_of_lt_of_eq ?_ hsize.symm⟩
  have harea : ((rectBlit lcd rect).destSegment * (rectBlit lcd rect).destCommon) =
      (rect.area : ℤ) := by
    rw [RectInfo.area, Nat.cast_mul]
    rfl
  rw [harea] at hlt
  by_cases hinside : Inside lcd rect
  · exact hlt.trans_le hinside.area_le
  -- The last pixel of an odd area has no place in a word, but then it has no source either.
  · have hlast : (y + (rectBlit lcd rect).shiftY) * (rectBlit lcd rect).destSegment +
        (x + (rectBlit lcd rect).shiftX) ≠ rect.area - 1 := by
      intro hlast
      have hcorner : (surface (rectBlit lcd rect).destSegment
          (rectBlit lcd rect).destCommon).Covers ((rect.width.toNat : ℤ) - 1)
            ((rect.height.toNat : ℤ) - 1) := by
        rw [surface_covers] at hplace ⊢
        simp only [rectBlit] at hplace ⊢
        omega
      have hoffset : ((rect.height.toNat : ℤ) - 1) * (rectBlit lcd rect).destSegment +
          ((rect.width.toNat : ℤ) - 1) = rect.area - 1 := by
        rw [← harea]
        simp only [rectBlit]
        ring
      obtain ⟨hx, hy⟩ := pixel_injective hplace hcorner (hlast.trans hoffset.symm)
      rw [surface_covers] at hsurface hplace
      simp only [rectBlit, Blit.shiftX, Blit.shiftY] at hx hy hsurface hplace
      exact hinside ⟨by omega, by omega, by omega, by omega⟩
    rw [WordsFit] at hwords
    change (y + (rectBlit lcd rect).shiftY) * (rectBlit lcd rect).destSegment +
      (x + (rectBlit lcd rect).shiftX) < lcd.width * lcd.height
    omega

theorem WordsFit.area_lt (h : Ready lcd framebuffer) (hwords : WordsFit lcd rect) :
    (rect.area : ℤ) < 2 ^ 31 := by
  have hscreen := h.screen_lt
  rw [WordsFit, mul_comm lcd.width] at hwords
  omega

/-- **The bounce buffer.** If all words fit, it receives the pixels of the rectangle that are on
the screen. -/
theorem rtBitblt_rectBlit (h : Ready lcd framebuffer) (hrect : lcd.rectBuffer ≠ 0)
    (hwords : WordsFit lcd rect) :
    ∃ buffer after, buffer.size = lcd.width * lcd.height ∧
      rtBitblt (rectBlit lcd rect) lcd.heap =
        .ok (lcd.heap.set lcd.rectBuffer (some after)) ∧
      Blitted (rectBlit lcd rect) buffer framebuffer after := by
  obtain ⟨hne, buffer, hbuffer, hsize⟩ := h.rectBuffer hrect
  have hbounds := rectBlit_inBounds h hbuffer hsize hwords
  have hsized (hwidth : 0 < (rectBlit lcd rect).width) (hheight : 0 < (rectBlit lcd rect).height) :
      (rectBlit lcd rect).Sized := ⟨⟨h.width_pos, h.height_pos⟩, hwidth, hheight⟩
  have hcorners (hwidth : 0 < (rectBlit lcd rect).width) (hheight : 0 < (rectBlit lcd rect).height) :
      corners (rectBlit lcd rect) = .ok (rectBlit lcd rect).clipped := by
    refine corners_eq_ok hwidth hheight (hsized hwidth hheight) ?_
    have hx := rect.x.toNat_lt
    have hy := rect.y.toNat_lt
    have hwidth_lt := rect.width.toNat_lt
    have hheight_lt := rect.height.toNat_lt
    constructor
    all_goals
      constructor
      all_goals
        simp only [rectBlit]
        omega
  have hsums (direction : Direction) :
      bitblt direction (rectBlit lcd rect) lcd.heap ≠ .error .overflow := by
    refine mt (bitblt_overflows_iff hbuffer hbounds hcorners direction).mp (not_not_intro ?_)
    intro hreached
    have hscreen : lcd.width * lcd.height ≤ 2 ^ 31 := by
      have hscreen_lt := h.screen_lt
      rw [mul_comm]
      omega
    have harea : (rectBlit lcd rect).destSegment * (rectBlit lcd rect).destCommon ≤ 2 ^ 31 := by
      have harea_lt := hwords.area_lt h
      rw [RectInfo.area, Nat.cast_mul] at harea_lt
      exact harea_lt.le
    exact Blit.offsetsFit_of_size (hsized hreached.width hreached.height) hscreen harea direction
      hreached
  refine ⟨buffer, _, hsize, bitblt_eq_ok hbuffer hbounds (hsums _), ?_⟩
  exact (blitted_iff hbuffer h.framebuffer_load).mpr
    ((copied_runMoves_iff (moves_distinct _ _)).mpr (undisturbed_of_ne hne _ _))

/-! ## What is sent -/

/-- The transfers of a rectangle whose pixels are taken from the start of a buffer. -/
def rectTransfers (rect : RectInfo) (source : Block UInt16) : List Transfer :=
  drvLcdSetArea rect.x rect.y (rect.x + rect.width - 1) (rect.y + rect.height - 1) ++
    [.halves ((List.range (2 * (rect.area / 2))).map fun index : ℕ ↦ source.cell index)]

/-- The buffer holds the pixels of the rectangle row by row. -/
def HoldsRect (lcd : Lcd8080Device) (framebuffer : Block UInt16) (rect : RectInfo)
    (source : Block UInt16) : Prop :=
  ∀ x y, rect.window.Covers x y →
    source.cell (rect.window.offset x y) = pixel framebuffer lcd.width x y

theorem window_offset (rect : RectInfo) (x y : ℤ) :
    rect.window.offset x y =
      (y - rect.y.toNat) * rect.width.toNat + (x - rect.x.toNat) := by
  simp only [RectInfo.window, rectangle, Window.offset, Window.width]
  ring

theorem int32_area (harea : (rect.area : ℤ) < 2 ^ 31) :
    int32 (rect.width.toNat * rect.height.toNat) = .ok (rect.area : ℤ) := by
  rw [← Nat.cast_mul]
  exact int32_eq_ok (by omega) harea

/-- The two conditions of the fast path leave the whole screen. -/
theorem holdsRect_framebuffer (hx : rect.x = 0) (hy : rect.y = 0)
    (hwidth : rect.width = lcd.info.width) : HoldsRect lcd framebuffer rect framebuffer := by
  intro x y _
  rw [window_offset, hx, hy, hwidth, pixel, Lcd8080Device.width]
  simp

/-- On the screen, the bounce buffer holds the rectangle. -/
theorem holdsRect_of_blitted {buffer after : Block UInt16} (hinside : Inside lcd rect)
    (hblitted : Blitted (rectBlit lcd rect) buffer framebuffer after) :
    HoldsRect lcd framebuffer rect after := by
  intro x y hcovers
  have hright := hinside.right
  have hbottom := hinside.bottom
  rw [RectInfo.window, rectangle_covers] at hcovers
  have hcopied := hblitted.copied (x - rect.x.toNat) (y - rect.y.toNat) (by omega)
    (by simp only [rectBlit]; omega) (by omega) (by simp only [rectBlit]; omega)
    (by rw [surface_covers]; simp only [rectBlit]; omega)
    (by rw [surface_covers]; simp only [rectBlit]; omega)
  simp only [rectBlit, pixel, zero_add, add_sub_cancel] at hcopied
  rw [window_offset, hcopied, pixel]

/-- **Sending.** If all words fit, they are sent, and a rectangle on the screen is sent as it
is. -/
theorem sendRect_of_wordsFit (h : Ready lcd framebuffer) (hrect : lcd.rectBuffer ≠ 0)
    (hwords : WordsFit lcd rect) :
    ∃ after source, sendRect rect lcd = .ok (after, rectTransfers rect source) ∧
      Ready after framebuffer ∧
      (Inside lcd rect → HoldsRect lcd framebuffer rect source) := by
  have harea := int32_area (WordsFit.area_lt h hwords)
  have hlength := divide32_two (WordsFit.area_lt h hwords)
  have hcount : ((2 * (rect.area / 2) : ℕ) : ℤ) ≤ lcd.width * lcd.height := hwords
  by_cases hwhole : rect.x = 0 ∧ rect.y = 0 ∧ rect.width = lcd.info.width ∧
      rect.height = lcd.info.height
  · have hdata : drvLcdDataWord framebuffer (rect.area / 2) = _ :=
      drvLcdDataWord_eq_ok (by rw [h.framebuffer_size]; exact_mod_cast hcount)
    refine ⟨lcd, framebuffer, ?_, h, fun _ ↦ ?_⟩
    · rw [sendRect, if_pos hwhole, harea, ok_bind, h.bytesPerPixel, hlength, ok_bind,
        h.framebuffer_load, ok_bind, Int.toNat_natCast, hdata]
      rfl
    · exact holdsRect_framebuffer hwhole.1 hwhole.2.1 hwhole.2.2.1
  · obtain ⟨buffer, after, hsize, hrun, hblitted⟩ := rtBitblt_rectBlit h hrect hwords
    have hload : (lcd.heap.set lcd.rectBuffer (some after)).load lcd.rectBuffer = .ok after :=
      Heap.load_eq_ok hrect (Heap.cell_set_self _)
    have hafter : after.size = lcd.width * lcd.height := hblitted.size.trans hsize
    have hdata : drvLcdDataWord after (rect.area / 2) = _ :=
      drvLcdDataWord_eq_ok (by rw [hafter]; exact_mod_cast hcount)
    refine ⟨{ lcd with heap := lcd.heap.set lcd.rectBuffer (some after) }, after, ?_, ?_,
      fun hinside ↦ holdsRect_of_blitted hinside hblitted⟩
    · rw [sendRect, if_neg hwhole, hrun, ok_bind, harea, ok_bind, hlength, ok_bind, hload,
        ok_bind, Int.toNat_natCast, hdata]
      rfl
    · obtain ⟨hne, _⟩ := h.rectBuffer hrect
      have hframebuffer := Heap.load_eq_ok_iff.mp h.framebuffer_load
      refine ⟨h.bits, h.width_pos, h.height_pos, h.screen_lt, ?_, h.framebuffer_size,
        fun _ ↦ ⟨hne, after, hload, hafter⟩⟩
      exact Heap.load_eq_ok hframebuffer.1
        ((Heap.cell_set_of_ne hne.symm _).trans hframebuffer.2)

/-- **Oversize.** If the words do not fit, reading them leaves the bounce buffer. -/
theorem wordsFit_of_sendRect (h : Ready lcd framebuffer) (hrect : lcd.rectBuffer ≠ 0)
    {result : Lcd8080Device × List Transfer} (hrun : sendRect rect lcd = .ok result) :
    WordsFit lcd rect := by
  rw [sendRect] at hrun
  split at hrun
  next hwhole =>
    obtain ⟨_, _, hwidth, hheight⟩ := hwhole
    have harea : (rect.area : ℤ) = lcd.width * lcd.height := by
      rw [RectInfo.area, hwidth, hheight, Nat.cast_mul]
      rfl
    rw [WordsFit]
    omega
  next =>
    obtain ⟨heap, hblit, hrun⟩ := bind_eq_ok.mp hrun
    obtain ⟨area, harea, hrun⟩ := bind_eq_ok.mp hrun
    obtain ⟨length, hlength, hrun⟩ := bind_eq_ok.mp hrun
    obtain ⟨buffer, hbuffer, hrun⟩ := bind_eq_ok.mp hrun
    obtain ⟨transfers, hdata, _⟩ := bind_eq_ok.mp hrun
    obtain ⟨_, before, hbefore, hbeforeSize⟩ := h.rectBuffer hrect
    obtain ⟨held, hheld, hsize⟩ := load_bitblt hblit hbefore
    obtain rfl := Except.ok.inj (hbuffer.symm.trans hheld)
    have hcast : (rect.width.toNat * rect.height.toNat : ℤ) = rect.area := by
      rw [RectInfo.area, Nat.cast_mul]
    have hrange := range_of_int32 harea
    rw [hcast] at hrange
    rw [eq_of_int32 harea, hcast, divide32_two hrange.2] at hlength
    obtain rfl := Except.ok.inj hlength
    have hnonneg : 0 ≤ buffer.size := by
      rw [hsize, hbeforeSize]
      exact mul_nonneg h.width_pos.le h.height_pos.le
    have hle := le_of_drvLcdDataWord hnonneg hdata
    rw [Int.toNat_natCast, hsize, hbeforeSize] at hle
    rw [WordsFit]
    exact_mod_cast hle

/-! ## What the panel shows -/

/-- The rectangle of the panel shows the framebuffer, and all other pixels of the panel are as
before. -/
def Refreshes (lcd : Lcd8080Device) (framebuffer : Block UInt16) (rect : RectInfo)
    (transfers : List Transfer) : Prop :=
  ∀ (panel : Panel) (x y : ℤ), (panel.receiveAll transfers).memory x y =
    if rect.window.Covers x y then pixel framebuffer lcd.width x y else panel.memory x y

/-- The last column or row of a rectangle on the screen. -/
theorem toNat_last {start extent limit : UInt16} (hpos : 1 ≤ extent.toNat)
    (hlimit : start.toNat + extent.toNat ≤ limit.toNat) :
    ((start + extent - 1).toNat : ℤ) = start.toNat + extent.toNat - 1 := by
  have hlt := limit.toNat_lt
  have hsum : (start + extent).toNat = start.toNat + extent.toNat := by
    rw [UInt16.toNat_add]
    omega
  have hone : (1 : UInt16) ≤ start + extent := by
    rw [UInt16.le_iff_toNat_le, hsum]
    exact hpos.trans (Nat.le_add_left _ _)
  rw [UInt16.toNat_sub_of_le _ _ hone, hsum]
  change ((start.toNat + extent.toNat - 1 : ℕ) : ℤ) = _
  omega

theorem receiveAll_rectTransfers (hinside : Inside lcd rect) (source : Block UInt16)
    (panel : Panel) :
    (panel.receiveAll (rectTransfers rect source)).memory =
      fill rect.window 0 ((List.range (2 * (rect.area / 2))).map fun index : ℕ ↦
        source.cell index) panel.memory := by
  have hright : rect.x.toNat + rect.width.toNat ≤ lcd.info.width.toNat :=
    Int.ofNat_le.mp hinside.right
  have hbottom : rect.y.toNat + rect.height.toNat ≤ lcd.info.height.toNat :=
    Int.ofNat_le.mp hinside.bottom
  refine (receiveAll_area_pixels panel rect.x rect.y (rect.x + rect.width - 1)
    (rect.y + rect.height - 1) _).trans ?_
  rw [toNat_last hinside.width_pos hright, toNat_last hinside.height_pos hbottom]
  rfl

theorem window_size (rect : RectInfo) : rect.window.size = rect.area := by
  rw [RectInfo.area, Nat.cast_mul]
  simp only [RectInfo.window, rectangle, Window.size, Window.width, Window.height]
  ring

/-- **Pairs.** A rectangle on the screen is refreshed exactly if its area is even: otherwise the
last pixel has no place in a word. -/
theorem refreshes_rectTransfers_iff {source : Block UInt16} (hinside : Inside lcd rect)
    (hheld : HoldsRect lcd framebuffer rect source) :
    Refreshes lcd framebuffer rect (rectTransfers rect source) ↔ rect.area % 2 = 0 := by
  have hwidth_pos := hinside.width_pos
  have hheight_pos := hinside.height_pos
  have hwidth : 0 < rect.window.width := by
    simp only [RectInfo.window, rectangle, Window.width]
    omega
  constructor
  · intro h
    by_contra hodd
    have hcovers : rect.window.Covers (rect.x.toNat + rect.width.toNat - 1)
        (rect.y.toNat + rect.height.toNat - 1) := by
      rw [RectInfo.window, rectangle_covers]
      omega
    have hoffset : rect.window.offset (rect.x.toNat + rect.width.toNat - 1)
        (rect.y.toNat + rect.height.toNat - 1) = rect.area - 1 := by
      rw [window_offset, RectInfo.area, Nat.cast_mul]
      ring
    have hshown := h ⟨0, (0, 0), (0, 0), 0, fun x y ↦ pixel framebuffer lcd.width x y + 1⟩
      (rect.x.toNat + rect.width.toNat - 1) (rect.y.toNat + rect.height.toNat - 1)
    rw [receiveAll_rectTransfers hinside, if_pos hcovers, fill_of_ge hcovers] at hshown
    · exact absurd hshown (by simp)
    · rw [hoffset, List.length_map, List.length_range]
      omega
  · intro heven panel x y
    have hlength : 2 * (rect.area / 2) = rect.area := by omega
    rw [receiveAll_rectTransfers hinside, hlength]
    by_cases hcovers : rect.window.Covers x y
    · have hnonneg := hcovers.offset_nonneg
      have hlt := hcovers.offset_lt_size
      rw [window_size] at hlt
      rw [if_pos hcovers, ← hheld x y hcovers]
      refine (fill_apply hcovers (rect.window.offset x y).toNat (by omega)
        (by rw [List.length_map, List.length_range]; omega) panel.memory).trans ?_
      rw [List.getElem_map, List.getElem_range, Int.toNat_of_nonneg hnonneg]
    · rw [if_neg hcovers, fill_of_not_covers hcovers hwidth le_rfl]
      rw [List.length_map, List.length_range, window_size]
      omega

/-- Without transfers the panel keeps what it shows. -/
theorem not_refreshes_nil (hinside : Inside lcd rect) : ¬ Refreshes lcd framebuffer rect [] := by
  intro h
  have hwidth_pos := hinside.width_pos
  have hheight_pos := hinside.height_pos
  have hcovers : rect.window.Covers rect.x.toNat rect.y.toNat := by
    rw [RectInfo.window, rectangle_covers]
    omega
  have hshown := h ⟨0, (0, 0), (0, 0), 0, fun x y ↦ pixel framebuffer lcd.width x y + 1⟩
    rect.x.toNat rect.y.toNat
  rw [if_pos hcovers] at hshown
  exact absurd hshown (by simp [Panel.receiveAll])

/-- The request accesses nothing outside the buffers, and refreshes a rectangle of the screen. -/
def UpdatesRect (grant : Grant) (rect : RectInfo) (lcd : Lcd8080Device)
    (framebuffer : Block UInt16) : Prop :=
  ∃ after reply, drvLcdControl grant (.rectUpdate (some rect)) lcd = .ok (after, reply) ∧
    (Inside lcd rect → Refreshes lcd framebuffer rect reply.transfers)

theorem drvLcdControl_rectUpdate (grant : Grant) (rect : RectInfo) (lcd : Lcd8080Device) :
    drvLcdControl grant (.rectUpdate (some rect)) lcd = (do
      let (lcd, transfers) ← drvLcdRectUpdate grant rect lcd
      return (lcd, ⟨rtEok, none, transfers⟩)) := rfl

theorem inside_congr {next : Lcd8080Device} (hinfo : next.info = lcd.info) :
    Inside next rect ↔ Inside lcd rect := by
  constructor
  all_goals
    intro h
    obtain ⟨hwidth, hheight, hright, hbottom⟩ := h
    refine ⟨hwidth, hheight, ?_, ?_⟩
    · simpa only [Lcd8080Device.width, hinfo] using hright
    · simpa only [Lcd8080Device.height, hinfo] using hbottom

theorem wordsFit_congr {next : Lcd8080Device} (hinfo : next.info = lcd.info) :
    WordsFit next rect ↔ WordsFit lcd rect := by
  simp only [WordsFit, Lcd8080Device.width, Lcd8080Device.height, hinfo]

/-- **Rectangle updates.** A rectangle on the screen is refreshed exactly if there is a bounce
buffer and the area is even; any rectangle is safe exactly if there is no bounce buffer or the
words fit into it. -/
theorem updatesRect_iff (h : Ready lcd framebuffer) (hfresh : grant.Fresh lcd.heap)
    (rect : RectInfo) :
    UpdatesRect grant rect lcd framebuffer ↔
      (Inside lcd rect → Available grant lcd ∧ rect.area % 2 = 0) ∧
        (Available grant lcd → WordsFit lcd rect) := by
  rw [UpdatesRect, drvLcdControl_rectUpdate, drvLcdRectUpdate]
  by_cases havailable : Available grant lcd
  · obtain ⟨next, hensure, hready, hrect, hinfo⟩ :=
      ensureRectBuffer_of_available h hfresh havailable
    rw [hensure, ok_bind, ← inside_congr hinfo, ← wordsFit_congr hinfo]
    constructor
    · rintro ⟨after, reply, hrun, hrefresh⟩
      obtain ⟨⟨lcd', transfers⟩, hsend, hreply⟩ := bind_eq_ok.mp hrun
      have hwords := wordsFit_of_sendRect hready hrect hsend
      obtain ⟨after', source, hsent, _, hheld⟩ := sendRect_of_wordsFit hready hrect hwords
      obtain ⟨rfl, rfl⟩ := Prod.mk.inj (Except.ok.inj (hsend.symm.trans hsent))
      obtain ⟨rfl, rfl⟩ := Prod.mk.inj (Except.ok.inj hreply)
      refine ⟨fun hinside ↦ ⟨havailable, ?_⟩, fun _ ↦ hwords⟩
      have hshown := hrefresh hinside
      rw [Refreshes, ← show next.width = lcd.width by
        rw [Lcd8080Device.width, Lcd8080Device.width, hinfo]] at hshown
      exact (refreshes_rectTransfers_iff hinside (hheld hinside)).mp hshown
    · rintro ⟨heven, hfit⟩
      obtain ⟨after, source, hsent, _, hheld⟩ :=
        sendRect_of_wordsFit hready hrect (hfit havailable)
      refine ⟨after, ⟨rtEok, none, rectTransfers rect source⟩, ?_, fun hinside ↦ ?_⟩
      · dsimp only
        rw [hsent]
        rfl
      · have hshown := (refreshes_rectTransfers_iff hinside (hheld hinside)).mpr
          (heven hinside).2
        rw [Refreshes, show next.width = lcd.width by
          rw [Lcd8080Device.width, Lcd8080Device.width, hinfo]] at hshown
        exact hshown
  · rw [ensureRectBuffer_of_not_available h havailable]
    constructor
    · rintro ⟨after, reply, hrun, hrefresh⟩
      obtain ⟨rfl, rfl⟩ := Prod.mk.inj (Except.ok.inj hrun)
      exact ⟨fun hinside ↦ absurd (hrefresh hinside) (not_refreshes_nil hinside),
        fun hyes ↦ absurd hyes havailable⟩
    · rintro ⟨hinside, _⟩
      exact ⟨lcd, ⟨rtEok, none, []⟩, rfl, fun hin ↦ absurd (hinside hin).1 havailable⟩

/-- A white screen of 320 by 240 pixels, before the first update. -/
def whiteFramebuffer : Block UInt16 := ⟨76800, fun _ ↦ 0xFFFF⟩

def whiteLcd : Lcd8080Device where
  info := ⟨16, 320, 240⟩
  framebuffer := 1
  rectBuffer := 0
  heap := ⟨fun address ↦ if address = 1 then some whiteFramebuffer else none⟩

def blackGrant : Grant := some (2, fun _ ↦ 0)

theorem whiteLcd_ready : Ready whiteLcd whiteFramebuffer :=
  ⟨rfl, by decide, by decide, by decide, rfl, rfl, fun h ↦ absurd rfl h⟩

theorem blackGrant_fresh : blackGrant.Fresh whiteLcd.heap := by
  rintro address leftover ⟨⟩
  exact ⟨by decide, rfl⟩

theorem whiteLcd_updatesRect_iff :
    UpdatesRect blackGrant ⟨318, 0, 2, 1⟩ whiteLcd whiteFramebuffer ↔
      (Inside whiteLcd ⟨318, 0, 2, 1⟩ → Available blackGrant whiteLcd ∧
        RectInfo.area ⟨318, 0, 2, 1⟩ % 2 = 0) ∧
        (Available blackGrant whiteLcd → WordsFit whiteLcd ⟨318, 0, 2, 1⟩) :=
  updatesRect_iff whiteLcd_ready blackGrant_fresh _

/-- A single pixel fills half a word, and none is sent. -/
theorem whiteLcd_single_pixel :
    Inside whiteLcd ⟨0, 0, 1, 1⟩ ∧ ¬ UpdatesRect blackGrant ⟨0, 0, 1, 1⟩ whiteLcd
      whiteFramebuffer := by
  have hinside : Inside whiteLcd ⟨0, 0, 1, 1⟩ := by constructor <;> decide
  refine ⟨hinside, ?_⟩
  rintro ⟨after, reply, hrun, hrefresh⟩
  have hsent : ((drvLcdControl blackGrant (.rectUpdate (some ⟨0, 0, 1, 1⟩)) whiteLcd).toOption.map
      fun result ↦ result.2.transfers) = some (drvLcdSetArea 0 0 0 0 ++ [.halves []]) := by
    decide
  rw [hrun] at hsent
  have htransfers : reply.transfers = drvLcdSetArea 0 0 0 0 ++ [.halves []] :=
    Option.some.inj hsent
  have hshown := hrefresh hinside ⟨0, (0, 0), (0, 0), 0, fun _ _ ↦ 0⟩ 0 0
  rw [htransfers, if_pos (by decide)] at hshown
  exact absurd hshown (by decide)

/-! ## Runs of the device -/

/-- What happens to the device: a request, or the application draws into the framebuffer. -/
inductive Event
  | control (grant : Grant) (request : Request)
  | draw (pixels : ℤ → UInt16)

def lcdSystem : System Lcd8080Device Event Fault where
  enabled lcd
    | .control grant _ => grant.Fresh lcd.heap
    | .draw _ => True
  step lcd
    | .control grant request => do
      let (lcd, _) ← drvLcdControl grant request lcd
      return lcd
    | .draw pixels => do
      let framebuffer ← lcd.heap.load lcd.framebuffer
      return { lcd with
        heap := lcd.heap.set lcd.framebuffer (some { framebuffer with cell := pixels }) }

theorem drvLcdRectUpdate_ready (h : Ready lcd framebuffer) (hfresh : grant.Fresh lcd.heap)
    {next : Lcd8080Device} {transfers : List Transfer}
    (hrun : drvLcdRectUpdate grant rect lcd = .ok (next, transfers)) :
    Ready next framebuffer := by
  rw [drvLcdRectUpdate] at hrun
  by_cases havailable : Available grant lcd
  · obtain ⟨middle, hensure, hready, hrect, _⟩ :=
      ensureRectBuffer_of_available h hfresh havailable
    rw [hensure, ok_bind] at hrun
    obtain ⟨after, source, hsent, hafter, _⟩ :=
      sendRect_of_wordsFit hready hrect (wordsFit_of_sendRect hready hrect hrun)
    obtain ⟨rfl, _⟩ := Prod.mk.inj (Except.ok.inj (hrun.symm.trans hsent))
    exact hafter
  · rw [ensureRectBuffer_of_not_available h havailable] at hrun
    obtain ⟨rfl, _⟩ := Prod.mk.inj (Except.ok.inj hrun)
    exact h

theorem drvLcdControl_ready (h : Ready lcd framebuffer) (hfresh : grant.Fresh lcd.heap)
    {request : Request} {next : Lcd8080Device} {reply : Reply}
    (hrun : drvLcdControl grant request lcd = .ok (next, reply)) : Ready next framebuffer := by
  cases request with
  | rectUpdate info =>
    cases info with
    | none =>
      obtain ⟨rfl, _⟩ := Prod.mk.inj (Except.ok.inj hrun)
      exact h
    | some rect =>
      obtain ⟨⟨middle, transfers⟩, hupdate, hreply⟩ := bind_eq_ok.mp hrun
      obtain ⟨rfl, _⟩ := Prod.mk.inj (Except.ok.inj hreply)
      exact drvLcdRectUpdate_ready h hfresh hupdate
  | getInfo given =>
    cases given with
    | false => cases hrun
    | true =>
      obtain ⟨rfl, _⟩ := Prod.mk.inj (Except.ok.inj hrun)
      exact h
  | _ =>
    obtain ⟨rfl, _⟩ := Prod.mk.inj (Except.ok.inj hrun)
    exact h

/-- The drawing keeps the buffers; the framebuffer has new pixels. -/
theorem Ready.draw (h : Ready lcd framebuffer) (pixels : ℤ → UInt16) :
    Ready { lcd with
      heap := lcd.heap.set lcd.framebuffer (some { framebuffer with cell := pixels }) }
      { framebuffer with cell := pixels } := by
  obtain ⟨haddress, _⟩ := Heap.load_eq_ok_iff.mp h.framebuffer_load
  refine ⟨h.bits, h.width_pos, h.height_pos, h.screen_lt,
    Heap.load_eq_ok haddress (Heap.cell_set_self _), h.framebuffer_size, fun hrect ↦ ?_⟩
  obtain ⟨hne, buffer, hbuffer, hsize⟩ := h.rectBuffer hrect
  obtain ⟨hrectAddress, hcell⟩ := Heap.load_eq_ok_iff.mp hbuffer
  exact ⟨hne, buffer, Heap.load_eq_ok hrectAddress ((Heap.cell_set_of_ne hne _).trans hcell),
    hsize⟩

/-- **Runs.** Whatever is requested and drawn, the buffers keep the size of the screen. -/
theorem run_ready {last : Lcd8080Device} {events : List Event}
    (hrun : lcdSystem.Run lcd events last) (h : Ready lcd framebuffer) :
    ∃ framebuffer, Ready last framebuffer := by
  have hpreserves : ∀ lcd event next, (∃ framebuffer, Ready lcd framebuffer) →
      lcdSystem.enabled lcd event → lcdSystem.step lcd event = .ok next →
        ∃ framebuffer, Ready next framebuffer := by
    rintro lcd event next ⟨framebuffer, hready⟩ henabled hstep
    cases event with
    | control grant request =>
      obtain ⟨⟨middle, reply⟩, hcontrol, hnext⟩ := bind_eq_ok.mp hstep
      obtain rfl := Except.ok.inj hnext
      exact ⟨framebuffer, drvLcdControl_ready hready henabled hcontrol⟩
    | draw pixels =>
      obtain ⟨held, hheld, hnext⟩ := bind_eq_ok.mp hstep
      obtain rfl := Except.ok.inj (hready.framebuffer_load.symm.trans hheld)
      obtain rfl := Except.ok.inj hnext
      exact ⟨_, hready.draw pixels⟩
  exact hrun.invariant hpreserves ⟨framebuffer, h⟩

theorem drvLcdSetDirection_dirYxRlud (xMax yMax : UInt16) (lcd : Lcd8080Device) :
    drvLcdSetDirection xMax yMax dirYxRlud lcd =
      ({ lcd with info := { lcd.info with width := yMax, height := xMax } },
        [.command memoryAccessCtl, .bytes [0x28]]) := by
  have hcolumns : (dirYxRlud ||| 0x08) &&& dirXyMask ≠ 0 := by decide
  rw [drvLcdSetDirection, if_pos hcolumns]
  rfl

theorem screen_lt_of_mallocScreen (hbits : lcd.info.bitsPerPixel = 16)
    {result : Option (Address × Heap (Block UInt16))}
    (h : mallocScreen grant lcd = .ok result) : lcd.height * lcd.width * 2 < 2 ^ 31 := by
  obtain ⟨area, harea, h⟩ := bind_eq_ok.mp h
  obtain ⟨bytes, hbytes, _⟩ := bind_eq_ok.mp h
  have hrange := range_of_int32 hbytes
  rw [eq_of_int32 harea, Lcd8080Device.bytesPerPixel, hbits] at hrange
  exact hrange.2

/-- **Set-up.** An initialised device is ready. -/
theorem drvLcdInit_ready {xMax yMax : UInt16} (hbits : lcd.info.bitsPerPixel = 16)
    (hrect : lcd.rectBuffer = 0) (hx : 0 < xMax.toNat) (hy : 0 < yMax.toNat)
    (hfresh : grant.Fresh lcd.heap) {next : Lcd8080Device} {transfers : List Transfer}
    (hrun : drvLcdInit xMax yMax grant lcd = .ok (some (next, transfers))) :
    ∃ framebuffer, Ready next framebuffer := by
  obtain ⟨turned, hturned⟩ : ∃ turned : Lcd8080Device,
      { lcd with info := { lcd.info with width := yMax, height := xMax } } = turned := ⟨_, rfl⟩
  have hbits : turned.info.bitsPerPixel = 16 := by rw [← hturned, hbits]
  have hrect : turned.rectBuffer = 0 := by rw [← hturned, hrect]
  have hwidth : 0 < turned.width := by
    rw [← hturned]
    exact Int.ofNat_lt.mpr hy
  have hheight : 0 < turned.height := by
    rw [← hturned]
    exact Int.ofNat_lt.mpr hx
  rw [drvLcdInit, drvLcdSetDirection_dirYxRlud, hturned] at hrun
  obtain ⟨granted, hmalloc, hrun⟩ := bind_eq_ok.mp hrun
  have hscreen := screen_lt_of_mallocScreen hbits hmalloc
  rw [mallocScreen_eq_ok hbits hwidth hheight hscreen] at hmalloc
  obtain rfl := Except.ok.inj hmalloc
  cases hgrant : grant with
  | none =>
    rw [hgrant] at hrun
    cases hrun
  | some pair =>
    rw [hgrant] at hrun
    obtain ⟨clear, _, hnext⟩ := bind_eq_ok.mp hrun
    obtain ⟨rfl, _⟩ := Prod.mk.inj (Option.some.inj (Except.ok.inj hnext))
    obtain ⟨haddress, _⟩ := hfresh pair.1 pair.2 hgrant
    exact ⟨_, hbits, hwidth, hheight, hscreen,
      Heap.load_eq_ok haddress (Heap.cell_set_self _), rfl, fun h ↦ absurd hrect h⟩

end K210Firmware.Display.Lcd
