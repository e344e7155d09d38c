import K210Firmware.Library.Memory
import K210Firmware.Library.Raster

/-!
# The TFT driver and the panel

`drv_tft.c` drives the panel over SPI: a command, its operand bytes, and after `MEMORY_WRITE` a
stream of 16-bit pixels. The driver returns its transfers; `Panel.receive` is the other end of the
bus, which decodes the two address commands and fills the selected window row by row.
-/

namespace K210Firmware.Display.Tft

open Memory Raster

/-- One SPI transfer; the data/command line is low during a command. -/
inductive Transfer
  | command (code : UInt8)
  | bytes (data : List UInt8)
  | halves (data : List UInt16)
  deriving DecidableEq, Repr

def softwareReset : UInt8 := 0x01
def sleepOff : UInt8 := 0x11
def normalDisplayOn : UInt8 := 0x13
def displayOn : UInt8 := 0x29
def horizontalAddressSet : UInt8 := 0x2A
def verticalAddressSet : UInt8 := 0x2B
def memoryWrite : UInt8 := 0x2C
def memoryAccessCtl : UInt8 := 0x36
def pixelFormatSet : UInt8 := 0x3A

/-- The fields of `struct rt_device_graphic_info` without the framebuffer. -/
structure GraphicInfo where
  bitsPerPixel : ℕ
  width : UInt16
  height : UInt16

/-- The values of `rt_hw_tft_init`. -/
def tftInfo : GraphicInfo := ⟨16, 320, 240⟩

/-- The number of bytes that `tft_hw_init` allocates and clears. -/
def framebufferBytes (info : GraphicInfo) : ℕ :=
  info.width.toNat * info.height.toNat * info.bitsPerPixel / 8 * 2

/-- The transfers of `tft_hw_init` and the framebuffer of 32-bit words it leaves. -/
def tftHwInit (info : GraphicInfo) : List Transfer × Block UInt32 :=
  ([.command softwareReset, .command sleepOff,
      .command pixelFormatSet, .bytes [0x55],
      .command memoryAccessCtl, .bytes [0xA0],
      .command normalDisplayOn, .command displayOn],
    ⟨(framebufferBytes info / 4 : ℕ), fun _ ↦ 0⟩)

def tftSetArea (x1 y1 x2 y2 : UInt16) : List Transfer :=
  [.command horizontalAddressSet,
    .bytes [(x1 >>> 8).toUInt8, x1.toUInt8, (x2 >>> 8).toUInt8, x2.toUInt8],
    .command verticalAddressSet,
    .bytes [(y1 >>> 8).toUInt8, y1.toUInt8, (y2 >>> 8).toUInt8, y2.toUInt8],
    .command memoryWrite]

/-- The SDK call that sends the low 16 bits of each word. -/
def spiSendDataU32AsU16 (buffer : Block UInt32) (length : ℕ) : Except Fault Transfer := do
  let words ← (List.range length).mapM fun (index : ℕ) ↦ buffer.read index
  return .halves (words.map UInt32.toUInt16)

def tftFlush (info : GraphicInfo) (framebuffer : Option (Block UInt32)) :
    Except Fault (List Transfer) :=
  match framebuffer with
  | none => return []
  | some framebuffer => do
    let area := tftSetArea 0 0 (info.width - 1) (info.height - 1)
    let pixels ← spiSendDataU32AsU16 framebuffer (info.width.toNat * info.height.toNat)
    return area ++ [pixels]

/-! ## The panel -/

/-- The last command, the two address registers, the place in the scan, and the pixels. -/
structure Panel where
  command : UInt8
  columns : UInt16 × UInt16
  rows : UInt16 × UInt16
  place : ℤ
  memory : Picture UInt16

/-- An address register from its high and its low byte. -/
def address (high low : UInt8) : UInt16 := UInt16.ofNat (high.toNat * 256 + low.toNat)

def Panel.window (panel : Panel) : Window :=
  ⟨panel.columns.1.toNat, panel.rows.1.toNat, panel.columns.2.toNat, panel.rows.2.toNat⟩

def Panel.operands (panel : Panel) (start stop : UInt16) : Panel :=
  if panel.command = horizontalAddressSet then { panel with columns := (start, stop) }
  else if panel.command = verticalAddressSet then { panel with rows := (start, stop) }
  else panel

def Panel.receive (panel : Panel) : Transfer → Panel
  | .command code => { panel with command := code, place := 0 }
  | .bytes [startHigh, startLow, stopHigh, stopLow] =>
      panel.operands (address startHigh startLow) (address stopHigh stopLow)
  | .bytes _ => panel
  | .halves pixels =>
      if panel.command = memoryWrite then
        { panel with
          place := panel.place + pixels.length
          memory := fill panel.window panel.place pixels panel.memory }
      else panel

def Panel.receiveAll (panel : Panel) (transfers : List Transfer) : Panel :=
  transfers.foldl Panel.receive panel

/-- The two bytes of an address are put together again. -/
theorem address_split (value : UInt16) :
    address (value >>> 8).toUInt8 value.toUInt8 = value := by
  apply UInt16.toNat_inj.mp
  have hvalue := value.toNat_lt
  simp only [address, UInt16.toNat_ofNat', UInt16.toNat_toUInt8, UInt16.toNat_shiftRight]
  simp only [UInt16.reduceToNat, Nat.reduceMod, Nat.shiftRight_eq_div_pow, Nat.reducePow]
  omega

/-- **Area selection.** After `tft_set_area` the panel fills exactly the given window, from its
first point. -/
theorem receiveAll_tftSetArea (panel : Panel) (x1 y1 x2 y2 : UInt16) :
    panel.receiveAll (tftSetArea x1 y1 x2 y2) =
      ⟨memoryWrite, (x1, x2), (y1, y2), 0, panel.memory⟩ := by
  simp only [Panel.receiveAll, tftSetArea, List.foldl_cons, List.foldl_nil, Panel.receive,
    address_split]
  rfl

/-- **Drawing.** Pixels that follow an area selection fill the selected window. -/
theorem receiveAll_area_pixels (panel : Panel) (x1 y1 x2 y2 : UInt16) (pixels : List UInt16) :
    (panel.receiveAll (tftSetArea x1 y1 x2 y2 ++ [.halves pixels])).memory =
      fill ⟨x1.toNat, y1.toNat, x2.toNat, y2.toNat⟩ 0 pixels panel.memory := by
  have harea := receiveAll_tftSetArea panel x1 y1 x2 y2
  rw [Panel.receiveAll] at harea ⊢
  rw [List.foldl_append, harea, List.foldl_cons, List.foldl_nil, Panel.receive, if_pos rfl]
  rfl

theorem receiveAll_area_pixels_window (panel : Panel) (x1 y1 x2 y2 : UInt16)
    (pixels : List UInt16) :
    (panel.receiveAll (tftSetArea x1 y1 x2 y2 ++ [.halves pixels])).window =
      ⟨x1.toNat, y1.toNat, x2.toNat, y2.toNat⟩ := by
  have harea := receiveAll_tftSetArea panel x1 y1 x2 y2
  rw [Panel.receiveAll] at harea ⊢
  rw [List.foldl_append, harea, List.foldl_cons, List.foldl_nil, Panel.receive, if_pos rfl]
  rfl

/-- The low halves of all words are sent, and nothing outside the buffer is read. -/
theorem spiSendDataU32AsU16_eq_ok {buffer : Block UInt32} {length : ℕ}
    (hlength : (length : ℤ) ≤ buffer.size) :
    spiSendDataU32AsU16 buffer length =
      .ok (.halves ((List.range length).map fun (index : ℕ) ↦ (buffer.cell index).toUInt16)) := by
  have hread : ∀ index ∈ List.range length,
      buffer.read (index : ℤ) = .ok (buffer.cell (index : ℤ)) := by
    intro index hindex
    rw [List.mem_range] at hindex
    exact Block.read_eq_ok (by omega) (by omega)
  rw [spiSendDataU32AsU16, mapM_eq_ok hread, ok_bind, List.map_map]
  rfl

/-- The window of the whole screen. -/
def screen : Window := ⟨0, 0, 319, 239⟩

theorem screen_covers {x y : ℤ} : screen.Covers x y ↔ (0 ≤ x ∧ x < 320) ∧ 0 ≤ y ∧ y < 240 := by
  simp only [Window.Covers, screen]
  omega

theorem screen_offset (x y : ℤ) : screen.offset x y = x + 320 * y := by
  simp only [Window.offset, Window.width, screen]
  omega

theorem tftFlush_eq_ok {framebuffer : Block UInt32} (hsize : framebuffer.size = 320 * 240) :
    tftFlush tftInfo (some framebuffer) = .ok (tftSetArea 0 0 319 239 ++
      [.halves ((List.range (320 * 240)).map fun (index : ℕ) ↦
        (framebuffer.cell index).toUInt16)]) := by
  have hcount : tftInfo.width.toNat * tftInfo.height.toNat = 320 * 240 := rfl
  rw [tftFlush, hcount, spiSendDataU32AsU16_eq_ok (by rw [hsize]; decide), ok_bind]
  rfl

/-- **One refresh.** Whatever the panel held, `tft_flush` makes it show the low halves of the
framebuffer words, word `x + 320 * y` at pixel `(x, y)`. -/
theorem tftFlush_spec {framebuffer : Block UInt32} (hsize : framebuffer.size = 320 * 240)
    (panel : Panel) :
    ∃ transfers, tftFlush tftInfo (some framebuffer) = .ok transfers ∧
      ∀ x y, screen.Covers x y →
        (panel.receiveAll transfers).memory x y = (framebuffer.cell (x + 320 * y)).toUInt16 := by
  refine ⟨_, tftFlush_eq_ok hsize, fun x y hcovers ↦ ?_⟩
  have hnonneg := hcovers.offset_nonneg
  have hlt := hcovers.offset_lt_size
  have hscreen : screen.size = 320 * 240 := rfl
  have hindex : (screen.offset x y).toNat < 320 * 240 := by omega
  rw [receiveAll_area_pixels]
  refine (fill_apply hcovers (screen.offset x y).toNat (by omega)
    (by rwa [List.length_map, List.length_range]) panel.memory).trans ?_
  rw [List.getElem_map, List.getElem_range, Int.toNat_of_nonneg hnonneg, screen_offset]

end K210Firmware.Display.Tft
