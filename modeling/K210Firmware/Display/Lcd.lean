import K210Firmware.Display.Bitblt
import K210Firmware.Display.Tft

/-!
# Refreshing a rectangle of the LCD

`drv_lcd.c` keeps a framebuffer of the whole screen. `RTGRAPHIC_CTRL_RECT_UPDATE` sends one
rectangle of it: the whole screen straight from the framebuffer, any other rectangle by way of a
bounce buffer that is allocated at the first request, with the size of the screen. Pixels are sent
in pairs, two in each word.
-/

namespace K210Firmware.Display.Lcd

open Memory Raster Tft Bitblt

/-- The fields of `struct lcd_8080_device` that are read here, the static `rect_buffer` of
`drv_lcd_rect_update`, and the arrays of pixels. -/
structure Lcd8080Device where
  info : GraphicInfo
  framebuffer : Address
  rectBuffer : Address
  heap : Heap (Block UInt16)

/-- `struct rt_device_rect_info` -/
structure RectInfo where
  x : UInt16
  y : UInt16
  width : UInt16
  height : UInt16
  deriving DecidableEq

/-- What an allocation returns: nothing, or an address and what the memory there held. -/
abbrev Grant := Option (Address × (ℤ → UInt16))

namespace Lcd8080Device

variable (lcd : Lcd8080Device)

def width : ℤ := lcd.info.width.toNat

def height : ℤ := lcd.info.height.toNat

def bytesPerPixel : ℤ := lcd.info.bitsPerPixel / 8

end Lcd8080Device

def drvLcdCmd (cmd : UInt8) : List Transfer := [.command cmd]

def drvLcdDataByte (data : List UInt8) : List Transfer := [.bytes data]

/-- Each word carries the two pixels that are next to each other in the buffer. -/
def drvLcdDataWord (buffer : Block UInt16) (length : ℕ) : Except Fault (List Transfer) := do
  let words ← (List.range length).mapM fun (index : ℕ) ↦ do
    return [← buffer.read (2 * index), ← buffer.read (2 * index + 1)]
  return [.halves words.flatten]

def drvLcdSetArea (x1 y1 x2 y2 : UInt16) : List Transfer :=
  drvLcdCmd horizontalAddressSet ++
    drvLcdDataByte [(x1 >>> 8).toUInt8, x1.toUInt8, (x2 >>> 8).toUInt8, x2.toUInt8] ++
    drvLcdCmd verticalAddressSet ++
    drvLcdDataByte [(y1 >>> 8).toUInt8, y1.toUInt8, (y2 >>> 8).toUInt8, y2.toUInt8] ++
    drvLcdCmd memoryWrite

/-- `rt_malloc_align` of the bytes of the screen, as an array of pixels. -/
def mallocScreen (grant : Grant) (lcd : Lcd8080Device) :
    Except Fault (Option (Address × Heap (Block UInt16))) := do
  let bytes ← int32 ((← int32 (lcd.height * lcd.width)) * lcd.bytesPerPixel)
  match grant with
  | none => return none
  | some (address, leftover) =>
    return some (address, lcd.heap.set address (some ⟨bytes / 2, leftover⟩))

/-- The first part of `drv_lcd_rect_update`; without a buffer it returns. -/
def ensureRectBuffer (grant : Grant) (lcd : Lcd8080Device) : Except Fault (Option Lcd8080Device) :=
  if lcd.rectBuffer = 0 then do
    match ← mallocScreen grant lcd with
    | none => return none
    | some (address, heap) => return some { lcd with rectBuffer := address, heap := heap }
  else return some lcd

/-- The arguments with which the bounce buffer is filled. -/
def rectBlit (lcd : Lcd8080Device) (rect : RectInfo) : Blit where
  dest := lcd.rectBuffer
  destSegment := rect.width.toNat
  destCommon := rect.height.toNat
  destX := 0
  destY := 0
  width := rect.width.toNat
  height := rect.height.toNat
  src := lcd.framebuffer
  srcSegment := lcd.width
  srcCommon := lcd.height
  srcX := rect.x.toNat
  srcY := rect.y.toNat

/-- The second part of `drv_lcd_rect_update`, with a bounce buffer. -/
def sendRect (rect : RectInfo) (lcd : Lcd8080Device) :
    Except Fault (Lcd8080Device × List Transfer) :=
  let area := drvLcdSetArea rect.x rect.y (rect.x + rect.width - 1) (rect.y + rect.height - 1)
  if rect.x = 0 ∧ rect.y = 0 ∧ rect.width = lcd.info.width ∧ rect.height = lcd.info.height then do
    let length ← divide32 (← int32 (rect.width.toNat * rect.height.toNat)) lcd.bytesPerPixel
    let pixels ← drvLcdDataWord (← lcd.heap.load lcd.framebuffer) length.toNat
    return (lcd, area ++ pixels)
  else do
    let heap ← rtBitblt (rectBlit lcd rect) lcd.heap
    let length ← divide32 (← int32 (rect.width.toNat * rect.height.toNat)) 2
    let pixels ← drvLcdDataWord (← heap.load lcd.rectBuffer) length.toNat
    return ({ lcd with heap := heap }, area ++ pixels)

def drvLcdRectUpdate (grant : Grant) (rect : RectInfo) (lcd : Lcd8080Device) :
    Except Fault (Lcd8080Device × List Transfer) := do
  match ← ensureRectBuffer grant lcd with
  | none => return (lcd, [])
  | some lcd => sendRect rect lcd

/-- The commands of `drv_lcd_control` with their arguments; a null pointer is `none` or `false`. -/
inductive Request
  | rectUpdate (info : Option RectInfo)
  | powerOn
  | powerOff
  | getInfo (given : Bool)
  | setMode
  | getExt
  | other (cmd : ℤ)
  deriving DecidableEq

/-- The return value, the information written to the argument, and what is sent to the panel. -/
structure Reply where
  ret : ℤ
  info : Option (GraphicInfo × Address)
  transfers : List Transfer

def rtEok : ℤ := 0
def rtError : ℤ := 1
def rtEnosys : ℤ := 6

def drvLcdControl (grant : Grant) (request : Request) (lcd : Lcd8080Device) :
    Except Fault (Lcd8080Device × Reply) :=
  match request with
  | .rectUpdate none => return (lcd, ⟨-rtError, none, []⟩)
  | .rectUpdate (some rect) => do
    let (lcd, transfers) ← drvLcdRectUpdate grant rect lcd
    return (lcd, ⟨rtEok, none, transfers⟩)
  | .powerOn | .powerOff | .setMode | .getExt => return (lcd, ⟨-rtEnosys, none, []⟩)
  | .getInfo true => return (lcd, ⟨rtEok, some (lcd.info, lcd.framebuffer), []⟩)
  | .getInfo false => .error .nullPointer
  | .other _ => return (lcd, ⟨rtEok, none, []⟩)

/-! ## Set-up -/

def dirYxRlud : UInt8 := 0x20
def dirXyMask : UInt8 := 0x20

def drvLcdSetDirection (xMax yMax : UInt16) (dir : UInt8) (lcd : Lcd8080Device) :
    Lcd8080Device × List Transfer :=
  let dir := dir ||| 0x08
  let info :=
    if dir &&& dirXyMask ≠ 0 then { lcd.info with width := yMax, height := xMax }
    else { lcd.info with width := xMax, height := yMax }
  ({ lcd with info := info }, drvLcdCmd memoryAccessCtl ++ drvLcdDataByte [dir])

/-- The fill sends the word with the colour in both halves. -/
def drvLcdClear (lcd : Lcd8080Device) (color : UInt16) : Except Fault (List Transfer) := do
  let length ← divide32 (← int32 (lcd.width * lcd.height)) 2
  return drvLcdSetArea 0 0 (lcd.info.width - 1) (lcd.info.height - 1) ++
    [.halves (List.replicate (2 * length.toNat) color)]

/-- Nothing is returned if the assertion on the framebuffer fails. -/
def drvLcdInit (xMax yMax : UInt16) (grant : Grant) (lcd : Lcd8080Device) :
    Except Fault (Option (Lcd8080Device × List Transfer)) := do
  let start := drvLcdCmd softwareReset ++ drvLcdCmd sleepOff ++ drvLcdCmd pixelFormatSet ++
    drvLcdDataByte [0x55]
  let (lcd, direction) := drvLcdSetDirection xMax yMax dirYxRlud lcd
  match ← mallocScreen grant lcd with
  | none => return none
  | some (address, heap) =>
    let lcd := { lcd with framebuffer := address, heap := heap }
    let clear ← drvLcdClear lcd 0x0000
    return some (lcd, start ++ direction ++ drvLcdCmd displayOn ++ clear)

/-! ## The buffers -/

/-- A device whose framebuffer, and whose bounce buffer if it has one, are arrays of the size of
the screen. -/
structure Ready (lcd : Lcd8080Device) (framebuffer : Block UInt16) : Prop where
  bits : lcd.info.bitsPerPixel = 16
  width_pos : 0 < lcd.width
  height_pos : 0 < lcd.height
  screen_lt : lcd.height * lcd.width * 2 < 2 ^ 31
  framebuffer_load : lcd.heap.load lcd.framebuffer = .ok framebuffer
  framebuffer_size : framebuffer.size = lcd.width * lcd.height
  rectBuffer : lcd.rectBuffer ≠ 0 → lcd.rectBuffer ≠ lcd.framebuffer ∧
    ∃ buffer, lcd.heap.load lcd.rectBuffer = .ok buffer ∧ buffer.size = lcd.width * lcd.height

/-- An allocation returns memory that is not in use. -/
def Grant.Fresh (grant : Grant) (heap : Heap (Block UInt16)) : Prop :=
  ∀ address leftover, grant = some (address, leftover) → heap.Fresh address

/-- There is a bounce buffer, or the allocation succeeds. -/
def Available (grant : Grant) (lcd : Lcd8080Device) : Prop := lcd.rectBuffer ≠ 0 ∨ grant ≠ none

instance (grant : Grant) (lcd : Lcd8080Device) : Decidable (Available grant lcd) :=
  inferInstanceAs (Decidable (_ ∨ ¬ _ = _))

variable {lcd : Lcd8080Device} {framebuffer : Block UInt16} {grant : Grant} {rect : RectInfo}

theorem Ready.bytesPerPixel (h : Ready lcd framebuffer) : lcd.bytesPerPixel = 2 := by
  rw [Lcd8080Device.bytesPerPixel, h.bits]
  rfl

theorem mallocScreen_eq_ok (hbits : lcd.info.bitsPerPixel = 16) (hwidth : 0 < lcd.width)
    (hheight : 0 < lcd.height) (hscreen : lcd.height * lcd.width * 2 < 2 ^ 31) (grant : Grant) :
    mallocScreen grant lcd = .ok (grant.map fun granted ↦
      (granted.1, lcd.heap.set granted.1 (some ⟨lcd.width * lcd.height, granted.2⟩))) := by
  have hpos : 0 < lcd.height * lcd.width := mul_pos hheight hwidth
  have hbytes : lcd.bytesPerPixel = 2 := by
    rw [Lcd8080Device.bytesPerPixel, hbits]
    rfl
  rw [mallocScreen, int32_eq_ok (by omega) (by omega), ok_bind, hbytes,
    int32_eq_ok (by omega) (by omega), ok_bind]
  cases grant with
  | none => rfl
  | some granted =>
    have hpixels : lcd.height * lcd.width * 2 / 2 = lcd.width * lcd.height := by
      rw [Int.mul_ediv_cancel _ (by decide), mul_comm]
    rw [← hpixels]
    rfl

/-- **The bounce buffer.** If one is available, the device has it from now on. -/
theorem ensureRectBuffer_of_available (h : Ready lcd framebuffer) (hfresh : grant.Fresh lcd.heap)
    (havailable : Available grant lcd) :
    ∃ next, ensureRectBuffer grant lcd = .ok (some next) ∧ Ready next framebuffer ∧
      next.rectBuffer ≠ 0 ∧ next.info = lcd.info := by
  by_cases hnull : lcd.rectBuffer = 0
  · cases hgrant : grant with
    | none => exact absurd hgrant (havailable.resolve_left fun hne ↦ hne hnull)
    | some granted =>
      obtain ⟨address, leftover⟩ := granted
      obtain ⟨haddress, hcell⟩ := hfresh address leftover hgrant
      have hload := Heap.load_eq_ok_iff.mp h.framebuffer_load
      have hne : lcd.framebuffer ≠ address := by
        rintro hsame
        rw [hsame, hcell] at hload
        cases hload.2
      refine ⟨{ lcd with
        rectBuffer := address
        heap := lcd.heap.set address (some ⟨lcd.width * lcd.height, leftover⟩) }, ?_, ?_,
        haddress, rfl⟩
      · rw [ensureRectBuffer, if_pos hnull,
          mallocScreen_eq_ok h.bits h.width_pos h.height_pos h.screen_lt]
        rfl
      · refine ⟨h.bits, h.width_pos, h.height_pos, h.screen_lt, ?_, h.framebuffer_size,
          fun _ ↦ ⟨hne.symm, _, Heap.load_eq_ok haddress (Heap.cell_set_self _), rfl⟩⟩
        exact Heap.load_eq_ok hload.1 ((Heap.cell_set_of_ne hne _).trans hload.2)
  · exact ⟨lcd, if_neg hnull, h, hnull, rfl⟩

theorem ensureRectBuffer_of_not_available (h : Ready lcd framebuffer)
    (havailable : ¬ Available grant lcd) : ensureRectBuffer grant lcd = .ok none := by
  obtain ⟨hnull, hgrant⟩ := not_or.mp havailable
  rw [ensureRectBuffer, if_pos (not_not.mp hnull),
    mallocScreen_eq_ok h.bits h.width_pos h.height_pos h.screen_lt, not_not.mp hgrant]
  rfl

/-! ## Sending pixels in pairs -/

theorem flatten_pairs {Pixel : Type} (pixel : ℕ → Pixel) (length : ℕ) :
    ((List.range length).map fun index ↦ [pixel (2 * index), pixel (2 * index + 1)]).flatten =
      (List.range (2 * length)).map pixel := by
  induction length with
  | zero => rfl
  | succ length ih =>
    rw [List.range_succ, List.map_append, List.flatten_append, ih, Nat.mul_succ,
      List.range_succ, List.range_succ, List.map_append, List.map_append]
    simp

theorem drvLcdDataWord_eq_ok {buffer : Block UInt16} {length : ℕ}
    (h : (2 * length : ℤ) ≤ buffer.size) :
    drvLcdDataWord buffer length =
      .ok [.halves ((List.range (2 * length)).map fun index : ℕ ↦ buffer.cell index)] := by
  have hwords : ∀ index ∈ List.range length,
      (do return [← buffer.read (2 * index), ← buffer.read (2 * index + 1)] :
        Except Fault (List UInt16)) =
        .ok [buffer.cell (2 * index : ℕ), buffer.cell (2 * index + 1 : ℕ)] := by
    intro index hindex
    rw [List.mem_range] at hindex
    rw [Block.read_eq_ok (by omega) (by omega), ok_bind, Block.read_eq_ok (by omega) (by omega)]
    rfl
  rw [drvLcdDataWord, mapM_eq_ok hwords, ok_bind,
    flatten_pairs fun index : ℕ ↦ buffer.cell index]
  rfl

/-- The last word of too many lies outside the buffer. -/
theorem le_of_drvLcdDataWord {buffer : Block UInt16} {length : ℕ} {transfers : List Transfer}
    (hnonneg : 0 ≤ buffer.size) (h : drvLcdDataWord buffer length = .ok transfers) :
    (2 * length : ℤ) ≤ buffer.size := by
  cases length with
  | zero => simpa using hnonneg
  | succ length =>
    obtain ⟨words, hwords, _⟩ := bind_eq_ok.mp h
    obtain ⟨word, hword⟩ := of_mapM_eq_ok hwords (List.mem_range.mpr (Nat.lt_succ_self length))
    obtain ⟨first, _, hword⟩ := bind_eq_ok.mp hword
    obtain ⟨second, hsecond, _⟩ := bind_eq_ok.mp hword
    have hbounds := Block.bounds_of_read hsecond
    push_cast
    omega

/-- Half of a number of pixels, rounded down. -/
theorem divide32_two {count : ℕ} (hcount : (count : ℤ) < 2 ^ 31) :
    divide32 count 2 = .ok ((count / 2 : ℕ) : ℤ) := by
  have hhalf : (count : ℤ).tdiv 2 = ((count / 2 : ℕ) : ℤ) := by
    rw [Int.tdiv_eq_ediv_of_nonneg (by omega)]
    rfl
  rw [divide32_eq_ok (by decide) (by rw [hhalf]; omega) (by rw [hhalf]; omega), hhalf]

end K210Firmware.Display.Lcd
