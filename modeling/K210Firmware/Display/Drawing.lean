import K210Firmware.Display.Tft

/-!
# Rectangles and pictures

`tft_draw_rectangle` and `tft_draw_picture` give `tft_set_area` the corner behind the last pixel,
but the panel's window includes its corner. The window is therefore one column wider than the rows
of the stream. The two functions agree with their purpose only where a single row is drawn, and
`tft_draw_rectangle` always leaves a part of its window without pixels.
-/

namespace K210Firmware.Display.Drawing

open Memory Raster Tft

/-- The SDK call that sends halves from a buffer. -/
def spiSendDataNormalDma (dataBuf : Block UInt16) (length : ℕ) : Except Fault Transfer := do
  let halves ← (List.range length).mapM fun (index : ℕ) ↦ dataBuf.read index
  return .halves halves

def tftWriteHalf (dataBuf : Block UInt16) (length : ℕ) : Except Fault Transfer :=
  spiSendDataNormalDma dataBuf length

/-- The SDK call that sends one word `length` times, the high half first. -/
def spiFillDataDma (data : UInt32) (length : ℕ) : Transfer :=
  .halves (List.replicate length [(data >>> 16).toUInt16, data.toUInt16]).flatten

def tftFillData (data : UInt32) (length : ℕ) : Transfer := spiFillDataDma data length

/-- `x1` and `y1` of `tft_draw_rectangle`. -/
def firstCorner (start limit : UInt16) : UInt16 := if start ≥ limit then limit - 1 else start

/-- `x2` and `y2` of `tft_draw_rectangle`. -/
def lastCorner (start length limit : UInt16) : UInt16 :=
  if start.toNat + length.toNat ≥ limit.toNat then limit - 1 else start + length

def tftDrawRectangle (info : GraphicInfo) (x y width height color : UInt16) : List Transfer :=
  let x1 := firstCorner x info.width
  let y1 := firstCorner y info.height
  let x2 := lastCorner x width info.width
  let y2 := lastCorner y height info.height
  let data := color.toUInt32 <<< 16 ||| color.toUInt32
  let pixels : ℤ := (x2.toNat - x1.toNat) * (y2.toNat - y1.toNat)
  tftSetArea x1 y1 x2 y2 ++ [tftFillData data (pixels.tdiv 2).toNat]

def tftDrawPicture (x1 y1 width height : UInt16) (ptr : Block UInt16) :
    Except Fault (List Transfer) := do
  let pixels ← tftWriteHalf ptr (width.toNat * height.toNat)
  return tftSetArea x1 y1 (x1 + width) (y1 + height) ++ [pixels]

/-- The number of 16-bit pixels in some transfers. -/
def streamed (transfers : List Transfer) : ℕ :=
  (transfers.map fun transfer ↦
    match transfer with
    | .halves pixels => pixels.length
    | _ => 0).sum

/-! ## Rectangles -/

/-- The pixels of the requested rectangle that are on the screen. -/
def Requested (x y width height : UInt16) (i j : ℤ) : Prop :=
  (x.toNat ≤ i ∧ i < min (x.toNat + width.toNat) 320) ∧
    y.toNat ≤ j ∧ j < min (y.toNat + height.toNat) 240

instance (x y width height : UInt16) (i j : ℤ) : Decidable (Requested x y width height i j) :=
  inferInstanceAs (Decidable ((_ ∧ _) ∧ _ ∧ _))

/-- Exactly the requested pixels get the colour. -/
def Painted (panel : Panel) (x y width height color : UInt16) : Prop :=
  ∀ i j, screen.Covers i j →
    (panel.receiveAll (tftDrawRectangle tftInfo x y width height color)).memory i j =
      if Requested x y width height i j then color else panel.memory i j

/-- As many pixels are streamed as the selected window has. -/
def Filled (panel : Panel) (x y width height color : UInt16) : Prop :=
  (streamed (tftDrawRectangle tftInfo x y width height color) : ℤ) =
    (panel.receiveAll (tftDrawRectangle tftInfo x y width height color)).window.size

/-- The window that the driver selects. -/
def selected (x y width height : UInt16) : Window :=
  ⟨x.toNat, y.toNat, (min (x.toNat + width.toNat) 319 : ℕ), (min (y.toNat + height.toNat) 239 : ℕ)⟩

variable {x y width height color : UInt16}

theorem flatten_replicate_pair (value : UInt16) (length : ℕ) :
    (List.replicate length [value, value]).flatten = List.replicate (2 * length) value := by
  induction length with
  | zero => rfl
  | succ length ih =>
    rw [List.replicate_succ, List.flatten_cons, ih, Nat.mul_succ, Nat.add_comm,
      ← List.replicate_append_replicate]
    rfl

/-- Both halves of the word are the colour. -/
theorem halves_of_color (color : UInt16) :
    ((color.toUInt32 <<< 16 ||| color.toUInt32) >>> 16).toUInt16 = color ∧
      (color.toUInt32 <<< 16 ||| color.toUInt32).toUInt16 = color := by
  have hcolor := color.toNat_lt
  have hword : (color.toUInt32 <<< 16 ||| color.toUInt32).toNat =
      color.toNat * 65536 + color.toNat := by
    have hsixteen : (16 : UInt32).toNat % 32 = 16 := rfl
    rw [UInt32.toNat_or, UInt32.toNat_shiftLeft, UInt16.toNat_toUInt32, hsixteen,
      Nat.shiftLeft_eq, Nat.mod_eq_of_lt (by omega), ← Nat.shiftLeft_eq,
      ← Nat.shiftLeft_add_eq_or_of_lt (by omega), Nat.shiftLeft_eq]
  constructor
  · have hsixteen : (16 : UInt32).toNat % 32 = 16 := rfl
    apply UInt16.toNat_inj.mp
    have hhigh : (color.toNat * 65536 + color.toNat) / 2 ^ 16 = color.toNat := by omega
    rw [UInt32.toNat_toUInt16, UInt32.toNat_shiftRight, hword, hsixteen,
      Nat.shiftRight_eq_div_pow, hhigh]
    omega
  · apply UInt16.toNat_inj.mp
    rw [UInt32.toNat_toUInt16, hword]
    omega

theorem tftFillData_eq (color : UInt16) (length : ℕ) :
    tftFillData (color.toUInt32 <<< 16 ||| color.toUInt32) length =
      .halves (List.replicate (2 * length) color) := by
  obtain ⟨hhigh, hlow⟩ := halves_of_color color
  rw [tftFillData, spiFillDataDma, hhigh, hlow, flatten_replicate_pair]

/-- The number of words that the driver streams. -/
def words (x y width height : UInt16) : ℕ :=
  (min (x.toNat + width.toNat) 319 - x.toNat) * (min (y.toNat + height.toNat) 239 - y.toNat) / 2

theorem firstCorner_of_lt {start limit : UInt16} (h : start.toNat < limit.toNat) :
    firstCorner start limit = start := by
  rw [firstCorner, if_neg]
  rw [ge_iff_le, UInt16.le_iff_toNat_le]
  omega

theorem lastCorner_toNat {start limit : UInt16} (h : start.toNat < limit.toNat) (length : UInt16) :
    (lastCorner start length limit).toNat =
      min (start.toNat + length.toNat) (limit.toNat - 1) := by
  have hlimit := limit.toNat_lt
  have hone : (1 : UInt16).toNat = 1 := rfl
  unfold lastCorner
  split_ifs with hclamp
  · rw [UInt16.toNat_sub, hone]
    omega
  · rw [UInt16.toNat_add]
    omega

/-- The driver selects its window and streams whole words of the colour. -/
theorem tftDrawRectangle_eq (hx : x.toNat < 320) (hy : y.toNat < 240)
    (width height color : UInt16) :
    ∃ x2 y2 : UInt16, tftDrawRectangle tftInfo x y width height color = tftSetArea x y x2 y2 ++
        [.halves (List.replicate (2 * words x y width height) color)] ∧
      x2.toNat = min (x.toNat + width.toNat) 319 ∧
      y2.toNat = min (y.toNat + height.toNat) 239 := by
  have hx2 : (lastCorner x width tftInfo.width).toNat = min (x.toNat + width.toNat) 319 :=
    lastCorner_toNat hx width
  have hy2 : (lastCorner y height tftInfo.height).toNat = min (y.toNat + height.toNat) 239 :=
    lastCorner_toNat hy height
  have hcolumns : (((min (x.toNat + width.toNat) 319 : ℕ) : ℤ) - x.toNat) =
      ((min (x.toNat + width.toNat) 319 - x.toNat : ℕ) : ℤ) := by
    omega
  have hrows : (((min (y.toNat + height.toNat) 239 : ℕ) : ℤ) - y.toNat) =
      ((min (y.toNat + height.toNat) 239 - y.toNat : ℕ) : ℤ) := by
    omega
  have hcount (columns rows : ℕ) :
      (((columns : ℤ) * rows).tdiv 2).toNat = columns * rows / 2 := by
    rw [← Int.natCast_mul]
    exact Int.toNat_natCast _
  refine ⟨_, _, ?_, hx2, hy2⟩
  simp only [tftDrawRectangle, firstCorner_of_lt (show x.toNat < tftInfo.width.toNat from hx),
    firstCorner_of_lt (show y.toNat < tftInfo.height.toNat from hy), hx2, hy2, hcolumns, hrows,
    hcount, tftFillData_eq, words]

/-- What the panel shows after the call. -/
theorem memory_tftDrawRectangle (hx : x.toNat < 320) (hy : y.toNat < 240)
    (width height color : UInt16) (panel : Panel) :
    (panel.receiveAll (tftDrawRectangle tftInfo x y width height color)).memory =
      fill (selected x y width height) 0 (List.replicate (2 * words x y width height) color)
        panel.memory := by
  obtain ⟨x2, y2, hrun, hx2, hy2⟩ := tftDrawRectangle_eq hx hy width height color
  rw [hrun, receiveAll_area_pixels, hx2, hy2]
  rfl

theorem window_tftDrawRectangle (hx : x.toNat < 320) (hy : y.toNat < 240)
    (width height color : UInt16) (panel : Panel) :
    (panel.receiveAll (tftDrawRectangle tftInfo x y width height color)).window =
      selected x y width height := by
  obtain ⟨x2, y2, hrun, hx2, hy2⟩ := tftDrawRectangle_eq hx hy width height color
  rw [hrun, receiveAll_area_pixels_window, hx2, hy2]
  rfl

theorem streamed_tftDrawRectangle (hx : x.toNat < 320) (hy : y.toNat < 240)
    (width height color : UInt16) :
    streamed (tftDrawRectangle tftInfo x y width height color) = 2 * words x y width height := by
  obtain ⟨x2, y2, hrun, _⟩ := tftDrawRectangle_eq hx hy width height color
  rw [hrun]
  simp [streamed, tftSetArea]

/-- The product of the differences is less than the area of an inclusive window. -/
theorem not_filled (hx : x.toNat < 320) (hy : y.toNat < 240) (width height color : UInt16)
    (panel : Panel) : ¬ Filled panel x y width height color := by
  intro hfilled
  rw [Filled, streamed_tftDrawRectangle hx hy, window_tftDrawRectangle hx hy, Window.size,
    Window.width, Window.height, selected] at hfilled
  obtain ⟨columns, hcolumns⟩ : ∃ columns, min (x.toNat + width.toNat) 319 = x.toNat + columns :=
    ⟨_, (Nat.add_sub_cancel' (by omega)).symm⟩
  obtain ⟨rows, hrows⟩ : ∃ rows, min (y.toNat + height.toNat) 239 = y.toNat + rows :=
    ⟨_, (Nat.add_sub_cancel' (by omega)).symm⟩
  have hwords : 2 * words x y width height ≤ columns * rows := by
    rw [words, hcolumns, hrows, Nat.add_sub_cancel_left, Nat.add_sub_cancel_left]
    omega
  have harea : ((x.toNat + columns : ℕ) - x.toNat + 1 : ℤ) * ((y.toNat + rows : ℕ) - y.toNat + 1) =
      ((columns + 1) * (rows + 1) : ℕ) := by
    push_cast
    ring
  have hmore : columns * rows < (columns + 1) * (rows + 1) := by
    rw [Nat.succ_mul_succ]
    omega
  rw [hcolumns, hrows, harea] at hfilled
  omega

/-- **Rectangles.** No rectangle is drawn as requested: the window is never filled. -/
theorem rectangle_never_drawn (hx : x.toNat < 320) (hy : y.toNat < 240)
    (width height color : UInt16) (panel : Panel) :
    ¬ (Filled panel x y width height color ∧ Painted panel x y width height color) :=
  fun hdrawn ↦ not_filled hx hy width height color panel hdrawn.1

/-- A red box of 100 columns and 50 rows. -/
theorem rectangle_never_drawn_box :
    ¬ (Filled ⟨0, (0, 0), (0, 0), 0, fun _ _ ↦ 0⟩ 40 30 100 50 0xf800 ∧
      Painted ⟨0, (0, 0), (0, 0), 0, fun _ _ ↦ 0⟩ 40 30 100 50 0xf800) :=
  rectangle_never_drawn (by decide) (by decide) 100 50 0xf800 _

/-- A rectangle of one pixel selects a window of four and streams none. -/
theorem single_pixel_is_not_drawn :
    ¬ ∀ (x y width height color : UInt16) (panel : Panel), x.toNat < 320 → y.toNat < 240 →
      1 ≤ width.toNat → 1 ≤ height.toNat →
        Filled panel x y width height color ∧ Painted panel x y width height color := by
  intro h
  have hpixel := (h 0 0 1 1 1 ⟨0, (0, 0), (0, 0), 0, fun _ _ ↦ 0⟩ (by decide) (by decide)
    (by decide) (by decide)).2 0 0 (by decide)
  exact absurd hpixel (by decide)

/-! ### Which rectangles look right -/

/-- The last requested pixel is streamed only in a single row of an even number of pixels. -/
theorem last_place_lt {columns rows right below : ℕ}
    (hright : right = columns ∨ right + 1 = columns) (hbelow : below = rows ∨ below + 1 = rows)
    (hlast : below * (columns + 1) + right < 2 * (columns * rows / 2)) :
    right + 1 = columns ∧ below + 1 = rows ∧ rows = 1 ∧ columns % 2 = 0 := by
  have heven : 2 * (columns * rows / 2) ≤ columns * rows := Nat.mul_div_le _ 2
  have hrows : columns * rows ≤ columns * (below + 1) := Nat.mul_le_mul_left _ (by omega)
  have hproduct : columns * (below + 1) = below * columns + columns := by ring
  have hplace : below * (columns + 1) = below * columns + below := by ring
  rcases hright with hright | hright
  · omega
  have hbelow_zero : below = 0 := by omega
  subst hbelow_zero
  rcases hbelow with rfl | rfl
  · simp at hlast
  · refine ⟨hright, rfl, rfl, ?_⟩
    rw [Nat.zero_mul, Nat.zero_add, Nat.zero_add, Nat.mul_one] at hlast
    omega

theorem painted_of_single_row (hx : x.toNat + width.toNat < 320) (hy : y.toNat + 1 < 240)
    (hheight : height.toNat = 1) (heven : width.toNat % 2 = 0) (color : UInt16) (panel : Panel) :
    Painted panel x y width height color := by
  have hwindow : selected x y width height =
      ⟨x.toNat, y.toNat, (x.toNat + width.toNat : ℕ), (y.toNat + 1 : ℕ)⟩ := by
    rw [selected, hheight, min_eq_left (by omega), min_eq_left (by omega)]
  have hlength : 2 * words x y width height = width.toNat := by
    rw [words, hheight, min_eq_left (by omega), min_eq_left (by omega), Nat.add_sub_cancel_left,
      Nat.add_sub_cancel_left, Nat.mul_one]
    omega
  intro i j _
  rw [memory_tftDrawRectangle (by omega) (by omega), hlength, hwindow, fill_row]
  · simp only [List.getElem?_replicate]
    by_cases hrequested : Requested x y width height i j
    · obtain ⟨⟨hleft, hright⟩, htop, hbottom⟩ := id hrequested
      rw [if_pos hrequested, if_pos (by omega), if_pos (by omega)]
      rfl
    · rw [if_neg hrequested]
      split_ifs with hfirst hreached
      · exact absurd ⟨⟨hfirst.2, by omega⟩, by omega, by omega⟩ hrequested
      · rfl
      · rfl
  · simp only [Window.width]
    omega
  · simp only [Window.height]
    omega
  · simp only [List.length_replicate, Window.width]
    omega

/-- **Painting.** The pixels themselves are right, whatever the panel shows, exactly for a single
row of an even number of pixels that ends before the last column and the last row. -/
theorem painted_iff (hx : x.toNat < 320) (hy : y.toNat < 240) (hwidth : 1 ≤ width.toNat)
    (hheight : 1 ≤ height.toNat) (color : UInt16) :
    (∀ panel, Painted panel x y width height color) ↔
      (x.toNat + width.toNat < 320 ∧ y.toNat + 1 < 240) ∧ height.toNat = 1 ∧
        width.toNat % 2 = 0 := by
  constructor
  · intro hpainted
    -- the last requested pixel, on a panel of another colour
    let i : ℕ := min (x.toNat + width.toNat) 320 - 1
    let j : ℕ := min (y.toNat + height.toNat) 240 - 1
    let panel : Panel := ⟨0, (0, 0), (0, 0), 0, fun _ _ ↦ color + 1⟩
    have hpixel := hpainted panel i j (screen_covers.mpr ⟨by omega, by omega⟩)
    have hrequested : Requested x y width height i j := ⟨by omega, by omega⟩
    rw [memory_tftDrawRectangle hx hy, if_pos hrequested] at hpixel
    have hcovers : (selected x y width height).Covers i j := by
      simp only [Window.Covers, selected]
      omega
    have hreached : (selected x y width height).offset i j < 2 * words x y width height := by
      by_contra hbeyond
      rw [fill_of_ge hcovers (by rw [List.length_replicate]; omega)] at hpixel
      exact absurd hpixel (by simp [panel])
    have hoffset : (selected x y width height).offset i j =
        ((j - y.toNat) * (min (x.toNat + width.toNat) 319 - x.toNat + 1) + (i - x.toNat) : ℕ) := by
      have hcolumns : (selected x y width height).width =
          (min (x.toNat + width.toNat) 319 - x.toNat + 1 : ℕ) := by
        simp only [Window.width, selected]
        omega
      have hrow : (j : ℤ) - y.toNat = (j - y.toNat : ℕ) := by omega
      rw [Window.offset, hcolumns, selected, hrow]
      push_cast
      omega
    rw [hoffset, words] at hreached
    have hlast := last_place_lt (by omega) (by omega) (Int.ofNat_lt.mp hreached)
    omega
  · rintro ⟨⟨hright, hbottom⟩, hone, heven⟩ panel
    exact painted_of_single_row hright hbottom hone heven color panel

/-! ## Pictures -/

/-- Every pixel of the picture is in its place, and no other pixel of the screen changes. -/
def Placed (panel : Panel) (x1 y1 width height : UInt16) (ptr : Block UInt16) : Prop :=
  ∃ transfers, tftDrawPicture x1 y1 width height ptr = .ok transfers ∧
    ∀ i j : ℤ, screen.Covers i j →
      (panel.receiveAll transfers).memory i j =
        if (x1.toNat ≤ i ∧ i < x1.toNat + width.toNat) ∧
            y1.toNat ≤ j ∧ j < y1.toNat + height.toNat then
          ptr.cell ((j - y1.toNat) * width.toNat + (i - x1.toNat))
        else panel.memory i j

variable {x1 y1 : UInt16} {ptr : Block UInt16}

theorem spiSendDataNormalDma_eq_ok {dataBuf : Block UInt16} {length : ℕ}
    (hlength : (length : ℤ) ≤ dataBuf.size) :
    spiSendDataNormalDma dataBuf length =
      .ok (.halves ((List.range length).map fun (index : ℕ) ↦ dataBuf.cell index)) := by
  have hread : ∀ index ∈ List.range length,
      dataBuf.read (index : ℤ) = .ok (dataBuf.cell (index : ℤ)) := by
    intro index hindex
    rw [List.mem_range] at hindex
    exact Block.read_eq_ok (by omega) (by omega)
  rw [spiSendDataNormalDma, mapM_eq_ok hread, ok_bind]
  rfl

/-- The whole picture is streamed into a window with one more column and one more row. -/
theorem tftDrawPicture_spec (hx : x1.toNat + width.toNat ≤ 320) (hy : y1.toNat + height.toNat ≤ 240)
    (hsize : ptr.size = (width.toNat * height.toNat : ℕ)) :
    ∃ transfers, tftDrawPicture x1 y1 width height ptr = .ok transfers ∧
      ∀ panel : Panel, (panel.receiveAll transfers).memory =
        fill ⟨x1.toNat, y1.toNat, (x1.toNat + width.toNat : ℕ), (y1.toNat + height.toNat : ℕ)⟩ 0
          ((List.range (width.toNat * height.toNat)).map fun (index : ℕ) ↦ ptr.cell index)
          panel.memory := by
  have hright : (x1 + width).toNat = x1.toNat + width.toNat := by
    rw [UInt16.toNat_add]
    omega
  have hbottom : (y1 + height).toNat = y1.toNat + height.toNat := by
    rw [UInt16.toNat_add]
    omega
  refine ⟨tftSetArea x1 y1 (x1 + width) (y1 + height) ++
    [.halves ((List.range (width.toNat * height.toNat)).map fun (index : ℕ) ↦ ptr.cell index)],
    ?_, fun panel ↦ ?_⟩
  · rw [tftDrawPicture, tftWriteHalf, spiSendDataNormalDma_eq_ok hsize.ge, ok_bind]
    rfl
  · rw [receiveAll_area_pixels, hright, hbottom]

/-- In a window with one more column, the last pixel of a picture of several rows has its place
beyond the data. -/
theorem last_pixel_beyond {width height : ℕ} (x1 y1 : ℕ) (hwidth : 1 ≤ width)
    (hheight : 2 ≤ height) :
    ((width * height : ℕ) : ℤ) ≤
      Window.offset ⟨x1, y1, (x1 + width : ℕ), (y1 + height : ℕ)⟩ (x1 + width - 1 : ℕ)
        (y1 + height - 1 : ℕ) := by
  obtain ⟨below, rfl⟩ : ∃ below, height = below + 2 := ⟨height - 2, by omega⟩
  have hrow : ((y1 + (below + 2) - 1 : ℕ) : ℤ) - y1 = below + 1 := by omega
  have hcolumn : ((x1 + width - 1 : ℕ) : ℤ) - x1 = width - 1 := by omega
  have hcolumns : ((x1 + width : ℕ) : ℤ) - x1 + 1 = width + 1 := by omega
  have hproduct : ((below : ℤ) + 1) * (width + 1) + (width - 1) =
      width * (below + 2) + below := by ring
  rw [Window.offset, Window.width, hrow, hcolumn, hcolumns, hproduct]
  push_cast
  omega

/-- The pixels of a single row fall into the first row of the window, in order. -/
theorem placed_of_single_row (hx : x1.toNat + width.toNat ≤ 320)
    (hy : y1.toNat + height.toNat ≤ 240) (hsize : ptr.size = (width.toNat * height.toNat : ℕ))
    (hone : height.toNat = 1) (panel : Panel) : Placed panel x1 y1 width height ptr := by
  obtain ⟨transfers, hrun, hmemory⟩ := tftDrawPicture_spec hx hy hsize
  refine ⟨transfers, hrun, fun i j _ ↦ ?_⟩
  rw [hmemory, hone, Nat.mul_one, fill_row]
  · simp only [List.getElem?_map]
    by_cases hplace : (x1.toNat ≤ i ∧ i < x1.toNat + width.toNat) ∧
        y1.toNat ≤ j ∧ j < y1.toNat + (1 : ℕ)
    · obtain ⟨⟨hleft, hright⟩, htop, hbottom⟩ := id hplace
      have hj : j = y1.toNat := by omega
      rw [if_pos hplace, if_pos ⟨hj, hleft⟩, List.getElem?_range (by omega), hj, sub_self,
        zero_mul, zero_add]
      exact congrArg ptr.cell (Int.toNat_of_nonneg (by omega))
    · rw [if_neg hplace]
      split_ifs with hfirst
      · have hright : ¬ i < x1.toNat + width.toNat := fun hlt ↦
          hplace ⟨⟨hfirst.2, hlt⟩, by omega, by omega⟩
        rw [List.getElem?_eq_none (by rw [List.length_range]; omega)]
        rfl
      · rfl
  · simp only [Window.width]
    omega
  · simp only [Window.height]
    omega
  · simp only [List.length_map, List.length_range, Window.width]
    omega

/-- **Pictures.** A picture is in its place on every panel exactly if it is a single row. -/
theorem picture_placed_iff (hx : x1.toNat + width.toNat ≤ 320)
    (hy : y1.toNat + height.toNat ≤ 240) (hwidth : 1 ≤ width.toNat) (hheight : 1 ≤ height.toNat)
    (hsize : ptr.size = (width.toNat * height.toNat : ℕ)) :
    (∀ panel, Placed panel x1 y1 width height ptr) ↔ height.toNat = 1 := by
  constructor
  · intro hplaced
    obtain ⟨transfers, hrun, hmemory⟩ := tftDrawPicture_spec hx hy hsize
    -- the last pixel of the picture, on a panel of another colour
    let i : ℕ := x1.toNat + width.toNat - 1
    let j : ℕ := y1.toNat + height.toNat - 1
    let place : ℤ := (j - y1.toNat) * width.toNat + (i - x1.toNat)
    let panel : Panel := ⟨0, (0, 0), (0, 0), 0, fun _ _ ↦ ptr.cell place + 1⟩
    obtain ⟨other, hother, hpixels⟩ := hplaced panel
    obtain rfl : other = transfers := Except.ok.inj (hother.symm.trans hrun)
    have hpixel := hpixels i j (screen_covers.mpr ⟨by omega, by omega⟩)
    rw [hmemory, if_pos ⟨by omega, by omega⟩] at hpixel
    have hcovers : Window.Covers ⟨x1.toNat, y1.toNat, (x1.toNat + width.toNat : ℕ),
        (y1.toNat + height.toNat : ℕ)⟩ i j := by
      simp only [Window.Covers]
      omega
    by_contra hrows
    rw [fill_of_ge hcovers] at hpixel
    · exact absurd hpixel (by simp [panel, place])
    · rw [List.length_map, List.length_range, zero_add]
      exact last_pixel_beyond x1.toNat y1.toNat hwidth (by omega)
  · exact placed_of_single_row hx hy hsize

/-- In a picture of two rows the fourth pixel is drawn in the place of the third. -/
theorem second_row_is_skewed :
    ¬ ∀ (x1 y1 width height : UInt16) (ptr : Block UInt16) (panel : Panel),
      x1.toNat + width.toNat ≤ 320 → y1.toNat + height.toNat ≤ 240 → 1 ≤ width.toNat →
        1 ≤ height.toNat → ptr.size = (width.toNat * height.toNat : ℕ) →
          Placed panel x1 y1 width height ptr := by
  intro h
  obtain ⟨transfers, hrun, hpixels⟩ := h 0 0 2 2 ⟨4, fun index ↦ UInt16.ofNat index.toNat⟩
    ⟨0, (0, 0), (0, 0), 0, fun _ _ ↦ 0⟩ (by decide) (by decide) (by decide) (by decide) (by decide)
  have htransfers : transfers = tftSetArea 0 0 2 2 ++ [.halves [0, 1, 2, 3]] :=
    Except.ok.inj (hrun.symm.trans rfl)
  have hpixel := hpixels 0 1 (by decide)
  rw [htransfers] at hpixel
  exact absurd hpixel (by decide)

/-- A row of two pixels is in its place. -/
theorem picture_placed_row :
    Placed ⟨0, (0, 0), (0, 0), 0, fun _ _ ↦ 0⟩ 0 0 2 1 ⟨2, fun index ↦ UInt16.ofNat index.toNat⟩ :=
  (picture_placed_iff (by decide) (by decide) (by decide) (by decide) (by decide)).mpr
    (by decide) _

end K210Firmware.Display.Drawing
