import K210Firmware.Library.CString
import K210Firmware.Library.Copy
import Mathlib.Data.List.Basic
import Mathlib.Data.List.TakeWhile

/-!
# String buffers of a fixed size

A buffer of `capacity` bytes that holds a text and zeros behind it. There is always room for one
NUL, so the text reads back as a C string from any of its characters. Storing over the text,
cutting its last character and clearing it keep the form.
-/

namespace K210Firmware.CString

open Memory

variable {Byte : Type} [Zero Byte]

/-- `while (test(*ptr) && ptr < stop) ptr++` -/
def skipWhile (test : Byte → Bool) (block : Block Byte) (stop ptr : ℕ) : Except Fault ℕ := do
  let c ← block.read ptr
  if _h : test c ∧ ptr < stop then skipWhile test block stop (ptr + 1)
  else return ptr
termination_by stop - ptr

/-- The block holds the text, with at least one zero behind it. -/
structure Padded (capacity : ℕ) (text : List Byte) (block : Block Byte) : Prop where
  size : block.size = capacity
  fits : text.length < capacity
  cell : ∀ k < capacity, block.cell k = text[k]?.getD 0

namespace Padded

variable {capacity k : ℕ} {text other values : List Byte} {block : Block Byte} {c : Byte}

theorem read (h : Padded capacity text block) (hk : k < capacity) :
    block.read k = .ok (text[k]?.getD 0) := by
  rw [Block.read_eq_ok (by omega) (by rw [h.size]; omega), h.cell k hk]

theorem read_inside (h : Padded capacity text block) (hk : k < text.length) :
    block.read k = .ok text[k] := by
  rw [h.read (hk.trans h.fits), List.getElem?_eq_getElem hk]
  rfl

theorem read_end (h : Padded capacity text block) : block.read text.length = .ok 0 := by
  rw [h.read h.fits, List.getElem?_eq_none le_rfl]
  rfl

/-- Copying out of the buffer. -/
theorem load (h : Padded capacity text block) {count : ℕ} (hcount : k + count ≤ capacity) :
    block.load k count = .ok ((List.range count).map fun i ↦ text[k + i]?.getD 0) := by
  rw [Block.load_eq_ok (by omega) (by rw [h.size]; omega)]
  congr 1
  apply List.map_congr_left
  intro i hi
  have hi := List.mem_range.mp hi
  rw [← Int.natCast_add, h.cell (k + i) (by omega)]

theorem load_inside (h : Padded capacity text block) {count : ℕ} (hcount : k + count ≤ text.length) :
    block.load k count = .ok ((text.drop k).take count) := by
  have hfits := h.fits
  rw [h.load (by omega)]
  congr 1
  apply List.ext_getElem
  · simp only [List.length_map, List.length_range, List.length_take, List.length_drop]
    omega
  · intro i hi _
    have hi : i < count := by simpa using hi
    simp [List.getElem?_eq_getElem (show k + i < text.length by omega)]

/-- The rest of the buffer is the rest of the text and zeros. -/
theorem load_rest (h : Padded capacity text block) (hk : k ≤ text.length) :
    block.load k (capacity - k) =
      .ok (text.drop k ++ List.replicate (capacity - text.length) 0) := by
  have hfits := h.fits
  rw [h.load (by omega)]
  congr 1
  apply List.ext_getElem
  · simp only [List.length_map, List.length_range, List.length_append, List.length_drop,
      List.length_replicate]
    omega
  · intro i hi _
    have hi : i < capacity - k := by simpa using hi
    rw [List.getElem_map, List.getElem_range, List.getElem_append]
    by_cases hin : k + i < text.length
    · rw [dif_pos (by simp only [List.length_drop]; omega)]
      simp [List.getElem?_eq_getElem hin]
    · rw [dif_neg (by simp only [List.length_drop]; omega)]
      simp [List.getElem?_eq_none (show text.length ≤ k + i by omega)]

/-- Only the cells inside the buffer matter. -/
theorem of_cell (h : Padded capacity text block) {next : Block Byte} (hsize : next.size = block.size)
    (hfits : other.length < capacity)
    (hcell : ∀ k < capacity, next.cell k = other[k]?.getD 0) : Padded capacity other next :=
  ⟨hsize.trans h.size, hfits, hcell⟩

/-- **Storing over the text.** -/
theorem overlay (h : Padded capacity text block) (hk : k ≤ text.length)
    (hfits : k + values.length < capacity) :
    Padded capacity (text.take k ++ values ++ text.drop (k + values.length))
      (block.overlay k values) := by
  have htext := h.fits
  refine h.of_cell rfl ?_ fun i hi ↦ ?_
  · simp only [List.length_append, List.length_take, List.length_drop]
    omega
  · rw [List.append_assoc]
    by_cases hbefore : i < k
    · rw [Block.overlay_cell_outside (by omega), h.cell i hi,
        List.getElem?_append_left (by rw [List.length_take]; omega), List.getElem?_take_of_lt hbefore]
    · rw [List.getElem?_append_right (by rw [List.length_take]; omega), List.length_take,
        min_eq_left hk]
      by_cases hinside : i < k + values.length
      · have hcell : values[i - k]? = some ((block.overlay k values).cell i) :=
          Block.overlay_cell_inside (by omega) (by omega)
        rw [List.getElem?_append_left (by omega), hcell]
        rfl
      · rw [Block.overlay_cell_outside (by omega), h.cell i hi,
          List.getElem?_append_right (by omega), List.getElem?_drop]
        congr 2
        omega

theorem store (h : Padded capacity text block)
    (hfits : k + values.length < capacity) :
    block.store k values = .ok (block.overlay k values) := by
  apply Block.store_eq_ok (by omega)
  rw [h.size]
  omega

/-- Storing a string with its NUL, when the string reaches the end of the text. -/
theorem store_string (h : Padded capacity text block) (hk : k ≤ text.length)
    (hlong : text.length ≤ k + values.length) (hfits : k + values.length < capacity) :
    ∃ next, block.store k (values ++ [0]) = .ok next ∧
      Padded capacity (text.take k ++ values) next := by
  refine ⟨block.overlay k (values ++ [0]), ?_, h.of_cell rfl ?_ fun i hi ↦ ?_⟩
  · apply Block.store_eq_ok (by omega)
    rw [h.size, List.length_append, List.length_singleton]
    omega
  · rw [List.length_append, List.length_take]
    omega
  · by_cases hbefore : i < k
    · rw [Block.overlay_cell_outside (by omega), h.cell i hi,
        List.getElem?_append_left (by rw [List.length_take]; omega), List.getElem?_take_of_lt hbefore]
    · rw [List.getElem?_append_right (by rw [List.length_take]; omega), List.length_take,
        min_eq_left hk]
      by_cases hinside : i < k + (values ++ [0]).length
      · have hcell : (values ++ [0])[i - k]? = some ((block.overlay k (values ++ [0])).cell i) :=
          Block.overlay_cell_inside (by omega) (by omega)
        rw [← Option.getD_some (a := (block.overlay k (values ++ [0])).cell i) (b := 0), ← hcell,
          List.getElem?_append]
        split_ifs with hvalue
        · rfl
        · rw [List.length_append, List.length_singleton] at hinside
          have hlast : i - k - values.length = 0 := by omega
          rw [hlast, List.getElem?_eq_none (l := values) (by omega)]
          rfl
      · rw [List.length_append, List.length_singleton] at hinside
        rw [Block.overlay_cell_outside (by rw [List.length_append, List.length_singleton]; omega),
          h.cell i hi, List.getElem?_eq_none (by omega), List.getElem?_eq_none (by omega)]

/-- Storing one character. -/
theorem write (h : Padded capacity text block) (hk : k ≤ text.length) (hfits : k + 1 < capacity) :
    ∃ next, block.write k c = .ok next ∧
      Padded capacity (text.take k ++ c :: text.drop (k + 1)) next := by
  refine ⟨block.overlay k [c], ?_, ?_⟩
  · have hstore : block.store k [c] = .ok (block.overlay k [c]) := h.store hfits
    rw [Block.store] at hstore
    obtain ⟨next, hnext, hrest⟩ := bind_eq_ok.mp hstore
    rw [Block.store] at hrest
    rw [hnext, hrest]
  · simpa using h.overlay (k := k) hk (show k + [c].length < capacity from hfits)

/-- Another character in place of one of the text. -/
theorem replace {front back : List Byte} {old : Byte}
    (h : Padded capacity (front ++ old :: back) block) :
    ∃ next, block.write front.length c = .ok next ∧ Padded capacity (front ++ c :: back) next := by
  have hfits := h.fits
  rw [List.length_append, List.length_cons] at hfits
  obtain ⟨next, hnext, hpadded⟩ := h.write (k := front.length) (c := c) (by simp) (by omega)
  refine ⟨next, hnext, ?_⟩
  simpa using hpadded

/-- A NUL behind the text changes nothing. -/
theorem write_end (h : Padded capacity text block) :
    ∃ next, block.write text.length 0 = .ok next ∧ Padded capacity text next := by
  have hfits := h.fits
  refine ⟨_, Block.write_eq_ok (by omega) (by rw [h.size]; omega), h.of_cell rfl hfits fun i hi ↦ ?_⟩
  rcases eq_or_ne i text.length with rfl | hne
  · simp
  · rw [← h.cell i hi]
    exact Function.update_of_ne (by omega) _ _

/-- A NUL over the last character cuts it off. -/
theorem write_last (h : Padded capacity text block) (hlength : text.length = k + 1) :
    ∃ next, block.write k 0 = .ok next ∧ Padded capacity (text.take k) next := by
  have hfits := h.fits
  obtain ⟨next, hnext, hpadded⟩ := h.write (k := k) (c := 0) (by omega) (by omega)
  refine ⟨next, hnext, hpadded.of_cell rfl (by rw [List.length_take]; omega) fun i hi ↦ ?_⟩
  have hcell := hpadded.cell i hi
  rw [hcell, List.drop_eq_nil_iff.mpr (by omega)]
  by_cases hbefore : i < k
  · rw [List.getElem?_append_left (by rw [List.length_take]; omega)]
  · rw [List.getElem?_append_right (by rw [List.length_take]; omega),
      List.getElem?_eq_none (l := text.take k) (by rw [List.length_take]; omega)]
    rcases eq_or_ne i k with rfl | hne
    · rw [List.length_take, min_eq_left (by omega), Nat.sub_self]
      rfl
    · rw [List.getElem?_eq_none (by simp only [List.length_take, List.length_singleton]; omega)]

/-- `memcpy(block, source, capacity)`. -/
theorem copy {source : Block Byte} (h : Padded capacity text block)
    (hsource : Padded capacity other source) :
    ∃ bytes next, source.load 0 capacity = .ok bytes ∧ block.store 0 bytes = .ok next ∧
      Padded capacity other next := by
  have hload : source.load 0 capacity =
      .ok ((List.range capacity).map fun k : ℕ ↦ source.cell (0 + k)) :=
    Block.load_eq_ok (by omega) (by rw [hsource.size]; omega)
  refine ⟨_, _, hload, Block.store_eq_ok (by omega) ?_, h.of_cell rfl hsource.fits fun i hi ↦ ?_⟩
  · rw [h.size]
    simp
  · have hcell : ((List.range capacity).map fun k : ℕ ↦ source.cell (0 + k))[i]? =
        some ((block.overlay 0 _).cell i) :=
      Block.overlay_cell_inside (by omega) (by simpa using hi)
    rw [List.getElem?_map, List.getElem?_range hi] at hcell
    rw [← Option.some.inj hcell]
    simp only [Int.zero_add]
    exact hsource.cell i hi

/-- **Skipping.** The loop stops where the test fails, or at the end of the text. -/
theorem skipWhile {done rest : List Byte} (h : Padded capacity (done ++ rest) block)
    (test : Byte → Bool) {stop : ℕ}
    (hstop : stop = (done ++ rest).length ∨ (done ++ rest).length ≤ stop ∧ test 0 = false) :
    skipWhile test block stop done.length =
      .ok (done.length + (rest.takeWhile test).length) := by
  induction rest generalizing done with
  | nil =>
    rw [List.append_nil] at h hstop
    rw [CString.skipWhile, h.read_end, ok_bind, dif_neg (by grind)]
    rfl
  | cons c rest ih =>
    have hlength : (done ++ c :: rest).length = done.length + (rest.length + 1) := by simp
    have hread := h.read_inside (k := done.length) (by omega)
    rw [List.getElem_append_right (by omega)] at hread
    have hread : block.read done.length = .ok c := by simpa using hread
    rw [CString.skipWhile, hread, ok_bind]
    by_cases htest : test c = true
    · have hnext : done ++ c :: rest = (done ++ [c]) ++ rest := by simp
      rw [hnext] at h hstop
      have hrest := ih h hstop
      rw [List.length_append, List.length_singleton] at hrest
      rw [dif_pos ⟨htest, by grind⟩, hrest, List.takeWhile_cons_of_pos htest, List.length_cons]
      congr 1
      omega
    · rw [dif_neg (by grind), List.takeWhile_cons_of_neg htest]
      rfl

/-- `memset(block, 0, capacity)`. -/
theorem fill (hsize : block.size = capacity) (hpos : 0 < capacity) :
    Padded capacity [] (block.fill capacity 0) :=
  ⟨hsize, hpos, fun _ hi ↦ Block.fill_cell (by omega) (by omega)⟩

end Padded

/-! ## Strings -/

variable [DecidableEq Byte]

/-- The C string at an index of a block. -/
def cString (block : Block Byte) (index : ℤ) : Except Fault (List Byte) := do
  let memory ← block.load index (block.size - index).toNat
  scan memory

theorem scan_terminated (text rest : List Byte) :
    scan (text ++ 0 :: rest) = .ok (text.takeWhile (· ≠ 0)) := by
  induction text with
  | nil => simp [scan]
  | cons c text ih =>
    by_cases hc : c = 0
    · simp [scan, hc]
    · rw [List.cons_append, scan_cons hc, ih, List.takeWhile_cons_of_pos (by simpa using hc)]
      rfl

theorem takeWhile_ne_zero {text : List Byte} (htext : 0 ∉ text) :
    text.takeWhile (· ≠ 0) = text := by
  rw [List.takeWhile_eq_self_iff]
  intro c hc
  have hne : c ≠ 0 := by
    rintro rfl
    exact htext hc
  simpa using hne

namespace Padded

variable {capacity k : ℕ} {text other : List Byte} {block : Block Byte}

/-- The text reads back as a C string from any of its characters. -/
theorem cString (h : Padded capacity text block) (hk : k ≤ text.length) :
    cString block k = .ok ((text.drop k).takeWhile (· ≠ 0)) := by
  have hfits := h.fits
  have hcount : (block.size - k).toNat = capacity - k := by rw [h.size]; omega
  obtain ⟨spare, hspare⟩ : ∃ spare, capacity - text.length = spare + 1 :=
    ⟨capacity - text.length - 1, by omega⟩
  rw [CString.cString, hcount, h.load_rest hk, ok_bind, hspare, List.replicate_succ,
    scan_terminated]

/-- Two such buffers hold the same bytes only if they hold the same text. -/
theorem load_eq_iff {otherBlock : Block Byte} (h : Padded capacity text block)
    (hother : Padded capacity other otherBlock) (htext : 0 ∉ text) (hnul : 0 ∉ other) :
    block.load 0 capacity = otherBlock.load 0 capacity ↔ text = other := by
  have hleft := h.load_rest (Nat.zero_le _)
  have hright := hother.load_rest (Nat.zero_le _)
  rw [Nat.sub_zero] at hleft hright
  constructor
  · intro hload
    have hstring := h.cString (Nat.zero_le _)
    have hstring' := hother.cString (Nat.zero_le _)
    rw [CString.cString, h.size, Int.natCast_zero, Int.sub_zero, Int.toNat_natCast, hload] at hstring
    rw [CString.cString, hother.size, Int.natCast_zero, Int.sub_zero, Int.toNat_natCast] at hstring'
    have hsame := Except.ok.inj (hstring.symm.trans hstring')
    rwa [List.drop_zero, List.drop_zero, takeWhile_ne_zero htext, takeWhile_ne_zero hnul] at hsame
  · rintro rfl
    exact hleft.trans hright.symm

end Padded

/-! ## A string in front of anything -/

/-- A C string at the front of a block; what is behind its NUL is arbitrary. -/
structure HoldsString (text : List Byte) (block : Block Byte) : Prop where
  fits : text.length < block.size
  no_nul : 0 ∉ text
  cell : ∀ k ≤ text.length, block.cell k = text[k]?.getD 0

namespace HoldsString

variable {text : List Byte} {block : Block Byte}

omit [DecidableEq Byte] in
theorem load (h : HoldsString text block) {count : ℕ} (hcount : count ≤ text.length) :
    block.load 0 count = .ok (text.take count) := by
  have hfits := h.fits
  rw [Block.load_eq_ok (by omega) (by omega)]
  congr 1
  apply List.ext_getElem
  · rw [List.length_map, List.length_range, List.length_take, min_eq_left hcount]
  · intro k hk _
    rw [List.length_map, List.length_range] at hk
    rw [List.getElem_map, List.getElem_range, Int.zero_add, h.cell k (by omega), List.getElem_take,
      List.getElem?_eq_getElem (by omega), Option.getD_some]

theorem cString (h : HoldsString text block) : cString block 0 = .ok text := by
  have hfits := h.fits
  obtain ⟨spare, hspare⟩ : ∃ spare, (block.size - 0).toNat = text.length + 1 + spare :=
    ⟨block.size.toNat - text.length - 1, by omega⟩
  have hfront := h.load le_rfl
  rw [Block.load_eq_ok (by omega) (by omega), List.take_length] at hfront
  have hend : block.cell (0 + text.length) = 0 := by
    rw [Int.zero_add, h.cell _ le_rfl, List.getElem?_eq_none le_rfl, Option.getD_none]
  rw [CString.cString, hspare, Block.load_eq_ok (by omega) (by omega), ok_bind, List.range_add,
    List.range_succ, List.map_append, List.map_append, Except.ok.inj hfront, List.map_singleton,
    hend, List.append_assoc, List.singleton_append, scan_terminated, takeWhile_ne_zero h.no_nul]

omit [DecidableEq Byte] in
/-- A string that is copied to the front of a block. -/
theorem of_store (hnul : 0 ∉ text) (hfits : text.length < block.size) :
    ∃ next, block.store 0 (text ++ [0]) = .ok next ∧ next.size = block.size ∧
      HoldsString text next := by
  refine ⟨block.overlay 0 (text ++ [0]), ?_, rfl, ⟨hfits, hnul, fun k hk ↦ ?_⟩⟩
  · apply Block.store_eq_ok (by omega)
    rw [List.length_append, List.length_singleton]
    omega
  · have hcell : (text ++ [0])[k]? = some ((block.overlay 0 (text ++ [0])).cell k) := by
      apply Block.overlay_cell_inside (Int.zero_add _).symm
      rw [List.length_append, List.length_singleton]
      omega
    rcases hk.lt_or_eq with hlt | rfl
    · rw [List.getElem?_append_left hlt] at hcell
      rw [hcell, Option.getD_some]
    · rw [List.getElem?_concat_length] at hcell
      rw [List.getElem?_eq_none le_rfl, Option.getD_none]
      exact (Option.some.inj hcell).symm

omit [DecidableEq Byte] in
/-- The empty string. -/
theorem nil (hsize : 0 < block.size) (hcell : block.cell 0 = 0) : HoldsString [] block := by
  refine ⟨hsize, List.not_mem_nil, fun k hk ↦ ?_⟩
  obtain rfl : k = 0 := Nat.le_zero.mp hk
  exact hcell

omit [DecidableEq Byte] in
theorem of_write (hsize : 0 < block.size) :
    ∃ next, block.write 0 0 = .ok next ∧ next.size = block.size ∧ HoldsString [] next := by
  have hcell : Function.update block.cell 0 0 0 = 0 := by rw [Function.update_self]
  exact ⟨_, Block.write_eq_ok (by omega) hsize, rfl, .nil hsize hcell⟩

end HoldsString

/-! ## Buffers without a NUL -/

/-- No byte of the block ends a string. -/
def Unterminated (block : Block Byte) : Prop := ∀ k : ℕ, k < block.size → block.cell k ≠ 0

theorem scan_unterminated {text : List Byte} (htext : 0 ∉ text) :
    scan text = .error .outOfBounds := by
  rw [← List.append_nil text, scan_append htext]
  rfl

/-- A string is read beyond the end of the block. -/
theorem Unterminated.cString {block : Block Byte} {k : ℕ} (h : Unterminated block)
    (hk : k ≤ block.size) : cString block k = .error .outOfBounds := by
  rw [CString.cString, Block.load_eq_ok (by omega) (by omega), ok_bind]
  apply scan_unterminated
  intro hmem
  obtain ⟨i, hi, hzero⟩ := List.mem_map.mp hmem
  have hi := List.mem_range.mp hi
  rw [← Int.natCast_add] at hzero
  exact h (k + i) (by omega) hzero

omit [DecidableEq Byte] in
/-- All bytes of the block are written. -/
theorem unterminated_of_store {values : List Byte} {block : Block Byte} (hvalues : 0 ∉ values)
    (hfull : values.length = block.size) :
    ∃ next, block.store 0 values = .ok next ∧ Unterminated next := by
  refine ⟨_, Block.store_eq_ok (by omega) (by omega), fun k hk ↦ ?_⟩
  have hk : (k : ℤ) < block.size := hk
  have hcell : values[k]? = some ((block.overlay 0 values).cell k) :=
    Block.overlay_cell_inside (Int.zero_add _).symm (by omega)
  intro hzero
  rw [hzero] at hcell
  exact hvalues (List.mem_of_getElem? hcell)

omit [DecidableEq Byte] in
/-- The last byte of the block is written while the others hold a text. -/
theorem Padded.unterminated_of_write {capacity : ℕ} {text : List Byte} {block : Block Byte} {c : Byte}
    (h : Padded capacity text block) (htext : 0 ∉ text) (hfull : text.length + 1 = capacity)
    (hc : c ≠ 0) :
    ∃ next, block.write text.length c = .ok next ∧ Unterminated next := by
  have hsize := h.size
  refine ⟨_, Block.write_eq_ok (by omega) (by omega), fun k hk ↦ ?_⟩
  simp only at hk ⊢
  rcases eq_or_ne k text.length with rfl | hne
  · rwa [Function.update_self]
  · rw [Function.update_of_ne (by omega), h.cell k (by omega),
      List.getElem?_eq_getElem (by omega), Option.getD_some]
    intro hzero
    exact htext (hzero ▸ List.getElem_mem _)

omit [DecidableEq Byte] in
/-- The end of a text is moved up by one, onto the last byte of the block. -/
theorem Padded.unterminated_of_shift {capacity : ℕ} {front back : List Byte} {block : Block Byte}
    {c : Byte} (h : Padded capacity (front ++ back) block) (htext : 0 ∉ front ++ back)
    (hfull : (front ++ back).length + 1 = capacity) (hc : c ≠ 0) :
    ∃ moved next, block.store (front.length + 1 : ℕ) back = .ok moved ∧
      moved.write front.length c = .ok next ∧ next.size = capacity ∧ Unterminated next := by
  have hsize := h.size
  rw [List.length_append] at hfull
  refine ⟨_, _, Block.store_eq_ok (by omega) (by omega),
    Block.write_eq_ok (by omega) (by simp only [Block.overlay]; omega), hsize, fun k hk ↦ ?_⟩
  change Function.update (block.overlay _ _).cell _ _ _ ≠ 0
  have hk : (k : ℤ) < block.size := hk
  rcases Nat.lt_trichotomy k front.length with hlt | rfl | hgt
  · rw [Function.update_of_ne (by omega), Block.overlay_cell_outside (by omega), h.cell k (by omega),
      List.getElem?_append_left hlt, List.getElem?_eq_getElem hlt, Option.getD_some]
    intro hzero
    exact htext (List.mem_append_left _ (hzero ▸ List.getElem_mem _))
  · rwa [Function.update_self]
  · have hcell : back[k - (front.length + 1)]? =
        some ((block.overlay (front.length + 1 : ℕ) back).cell k) :=
      Block.overlay_cell_inside (by omega) (by omega)
    rw [Function.update_of_ne (by omega)]
    intro hzero
    rw [hzero] at hcell
    exact htext (List.mem_append_right _ (List.mem_of_getElem? hcell))

end K210Firmware.CString
