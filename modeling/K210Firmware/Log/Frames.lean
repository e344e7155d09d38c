import K210Firmware.Log.Ulog

/-!
# Frames in the buffer

What `do_output` stores is read back: a reader that has fetched a part of a frame goes on with the
next byte of it, and the whole of it gives the record that was logged.
-/

namespace K210Firmware.Log

open Memory Extent LittleEndian

variable {record : Record} {addr : ℕ}

/-! ## Round trip -/

structure Record.Valid (record : Record) : Prop where
  level_lt : record.level < 2 ^ 32
  tag_lt : record.tag < 2 ^ 64
  log_le : record.log.length ≤ ulogLineBufSize

@[simp]
theorem Record.length_bytes (record : Record) (addr : ℕ) :
    (record.bytes addr).length = sizeofUlogFrame + record.log.length := by
  rw [bytes, List.length_append, length_encode]
  rfl

theorem Record.Valid.blkSize_spec (h : record.Valid) :
    sizeofUlogFrame + record.log.length ≤ record.blkSize ∧ record.blkSize ≤ 280 := by
  have hlog := h.log_le
  simp only [Record.blkSize, Kernel.Slab.rtAlign, sizeofUlogFrame, ulogLineBufSize] at *
  omega

/-- The frame is read from any part of its bytes that holds the header. -/
theorem Record.Valid.ofBytes_take (h : record.Valid) (hfits : addr + sizeofUlogFrame < 2 ^ 64) {count : ℕ}
    (hcount : sizeofUlogFrame ≤ count) :
    UlogFrame.ofBytes ((record.bytes addr).take count) = record.frame addr := by
  have hlog := h.log_le
  have hlevel := h.level_lt
  have htag := h.tag_lt
  have hraw : record.isRaw.toNat < 2 := Bool.toNat_lt _
  simp only [ulogLineBufSize] at hlog
  have hlength : (encode (record.frame addr).words).length = 24 := length_encode _
  have hsplit : (record.bytes addr).take count =
      encode (record.frame addr).words ++ record.log.take (count - 24) := by
    rw [Record.bytes, List.take_append, hlength,
      List.take_of_length_le (hlength.trans_le hcount)]
  have hwords : ∀ field ∈ (record.frame addr).words, field.2 < 256 ^ field.1 := by
    simp only [sizeofUlogFrame] at hfits
    simp only [UlogFrame.words, Record.frame, ulogFrameMagic, sizeofUlogFrame, List.mem_cons,
      List.not_mem_nil, or_false, forall_eq_or_imp, forall_eq]
    omega
  have hdecode := decode_encode hwords (record.log.take (count - 24))
  rw [hsplit, UlogFrame.ofBytes]
  have hwidths : (record.frame addr).words.map Prod.fst = [4, 4, 8, 8] := rfl
  rw [hwidths] at hdecode
  rw [hdecode]
  simp only [UlogFrame.words, Record.frame, ulogFrameMagic, List.map_cons, List.map_nil,
    UlogFrame.mk.injEq, and_true]
  omega

/-- A reader of a part of the frame goes on with the next byte, if there is one. -/
theorem Record.Valid.nextAddr_eq (h : record.Valid) {ulog : Ulog} {reader : Reader}
    (haddr : ulog.addr reader.block = addr) (hfits : addr + sizeofUlogFrame < 2 ^ 64)
    (hfetched : reader.fetched <+: record.bytes addr) :
    ulog.nextAddr reader =
      if reader.fetched.length < (record.bytes addr).length then some (addr + reader.fetched.length)
      else none := by
  have htake : reader.fetched = (record.bytes addr).take reader.fetched.length :=
    List.prefix_iff_eq_take.mp hfetched
  have hle := hfetched.length_le
  rw [Record.length_bytes] at hle ⊢
  rw [Ulog.nextAddr, haddr]
  by_cases hheader : reader.fetched.length < sizeofUlogFrame
  · rw [if_pos hheader, if_pos (by omega)]
  · have hframe := h.ofBytes_take hfits (Nat.not_lt.mp hheader)
    rw [← htake] at hframe
    simp only [if_neg hheader, hframe, Record.frame, true_and]
    split_ifs with hmore hmore' hmore'
    · exact congrArg some (by omega)
    · omega
    · omega
    · rfl

/-- **Round trip.** The whole of the frame is printed as the record that was logged. -/
theorem Record.Valid.outputOf_bytes (h : record.Valid) (hfits : addr + sizeofUlogFrame < 2 ^ 64) :
    outputOf (record.bytes addr) = some record := by
  have hcount : sizeofUlogFrame ≤ (record.bytes addr).length := by simp
  have hframe := h.ofBytes_take hfits hcount
  rw [List.take_length] at hframe
  have hdrop : (record.bytes addr).drop sizeofUlogFrame = record.log :=
    List.drop_left' (length_encode _)
  rw [outputOf, hframe, hdrop, Record.frame]
  obtain ⟨level, tag, isRaw, log⟩ := record
  cases isRaw <;> rfl

/-! ## Frames in their blocks -/

/-- The bytes `data` are in memory from `addr` on. -/
def Stored (base : ℕ) (buf : Block UInt8) (addr : ℕ) (data : List UInt8) : Prop :=
  ∀ k < data.length, buf.cell ((addr + k : ℕ) - base : ℤ) = data.getD k 0

section Stored

variable {base : ℕ} {buf : Block UInt8} {data : List UInt8}

theorem Stored.nil : Stored base buf addr [] := fun _ hk ↦ absurd hk (Nat.not_lt_zero _)

/-- A byte stored outside leaves them as they are. -/
theorem Stored.write (h : Stored base buf addr data) {place : ℕ} {byte : UInt8}
    (houtside : place < addr ∨ addr + data.length ≤ place) :
    Stored base { buf with cell := Function.update buf.cell (place - base : ℤ) byte } addr data := by
  intro k hk
  have hne : ((addr + k : ℕ) - base : ℤ) ≠ place - base := by omega
  exact (Function.update_of_ne hne ..).trans (h k hk)

/-- The next byte of a frame. -/
theorem Stored.next {frame : List UInt8} {count : ℕ} (h : Stored base buf addr (frame.take count))
    (hcount : count < frame.length) {cell : ℤ → UInt8}
    (hcell : cell = Function.update buf.cell ((addr + count : ℕ) - base : ℤ) (frame.getD count 0)) :
    Stored base { buf with cell } addr (frame.take (count + 1)) := by
  intro k hk
  simp only [hcell]
  rw [List.length_take] at hk
  rcases Nat.lt_or_ge k count with hlt | hge
  · have hne : ((addr + k : ℕ) - base : ℤ) ≠ (addr + count : ℕ) - base := by omega
    rw [Function.update_of_ne hne, h k (by rw [List.length_take]; omega)]
    simp only [List.getD_eq_getElem?_getD, List.getElem?_take]
    rw [if_pos hlt, if_pos (by omega)]
  · obtain rfl : k = count := by omega
    rw [Function.update_self]
    simp only [List.getD_eq_getElem?_getD, List.getElem?_take]
    rw [if_pos (by omega)]

end Stored

/-- The block of number `block` holds the first `count` bytes of the frame of `record`, which is the
log of its number. -/
structure Keeps (rbb : RtRbb) (buf : Block UInt8) (accepted : List Record) (ids : ℕ → ℕ)
    (block : ℕ) (record : Record) (count : ℕ) : Prop where
  accepted : accepted[ids block]? = some record
  valid : record.Valid
  size : (rbb.blkSet block).size = record.blkSize
  stored : Stored rbb.buf buf (rbb.blkSet block).buf
    ((record.bytes (rbb.blkSet block).buf).take count)

namespace Keeps

variable {rbb : RtRbb} {buf : Block UInt8} {accepted : List Record} {ids : ℕ → ℕ}
  {block other count : ℕ}

/-- Only the place of the block matters. -/
theorem congr {rbb' : RtRbb} (h : Keeps rbb buf accepted ids block record count)
    (hbuf : rbb'.buf = rbb.buf)
    (hextent : (rbb'.blkSet block).extent = (rbb.blkSet block).extent) :
    Keeps rbb' buf accepted ids block record count := by
  have haddr : (rbb'.blkSet block).buf = (rbb.blkSet block).buf := congrArg Extent.first hextent
  have hsize : (rbb'.blkSet block).size = (rbb.blkSet block).size := congrArg Extent.count hextent
  refine ⟨h.accepted, h.valid, hsize.trans h.size, ?_⟩
  rw [hbuf, haddr]
  exact h.stored

/-- Another log gets a block. -/
theorem append (h : Keeps rbb buf accepted ids block record count) (hne : block ≠ other)
    (log : Record) (blkSize place : ℕ) :
    Keeps (rbb.append other blkSize place) buf (accepted ++ [log])
      (Function.update ids other accepted.length) block record count := by
  have hsame : (rbb.append other blkSize place).blkSet block = rbb.blkSet block :=
    RtRbb.append_blkSet_of_ne hne
  refine ⟨?_, h.valid, ?_, ?_⟩
  · rw [Function.update_of_ne hne, List.getElem?_append_left (List.getElem?_eq_some_iff.mp
      h.accepted).1]
    exact h.accepted
  · rw [hsame]
    exact h.size
  · rw [hsame]
    exact h.stored

/-- The frame lies in its block. -/
theorem frame_le (h : Keeps rbb buf accepted ids block record count) :
    ((record.bytes (rbb.blkSet block).buf).take count).length ≤ (rbb.blkSet block).size := by
  have hspec := h.valid.blkSize_spec
  rw [h.size, List.length_take, Record.length_bytes]
  omega

/-- A byte is stored in another block. -/
theorem write (h : Keeps rbb buf accepted ids block record count) {place : ℕ} {byte : UInt8}
    (hsound : rbb.Sound) (hblock : block ∈ rbb.blkList) (hother : other ∈ rbb.blkList)
    (hne : block ≠ other) (hplace : (rbb.blkSet other).extent.Holds place) :
    Keeps rbb { buf with cell := Function.update buf.cell (place - rbb.buf : ℤ) byte } accepted ids
      block record count := by
  refine ⟨h.accepted, h.valid, h.size, h.stored.write ?_⟩
  have hapart := hsound.apart hother hblock hne.symm place hplace
  have hle := h.frame_le
  simp only [RtRbbBlk.extent, Holds, stop] at hapart
  omega

end Keeps

end K210Firmware.Log
