import K210Firmware.Library.Copy
import K210Firmware.Library.Transition
import K210Firmware.Terminal.Ringbuffer
import Mathlib.Data.List.DropRight

/-!
# Block transfers of the ring buffer

The rest of `ringbuffer.c`: `rt_ringbuffer_put` and `rt_ringbuffer_get` copy as much of a block as
there is room or data, in one piece or in two; the forced operations discard the oldest data of a
full buffer. With all of them the buffer is a bounded queue, but for one case of
`rt_ringbuffer_put_force`.
-/

namespace K210Firmware.Terminal.Ringbuffer

open Memory Fifo

/-! ## The operations -/

/-- The copying of `rt_ringbuffer_put` and `rt_ringbuffer_put_force`: whether the block goes into the
other side of the mirror, and the buffer. -/
def copyIn (rb : RtRingbuffer) (ptr : List UInt8) (length : ℤ) :
    Except Fault (Bool × RtRingbuffer) :=
  if rb.bufferSize - rb.writeIndex > length then do
    let bufferPtr ← rb.bufferPtr.store rb.writeIndex (ptr.take length.toNat)
    return (false, { rb with bufferPtr, writeIndex := rb.writeIndex + length })
  else do
    let part := rb.bufferSize - rb.writeIndex
    let bufferPtr ← rb.bufferPtr.store rb.writeIndex (ptr.take part.toNat)
    let bufferPtr ← bufferPtr.store 0 ((ptr.drop part.toNat).take (length - part).toNat)
    return (true, { rb with
      bufferPtr
      writeMirror := !rb.writeMirror
      writeIndex := length - part })

/-- `ptr` has `length` bytes. -/
def rtRingbufferPut (rb : RtRingbuffer) (ptr : List UInt8) : Except Fault (ℤ × RtRingbuffer) :=
  let size := rtRingbufferSpaceLen rb
  if size = 0 then return (0, rb)
  else do
    let length := if size < ptr.length then size else ptr.length
    let (_, rb) ← copyIn rb ptr length
    return (length, rb)

def rtRingbufferPutForce (rb : RtRingbuffer) (ptr : List UInt8) :
    Except Fault (ℤ × RtRingbuffer) := do
  let spaceLength := rtRingbufferSpaceLen rb
  let ptr := if ptr.length > rb.bufferSize then ptr.drop (ptr.length - rb.bufferSize).toNat else ptr
  let (wraps, rb) ← copyIn rb ptr ptr.length
  if ptr.length > spaceLength then
    return (ptr.length, { rb with
      readMirror := if wraps then !rb.readMirror else rb.readMirror
      readIndex := rb.writeIndex })
  else return (ptr.length, rb)

/-- The bytes that are stored at `ptr`, and the buffer. -/
def rtRingbufferGet (rb : RtRingbuffer) (length : ℤ) : Except Fault (List UInt8 × RtRingbuffer) :=
  let size := rtRingbufferDataLen rb
  if size = 0 then return ([], rb)
  else
    let length := if size < length then size else length
    if rb.bufferSize - rb.readIndex > length then do
      let ptr ← rb.bufferPtr.load rb.readIndex length.toNat
      return (ptr, { rb with readIndex := rb.readIndex + length })
    else do
      let part := rb.bufferSize - rb.readIndex
      let ptr ← rb.bufferPtr.load rb.readIndex part.toNat
      let rest ← rb.bufferPtr.load 0 (length - part).toNat
      return (ptr ++ rest, { rb with readMirror := !rb.readMirror, readIndex := length - part })

def rtRingbufferPutcharForce (rb : RtRingbuffer) (ch : UInt8) : Except Fault RtRingbuffer := do
  let oldState := rtRingbufferStatus rb
  let bufferPtr ← rb.bufferPtr.write rb.writeIndex ch
  if rb.writeIndex = rb.bufferSize - 1 then
    let rb := { rb with bufferPtr, writeMirror := !rb.writeMirror, writeIndex := 0 }
    if oldState = .full then
      return { rb with readMirror := !rb.readMirror, readIndex := rb.writeIndex }
    else return rb
  else
    let rb := { rb with bufferPtr, writeIndex := rb.writeIndex + 1 }
    if oldState = .full then return { rb with readIndex := rb.writeIndex } else return rb

def rtRingbufferReset (rb : RtRingbuffer) : RtRingbuffer :=
  { rb with readMirror := false, readIndex := 0, writeMirror := false, writeIndex := 0 }

/-! ## Copying in -/

section Copying

variable {rb : RtRingbuffer} {queue : List UInt8} {ptr : List UInt8} {count : ℕ}

/-- The cells behind the write index hold the block, and the cells behind those are as they were. -/
structure CopiedIn (rb : RtRingbuffer) (block : List UInt8) (bufferPtr : Block UInt8) : Prop where
  size : bufferPtr.size = rb.bufferPtr.size
  new : ∀ k : ℕ, k < block.length →
    block[k]? = some (bufferPtr.cell (place rb.bufferSize rb.writeIndex k))
  old : ∀ k : ℕ, block.length ≤ k → k < rb.bufferSize →
    bufferPtr.cell (place rb.bufferSize rb.writeIndex k) =
      rb.bufferPtr.cell (place rb.bufferSize rb.writeIndex k)

theorem copyIn_spec (h : Represents rb queue) (hptr : count ≤ ptr.length)
    (hcount : count ≤ rb.bufferSize) :
    ∃ bufferPtr, CopiedIn rb (ptr.take count) bufferPtr ∧
      copyIn rb ptr count = .ok (decide (rb.bufferSize ≤ rb.writeIndex + count), { rb with
        bufferPtr
        writeMirror :=
          if rb.bufferSize ≤ rb.writeIndex + count then !rb.writeMirror else rb.writeMirror
        writeIndex := place rb.bufferSize rb.writeIndex count }) := by
  have hnonneg := h.writeIndex_nonneg
  have hlt := h.writeIndex_lt
  have hsize := h.size
  have hblock : (ptr.take count).length = count := List.length_take_of_le hptr
  unfold copyIn
  by_cases hfits : rb.bufferSize - rb.writeIndex > count
  · have hplace : place rb.bufferSize rb.writeIndex count = rb.writeIndex + count := by
      unfold place
      rw [if_pos (by omega)]
    rw [if_pos hfits, Int.toNat_natCast, Block.store_eq_ok hnonneg (by omega), ok_bind,
      decide_eq_false (by omega), if_neg (by omega), hplace]
    refine ⟨rb.bufferPtr.overlay rb.writeIndex (ptr.take count),
      ⟨rfl, fun k hk ↦ ?_, fun k hk hkSize ↦ ?_⟩, rfl⟩
    · refine Block.overlay_cell_inside ?_ hk
      unfold place
      rw [if_pos (by omega)]
    · refine Block.overlay_cell_outside ?_
      rw [hblock]
      unfold place
      split_ifs <;> omega
  · obtain ⟨part, hpart⟩ : ∃ part : ℕ, rb.bufferSize - rb.writeIndex = part :=
      ⟨_, (Int.toNat_of_nonneg (by omega)).symm⟩
    have hplace : place rb.bufferSize rb.writeIndex count = count - part := by
      unfold place
      rw [if_neg (by omega)]
      omega
    have hrest : ((count : ℤ) - part).toNat = count - part := by omega
    have hfirst : ptr.take part = (ptr.take count).take part := by
      rw [List.take_take, Nat.min_eq_left (by omega)]
    have hsecond : (ptr.drop part).take (count - part) = (ptr.take count).drop part :=
      (List.drop_take ..).symm
    have hfirstLength : ((ptr.take count).take part).length = part :=
      List.length_take_of_le (by omega)
    have hsecondLength : ((ptr.take count).drop part).length = count - part := by
      rw [List.length_drop, hblock]
    rw [if_neg hfits]
    simp only [hpart, Int.toNat_natCast, hrest, hfirst, hsecond]
    rw [Block.store_eq_ok hnonneg (by omega), ok_bind,
      Block.store_eq_ok (Int.le_refl 0) (by simp only [Block.overlay]; omega), ok_bind,
      decide_eq_true (by omega), if_pos (by omega), hplace]
    refine ⟨_, ⟨?_, fun k hk ↦ ?_, fun k hk hkSize ↦ ?_⟩, rfl⟩
    · rfl
    · rcases Nat.lt_or_ge k part with hlt' | hge
      · -- in the first piece, which the second one leaves alone
        have hk' : place rb.bufferSize rb.writeIndex k = rb.writeIndex + k := by
          unfold place
          rw [if_pos (by omega)]
        rw [Block.overlay_cell_outside (by rw [hsecondLength]; omega)]
        have hcell := @Block.overlay_cell_inside _ rb.bufferPtr _ _ _ _ hk'
          (hfirstLength.symm ▸ hlt')
        rwa [List.getElem?_take_of_lt hlt'] at hcell
      · have hk' : place rb.bufferSize rb.writeIndex k = 0 + (k - part : ℕ) := by
          unfold place
          rw [if_neg (by omega)]
          omega
        have hcell := @Block.overlay_cell_inside _
          (rb.bufferPtr.overlay rb.writeIndex ((ptr.take count).take part)) _ _ _ _ hk'
          (by rw [hsecondLength]; omega)
        rwa [List.getElem?_drop, Nat.add_sub_cancel' hge] at hcell
    · have hk' : place rb.bufferSize rb.writeIndex k = k - part := by
        unfold place
        rw [if_neg (by omega)]
        omega
      rw [Block.overlay_cell_outside (by rw [hsecondLength]; omega),
        Block.overlay_cell_outside (by omega)]

/-- The queue without its oldest `excess` values, and the block behind it. -/
theorem CopiedIn.stores {block : List UInt8} {bufferPtr : Block UInt8} (h : Represents rb queue)
    (hcopied : CopiedIn rb block bufferPtr) {excess : ℕ} (hexcess : excess ≤ queue.length)
    (hroom : (queue.length : ℤ) + block.length ≤ rb.bufferSize + excess) :
    Stores bufferPtr.cell rb.bufferSize (place rb.bufferSize rb.readIndex excess)
      (queue.drop excess ++ block) := by
  have hnonneg := h.stores.first_nonneg
  have hlt := h.stores.first_lt
  have hlength := h.stores.length_le
  have hwrite := h.writeIndex_eq
  have hdropped : (queue.drop excess).length = queue.length - excess := List.length_drop
  refine (h.stores.drop hexcess).append (by omega) (fun k hk ↦ ?_) fun age hage ↦ ?_
  · have hplace : place rb.bufferSize (place rb.bufferSize rb.readIndex excess)
        ((queue.drop excess).length + k : ℕ) = place rb.bufferSize rb.writeIndex k := by
      rw [hwrite, hdropped]
      unfold place
      split_ifs <;> omega
    rw [hplace]
    exact hcopied.new k hk
  · -- counted from the write index, the cell lies behind the block
    obtain ⟨offset, hoffset⟩ : ∃ offset : ℕ, rb.bufferSize + excess + age - queue.length = offset :=
      ⟨_, (Int.toNat_of_nonneg (by omega)).symm⟩
    have hplace : place rb.bufferSize (place rb.bufferSize rb.readIndex excess) age =
        place rb.bufferSize rb.writeIndex offset := by
      rw [hwrite, ← hoffset]
      unfold place
      split_ifs <;> omega
    rw [hplace]
    exact hcopied.old offset (by omega) (by omega)

/-- The block goes behind the queue. -/
theorem CopiedIn.represents {block : List UInt8} {bufferPtr : Block UInt8} (h : Represents rb queue)
    (hcopied : CopiedIn rb block bufferPtr)
    (hroom : (queue.length : ℤ) + block.length ≤ rb.bufferSize) :
    Represents { rb with
      bufferPtr
      writeMirror :=
        if rb.bufferSize ≤ rb.writeIndex + block.length then !rb.writeMirror else rb.writeMirror
      writeIndex := place rb.bufferSize rb.writeIndex block.length } (queue ++ block) := by
  have hnonneg := h.writeIndex_nonneg
  have hlt := h.writeIndex_lt
  have hsame := h.same_mirror
  have hother := h.other_mirror
  have hread := h.stores.first_lt
  have hstores := hcopied.stores h (Nat.zero_le _) (by omega)
  have hfirst : place rb.bufferSize rb.readIndex (0 : ℕ) = rb.readIndex := by
    unfold place
    rw [if_pos (by omega)]
    omega
  rw [hfirst, List.drop_zero] at hstores
  refine ⟨h.size.trans_eq hcopied.size.symm, hstores, place_nonneg hnonneg (by omega),
    place_lt hlt (by omega), fun hmirror ↦ ?_, fun hmirror ↦ ?_⟩
  · simp only [List.length_append] at hmirror ⊢
    unfold place
    push_cast
    split_ifs at hmirror with hwraps
    · have hindex := hother (ne_of_eq_not hmirror)
      rw [if_neg (by omega)]
      omega
    · have hindex := hsame hmirror
      rw [if_pos (by omega)]
      omega
  · simp only [List.length_append] at hmirror ⊢
    unfold place
    push_cast
    split_ifs at hmirror with hwraps
    · have hindex := hsame (eq_of_ne_not hmirror)
      rw [if_neg (by omega)]
      omega
    · have hindex := hother hmirror
      rw [if_pos (by omega)]
      omega

/-- **`rt_ringbuffer_put`** appends as much of the block as there is room for. -/
theorem rtRingbufferPut_spec (h : Represents rb queue) (ptr : List UInt8) :
    ∃ after, rtRingbufferPut rb ptr =
        .ok ((ptr.take (rb.bufferSize.toNat - queue.length)).length, after) ∧
      after.bufferSize = rb.bufferSize ∧
        Represents after (queue ++ ptr.take (rb.bufferSize.toNat - queue.length)) := by
  have hlength := h.stores.length_le
  have hspace : rtRingbufferSpaceLen rb = (rb.bufferSize.toNat - queue.length : ℕ) := by
    unfold rtRingbufferSpaceLen
    rw [h.dataLen_eq]
    omega
  unfold rtRingbufferPut
  simp only [hspace]
  by_cases hnone : rb.bufferSize.toNat - queue.length = 0
  · rw [if_pos (by omega), hnone, List.take_zero, List.append_nil]
    exact ⟨rb, rfl, rfl, h⟩
  · have htaken : (ptr.take (rb.bufferSize.toNat - queue.length)).length =
        min (rb.bufferSize.toNat - queue.length) ptr.length := List.length_take
    have hcut : (if ((rb.bufferSize.toNat - queue.length : ℕ) : ℤ) < ptr.length then
        ((rb.bufferSize.toNat - queue.length : ℕ) : ℤ) else ptr.length) =
          (ptr.take (rb.bufferSize.toNat - queue.length)).length := by
      split_ifs <;> omega
    rw [if_neg (by omega), hcut]
    obtain ⟨bufferPtr, hcopied, hcopy⟩ := @copyIn_spec rb queue ptr
      (ptr.take (rb.bufferSize.toNat - queue.length)).length h (by omega) (by omega)
    have hblock : ptr.take (ptr.take (rb.bufferSize.toNat - queue.length)).length =
        ptr.take (rb.bufferSize.toNat - queue.length) := by
      rw [htaken, ← List.take_take]
      simp
    rw [hblock] at hcopied
    rw [hcopy]
    exact ⟨_, rfl, rfl, hcopied.represents h (by omega)⟩

/-- Only the newest values of a block can be kept. -/
theorem rtake_append_rtake (size : ℕ) (values block : List UInt8) :
    (values ++ block.rtake size).rtake size = (values ++ block).rtake size := by
  simp only [List.rtake_eq_reverse_take_reverse, List.reverse_append, List.reverse_reverse,
    List.take_append, List.take_take, List.length_take, Nat.min_self]
  congr 3
  omega

theorem rtake_append_of_le {size : ℕ} {values block : List UInt8} (hblock : block.length ≤ size)
    (hlong : size ≤ values.length + block.length) :
    (values ++ block).rtake size =
      values.drop (values.length + block.length - size) ++ block := by
  rw [List.rtake, List.length_append, List.drop_append_of_le_length (by omega)]

/-- The block that `rt_ringbuffer_put_force` copies in. -/
theorem putForce_block {size : ℤ} (hsize : 0 ≤ size) (ptr : List UInt8) :
    (if (ptr.length : ℤ) > size then ptr.drop (ptr.length - size).toNat else ptr) =
      ptr.rtake size.toNat := by
  unfold List.rtake
  split_ifs with hlong
  · have hcut : ((ptr.length : ℤ) - size).toNat = ptr.length - size.toNat := by omega
    rw [hcut]
  · have hnone : ptr.length - size.toNat = 0 := by omega
    rw [hnone, List.drop_zero]

/-- **`rt_ringbuffer_put_force`** keeps the newest data, unless the block does not fit and goes into
the other side of a mirror that the queue has not entered: then the buffer is left empty. -/
theorem rtRingbufferPutForce_cases (h : Represents rb queue) (ptr : List UInt8) :
    ∃ after, rtRingbufferPutForce rb ptr = .ok ((ptr.rtake rb.bufferSize.toNat).length, after) ∧
      after.bufferSize = rb.bufferSize ∧
      if (queue.length + (ptr.rtake rb.bufferSize.toNat).length : ℤ) ≤ rb.bufferSize ∨
          rb.readMirror ≠ rb.writeMirror then
        Represents after ((queue ++ ptr).rtake rb.bufferSize.toNat)
      else Represents after [] := by
  have hlength := h.stores.length_le
  have hnonneg := h.writeIndex_nonneg
  have hlt := h.writeIndex_lt
  have hreadNonneg := h.stores.first_nonneg
  have hreadLt := h.stores.first_lt
  obtain ⟨block, hblock⟩ : ∃ block, block = ptr.rtake rb.bufferSize.toNat := ⟨_, rfl⟩
  have hshort : block.length ≤ rb.bufferSize.toNat := by
    rw [hblock, List.rtake, List.length_drop]
    omega
  have hspace : rtRingbufferSpaceLen rb = rb.bufferSize - queue.length := by
    unfold rtRingbufferSpaceLen
    rw [h.dataLen_eq]
  rw [← rtake_append_rtake, ← hblock]
  unfold rtRingbufferPutForce
  simp only [putForce_block (hnonneg.trans hlt.le) ptr, ← hblock, hspace]
  obtain ⟨bufferPtr, hcopied, hcopy⟩ := @copyIn_spec rb queue block block.length h (Nat.le_refl _)
    (by omega)
  rw [List.take_length] at hcopied
  rw [hcopy, ok_bind]
  by_cases hfits : (queue.length + block.length : ℤ) ≤ rb.bufferSize
  · have hall : (queue ++ block).rtake rb.bufferSize.toNat = queue ++ block := by
      rw [List.rtake, List.length_append, Nat.sub_eq_zero_of_le (by omega), List.drop_zero]
    simp only [if_pos (Or.inl hfits), hall]
    rw [if_neg (by omega)]
    exact ⟨_, rfl, rfl, hcopied.represents h (by omega)⟩
  · rw [if_pos (by omega)]
    have hstores := hcopied.stores h
      (show queue.length + block.length - rb.bufferSize.toNat ≤ queue.length by omega) (by omega)
    have hkept := rtake_append_of_le hshort
      (show rb.bufferSize.toNat ≤ queue.length + block.length by omega)
    have hfull : (queue.drop (queue.length + block.length - rb.bufferSize.toNat) ++ block).length =
        rb.bufferSize.toNat := by
      rw [List.length_append, List.length_drop]
      omega
    -- the read index is where the write index is
    have hindex : place rb.bufferSize rb.readIndex
        (queue.length + block.length - rb.bufferSize.toNat : ℕ) =
          place rb.bufferSize rb.writeIndex block.length := by
      rw [h.writeIndex_eq]
      unfold place
      split_ifs <;> omega
    rw [hindex, ← hkept] at hstores
    rw [← hkept] at hfull
    have hwriteNonneg : 0 ≤ place rb.bufferSize rb.writeIndex block.length :=
      place_nonneg hnonneg (by omega)
    have hwriteLt : place rb.bufferSize rb.writeIndex block.length < rb.bufferSize :=
      place_lt hlt (by omega)
    refine ⟨_, rfl, rfl, ?_⟩
    simp only [decide_eq_true_eq]
    by_cases hmirror : rb.readMirror = rb.writeMirror
    · rw [if_neg (by simp [hfits, hmirror])]
      refine ⟨h.size.trans_eq hcopied.size.symm, stores_nil _ hwriteNonneg hwriteLt, hwriteNonneg, hwriteLt,
        fun _ ↦ by simp, fun hne ↦ absurd ?_ hne⟩
      simp only
      split_ifs <;> rw [hmirror]
    · rw [if_pos (Or.inr hmirror)]
      refine ⟨h.size.trans_eq hcopied.size.symm, hstores, hwriteNonneg, hwriteLt, fun heq ↦ absurd heq ?_,
        fun _ ↦ ?_⟩
      · simp only
        split_ifs <;> simpa using hmirror
      · simp only [hfull]
        omega

theorem Represents.queue_unique {other : List UInt8} (h : Represents rb queue)
    (hother : Represents rb other) : queue.length = other.length := by
  have hlength := h.dataLen_eq
  rw [hother.dataLen_eq] at hlength
  omega

/-- **The failure of `rt_ringbuffer_put_force`.** It keeps the newest data exactly if the block fits
or the queue has entered the other side of the mirror; otherwise all data are lost. -/
theorem rtRingbufferPutForce_keeps_iff (h : Represents rb queue) (ptr : List UInt8) :
    (∃ length after, rtRingbufferPutForce rb ptr = .ok (length, after) ∧
        Represents after ((queue ++ ptr).rtake rb.bufferSize.toNat)) ↔
      (queue.length + (ptr.rtake rb.bufferSize.toNat).length : ℤ) ≤ rb.bufferSize ∨
        rb.readMirror ≠ rb.writeMirror := by
  obtain ⟨after, hrun, _, hcases⟩ := rtRingbufferPutForce_cases h ptr
  constructor
  · rintro ⟨length, other, hother, hkept⟩
    by_contra hlost
    rw [if_neg hlost] at hcases
    obtain rfl : after = other := congrArg Prod.snd (Except.ok.inj (hrun.symm.trans hother))
    have hlength := hkept.queue_unique hcases
    have hsize := h.stores.first_nonneg.trans_lt h.stores.first_lt
    rw [← rtake_append_rtake, List.rtake, List.length_drop, List.length_append,
      List.length_nil] at hlength
    omega
  · intro hcondition
    rw [if_pos hcondition] at hcases
    exact ⟨_, after, hrun, hcases⟩

/-- Six bytes for a buffer of eight that holds four. -/
theorem rtRingbufferPutForce_keeps_iff_lost : ∃ rb queue, Represents rb queue ∧
    ¬ ∃ length after, rtRingbufferPutForce rb [1, 2, 3, 4, 5, 6] = .ok (length, after) ∧
      Represents after ((queue ++ [1, 2, 3, 4, 5, 6]).rtake rb.bufferSize.toNat) := by
  have h : Represents ⟨⟨8, fun _ ↦ 0⟩, false, 2, false, 6, 8⟩ [0, 0, 0, 0] := by
    refine ⟨le_rfl, ⟨by decide, by decide, by decide, ?_⟩, by decide, by decide, fun _ ↦ rfl,
      fun hmirror ↦ absurd rfl hmirror⟩
    have hentry : ∀ age < 4, ([0, 0, 0, 0] : List UInt8)[age]? = some 0 := by decide
    exact hentry
  refine ⟨_, _, h, fun hkept ↦ ?_⟩
  have hcondition := (rtRingbufferPutForce_keeps_iff h [1, 2, 3, 4, 5, 6]).mp hkept
  revert hcondition
  decide

theorem Represents.full_iff (h : Represents rb queue) :
    rtRingbufferStatus rb = .full ↔ (queue.length : ℤ) = rb.bufferSize := by
  have hsame := h.same_mirror
  have hother := h.other_mirror
  have hlength := h.stores.length_le
  have hlt := h.stores.first_lt
  have hnonneg := h.stores.first_nonneg
  unfold rtRingbufferStatus
  by_cases hmirror : rb.readMirror = rb.writeMirror
  · have hindex := hsame hmirror
    have hwrite := h.writeIndex_lt
    split_ifs with hequal
    · exact iff_of_false nofun (by omega)
    · exact iff_of_false nofun (by omega)
  · have hindex := hother hmirror
    split_ifs with hequal
    · exact iff_of_true rfl (by omega)
    · exact iff_of_false nofun (by omega)

/-- A character copied in is a block of one. -/
theorem copiedIn_singleton (h : Represents rb queue) (ch : UInt8) :
    CopiedIn rb [ch]
      { rb.bufferPtr with cell := Function.update rb.bufferPtr.cell rb.writeIndex ch } := by
  have hlt := h.writeIndex_lt
  have hfirst : place rb.bufferSize rb.writeIndex (0 : ℕ) = rb.writeIndex := by
    unfold place
    rw [if_pos (by omega)]
    omega
  refine ⟨rfl, fun k hk ↦ ?_, fun k hk hkSize ↦ ?_⟩
  · obtain rfl : k = 0 := Nat.lt_one_iff.mp hk
    rw [hfirst]
    simp
  · have hne : place rb.bufferSize rb.writeIndex k ≠ rb.writeIndex := by
      rw [List.length_singleton] at hk
      unfold place
      split_ifs <;> omega
    exact Function.update_of_ne hne ..

/-- **`rt_ringbuffer_putchar_force`** drops the oldest character of a full buffer. -/
theorem rtRingbufferPutcharForce_spec (h : Represents rb queue) (ch : UInt8) :
    ∃ after, rtRingbufferPutcharForce rb ch = .ok after ∧ after.bufferSize = rb.bufferSize ∧
      Represents after ((queue ++ [ch]).rtake rb.bufferSize.toNat) := by
  have hlength := h.stores.length_le
  have hnonneg := h.writeIndex_nonneg
  have hlt := h.writeIndex_lt
  have hcopied := copiedIn_singleton h ch
  unfold rtRingbufferPutcharForce
  rw [Block.write_eq_ok hnonneg (hlt.trans_le h.size), ok_bind]
  have hnext : place rb.bufferSize rb.writeIndex (1 : ℕ) =
      if rb.writeIndex = rb.bufferSize - 1 then 0 else rb.writeIndex + 1 := by
    unfold place
    split_ifs <;> omega
  by_cases hfull : (queue.length : ℤ) = rb.bufferSize
  · have hstatus := h.full_iff.mpr hfull
    have hmirror : rb.readMirror ≠ rb.writeMirror := by
      intro hsame
      have hindex := h.same_mirror hsame
      have hread := h.stores.first_nonneg
      omega
    have hstores := hcopied.stores h (show 1 ≤ queue.length by omega)
      (by rw [List.length_singleton]; omega)
    have hwrite : rb.writeIndex = rb.readIndex := by
      have hindex := h.other_mirror hmirror
      omega
    have hkept : (queue ++ [ch]).rtake rb.bufferSize.toNat = queue.drop 1 ++ [ch] := by
      rw [rtake_append_of_le (by rw [List.length_singleton]; omega)
        (by rw [List.length_singleton]; omega), List.length_singleton]
      congr 2
      omega
    have hkeptLength : (queue.drop 1 ++ [ch]).length = rb.bufferSize.toNat := by
      rw [List.length_append, List.length_drop, List.length_singleton]
      omega
    rw [← hwrite, hnext] at hstores
    rw [hkept]
    split_ifs at hstores ⊢ with hlast
    · refine ⟨_, rfl, rfl, h.size, hstores, Int.le_refl _, hstores.first_lt,
        fun heq ↦ absurd heq ?_, fun _ ↦ ?_⟩
      · simpa using hmirror
      · simp only [hkeptLength]
        omega
    · refine ⟨_, rfl, rfl, h.size, hstores, hstores.first_nonneg, hstores.first_lt,
        fun heq ↦ absurd heq ?_, fun _ ↦ ?_⟩
      · simpa using hmirror
      · simp only [hkeptLength]
        omega
  · have hstatus : rtRingbufferStatus rb ≠ .full := mt h.full_iff.mp hfull
    have hnext' := hcopied.represents h (by rw [List.length_singleton]; omega)
    have hall : (queue ++ [ch]).rtake rb.bufferSize.toNat = queue ++ [ch] := by
      rw [List.rtake, List.length_append, List.length_singleton, Nat.sub_eq_zero_of_le (by omega),
        List.drop_zero]
    rw [hall]
    simp only [List.length_singleton, hnext] at hnext'
    split_ifs at hnext' ⊢ with hlast hwraps hwraps
    · exact ⟨_, rfl, rfl, hnext'⟩
    · omega
    · omega
    · exact ⟨_, rfl, rfl, hnext'⟩

/-! ## Copying out -/

/-- The cells of a stretch of the queue. -/
theorem map_range_place (h : Represents rb queue) {skip : ℕ} (hcount : skip + count ≤ queue.length) :
    (List.range count).map
        (fun k : ℕ ↦ rb.bufferPtr.cell (place rb.bufferSize rb.readIndex (skip + k : ℕ))) =
      (queue.drop skip).take count := by
  apply List.ext_getElem?
  intro k
  rw [List.getElem?_map, List.getElem?_take, List.getElem?_drop]
  rcases Nat.lt_or_ge k count with hlt | hge
  · rw [List.getElem?_range hlt, if_pos hlt]
    exact (h.stores.entry (skip + k) (by omega)).symm
  · rw [List.getElem?_eq_none (by rw [List.length_range]; exact hge),
      if_neg (Nat.not_lt.mpr hge)]
    rfl

/-- **`rt_ringbuffer_get`** takes the oldest values of the queue. -/
theorem rtRingbufferGet_spec (h : Represents rb queue) (length : ℕ) :
    ∃ after, rtRingbufferGet rb length = .ok (queue.take length, after) ∧
      after.bufferSize = rb.bufferSize ∧ Represents after (queue.drop length) := by
  have hlength := h.stores.length_le
  have hnonneg := h.stores.first_nonneg
  have hlt := h.stores.first_lt
  have hwrite := h.writeIndex_nonneg
  have hwriteLt := h.writeIndex_lt
  have hsame := h.same_mirror
  have hother := h.other_mirror
  have hsize := h.size
  unfold rtRingbufferGet
  simp only [h.dataLen_eq]
  by_cases hempty : queue.length = 0
  · obtain rfl := List.length_eq_zero_iff.mp hempty
    rw [if_pos (show (([] : List UInt8).length : ℤ) = 0 from rfl), List.take_nil, List.drop_nil]
    exact ⟨rb, rfl, rfl, h⟩
  · obtain ⟨count, hcount, htake, hdrop⟩ : ∃ count : ℕ,
        (if (queue.length : ℤ) < length then (queue.length : ℤ) else length) = count ∧
          queue.take length = queue.take count ∧ queue.drop length = queue.drop count := by
      split_ifs with hless
      · refine ⟨queue.length, rfl, ?_, ?_⟩
        · rw [List.take_length, List.take_of_length_le (by omega)]
        · rw [List.drop_length, List.drop_of_length_le (by omega)]
      · exact ⟨length, rfl, rfl, rfl⟩
    have hle : count ≤ queue.length := by
      split_ifs at hcount <;> omega
    have hstores := h.stores.drop hle
    have hdropped : (queue.drop count).length = queue.length - count := List.length_drop
    rw [if_neg (by omega), hcount, htake, hdrop]
    by_cases hfits : rb.bufferSize - rb.readIndex > count
    · have hplace (k : ℕ) (hk : k ≤ count) :
          place rb.bufferSize rb.readIndex (0 + k : ℕ) = rb.readIndex + k := by
        unfold place
        rw [if_pos (by omega), Nat.zero_add]
      have hcells : (List.range count).map (fun k : ℕ ↦ rb.bufferPtr.cell (rb.readIndex + k)) =
          queue.take count := by
        rw [← List.drop_zero (l := queue), ← map_range_place h (by omega)]
        apply List.map_congr_left
        intro k hk
        rw [hplace k (List.mem_range.mp hk).le]
      have hlast := hplace count (Nat.le_refl _)
      rw [Nat.zero_add] at hlast
      rw [hlast] at hstores
      rw [if_pos hfits, Int.toNat_natCast, Block.load_eq_ok hnonneg (by omega), ok_bind, hcells]
      refine ⟨_, rfl, rfl, hsize, hstores, hwrite, hwriteLt, fun hmirror ↦ ?_, fun hmirror ↦ ?_⟩
      · have hindex := hsame hmirror
        simp only
        omega
      · have hindex := hother hmirror
        simp only
        omega
    · obtain ⟨part, hpart⟩ : ∃ part : ℕ, rb.bufferSize - rb.readIndex = part :=
        ⟨_, (Int.toNat_of_nonneg (by omega)).symm⟩
      have hrest : ((count : ℤ) - part).toNat = count - part := by omega
      have hfirst : (List.range part).map (fun k : ℕ ↦ rb.bufferPtr.cell (rb.readIndex + k)) =
          queue.take part := by
        rw [← List.drop_zero (l := queue), ← map_range_place h (by omega)]
        apply List.map_congr_left
        intro k hk
        have hk := List.mem_range.mp hk
        congr 1
        unfold place
        rw [if_pos (by omega), Nat.zero_add]
      have hsecond : (List.range (count - part)).map (fun k : ℕ ↦ rb.bufferPtr.cell (0 + k)) =
          (queue.drop part).take (count - part) := by
        rw [← map_range_place h (by omega)]
        apply List.map_congr_left
        intro k hk
        have hk := List.mem_range.mp hk
        congr 1
        unfold place
        rw [if_neg (by omega)]
        omega
      have hboth : queue.take part ++ (queue.drop part).take (count - part) = queue.take count := by
        have hsplit := (List.take_add (l := queue) (i := part) (j := count - part)).symm
        rwa [Nat.add_sub_cancel' (by omega)] at hsplit
      have hlast : place rb.bufferSize rb.readIndex count = count - part := by
        unfold place
        rw [if_neg (by omega)]
        omega
      rw [hlast] at hstores
      rw [if_neg hfits]
      simp only [hpart, Int.toNat_natCast, hrest]
      rw [Block.load_eq_ok hnonneg (by omega), ok_bind, Block.load_eq_ok (Int.le_refl 0) (by omega),
        ok_bind, hfirst, hsecond, hboth]
      refine ⟨_, rfl, rfl, hsize, hstores, hwrite, hwriteLt, fun hmirror ↦ ?_, fun hmirror ↦ ?_⟩
      · have hindex := hother (ne_of_eq_not hmirror.symm).symm
        simp only
        omega
      · have hindex := hsame (eq_of_ne_not hmirror.symm).symm
        simp only
        omega

theorem rtRingbufferReset_spec (h : Represents rb queue) : Represents (rtRingbufferReset rb) [] :=
  ⟨h.size, stores_nil _ (Int.le_refl 0) (h.stores.first_nonneg.trans_lt h.stores.first_lt),
    Int.le_refl 0, h.stores.first_nonneg.trans_lt h.stores.first_lt, fun _ ↦ rfl,
    fun hmirror ↦ absurd rfl hmirror⟩

end Copying

/-! ## Sequences of operations -/

inductive RingOp
  | put (ptr : List UInt8)
  | putForce (ptr : List UInt8)
  | get (length : ℕ)
  | putchar (ch : UInt8)
  | putcharForce (ch : UInt8)
  | getchar
  | reset
  deriving DecidableEq, Repr

/-- The value that an operation returns and the bytes that it stores for its caller. -/
structure Answer where
  value : ℤ
  bytes : List UInt8
  deriving DecidableEq, Repr

/-- A bounded queue that answers the operations. -/
def queueStep (size : ℕ) (queue : List UInt8) : RingOp → Answer × List UInt8
  | .put ptr =>
      let block := ptr.take (size - queue.length)
      (⟨block.length, []⟩, queue ++ block)
  | .putForce ptr => (⟨(ptr.rtake size).length, []⟩, (queue ++ ptr).rtake size)
  | .get length => (⟨(queue.take length).length, queue.take length⟩, queue.drop length)
  | .putchar ch => if queue.length = size then (⟨0, []⟩, queue) else (⟨1, []⟩, queue ++ [ch])
  | .putcharForce ch => (⟨1, []⟩, (queue ++ [ch]).rtake size)
  | .getchar =>
      match queue with
      | [] => (⟨0, []⟩, [])
      | ch :: rest => (⟨1, [ch]⟩, rest)
  | .reset => (⟨0, []⟩, [])

def queueRun (size : ℕ) : List UInt8 → List RingOp → List Answer
  | _, [] => []
  | queue, op :: ops =>
      let (answer, queue) := queueStep size queue op
      answer :: queueRun size queue ops

/-- A ring buffer and the answers so far. -/
structure RingSession where
  rb : RtRingbuffer
  answers : List Answer

def ringAnswer (rb : RtRingbuffer) : RingOp → Except Fault (Answer × RtRingbuffer)
  | .put ptr => do
      let (length, rb) ← rtRingbufferPut rb ptr
      return (⟨length, []⟩, rb)
  | .putForce ptr => do
      let (length, rb) ← rtRingbufferPutForce rb ptr
      return (⟨length, []⟩, rb)
  | .get length => do
      let (ptr, rb) ← rtRingbufferGet rb length
      return (⟨ptr.length, ptr⟩, rb)
  | .putchar ch => do
      let (length, rb) ← rtRingbufferPutchar rb ch
      return (⟨length, []⟩, rb)
  | .putcharForce ch => do
      let rb ← rtRingbufferPutcharForce rb ch
      return (⟨1, []⟩, rb)
  | .getchar => do
      let (ch, rb) ← rtRingbufferGetchar rb
      return (⟨ch.toList.length, ch.toList⟩, rb)
  | .reset => return (⟨0, []⟩, rtRingbufferReset rb)

def ringStep (session : RingSession) (op : RingOp) : Except Fault RingSession := do
  let (answer, rb) ← ringAnswer session.rb op
  return ⟨rb, session.answers ++ [answer]⟩

/-- `rt_ringbuffer_put_force` is called only where it keeps the newest data. -/
def RingEnabled (session : RingSession) : RingOp → Prop
  | .putForce ptr =>
      rtRingbufferDataLen session.rb + (ptr.rtake session.rb.bufferSize.toNat).length ≤
          session.rb.bufferSize ∨ session.rb.readMirror ≠ session.rb.writeMirror
  | _ => True

def ringSystem : Transition.System RingSession RingOp Fault := ⟨RingEnabled, ringStep⟩

section Sequences

variable {rb : RtRingbuffer} {queue : List UInt8}

/-- **One operation** is that of the bounded queue. -/
theorem ringAnswer_refines (h : Represents rb queue) {answers : List Answer} {op : RingOp}
    (henabled : RingEnabled ⟨rb, answers⟩ op) :
    ∃ after, ringAnswer rb op = .ok ((queueStep rb.bufferSize.toNat queue op).1, after) ∧
      after.bufferSize = rb.bufferSize ∧
        Represents after (queueStep rb.bufferSize.toNat queue op).2 := by
  have hlength := h.stores.length_le
  cases op with
  | put ptr =>
    obtain ⟨after, hrun, hsize, hafter⟩ := rtRingbufferPut_spec h ptr
    exact ⟨after, by rw [ringAnswer, hrun]; rfl, hsize, hafter⟩
  | putForce ptr =>
    obtain ⟨after, hrun, hsize, hafter⟩ := rtRingbufferPutForce_cases h ptr
    rw [RingEnabled, h.dataLen_eq] at henabled
    rw [if_pos henabled] at hafter
    exact ⟨after, by rw [ringAnswer, hrun]; rfl, hsize, hafter⟩
  | get length =>
    obtain ⟨after, hrun, hsize, hafter⟩ := rtRingbufferGet_spec h length
    exact ⟨after, by rw [ringAnswer, hrun]; rfl, hsize, hafter⟩
  | putchar ch =>
    rcases rtRingbufferPutchar_spec h ch with ⟨hfull, hrun⟩ | ⟨hroom, after, hrun, hsize, hafter⟩
    · rw [queueStep, if_pos (by omega)]
      exact ⟨rb, by rw [ringAnswer, hrun]; rfl, rfl, h⟩
    · rw [queueStep, if_neg (by omega)]
      exact ⟨after, by rw [ringAnswer, hrun]; rfl, hsize, hafter⟩
  | putcharForce ch =>
    obtain ⟨after, hrun, hsize, hafter⟩ := rtRingbufferPutcharForce_spec h ch
    exact ⟨after, by rw [ringAnswer, hrun]; rfl, hsize, hafter⟩
  | getchar =>
    rcases rtRingbufferGetchar_spec h with ⟨rfl, hrun⟩ | ⟨ch, rest, after, rfl, hrun, hsize, hafter⟩
    · exact ⟨rb, by rw [ringAnswer, hrun]; rfl, rfl, h⟩
    · exact ⟨after, by rw [ringAnswer, hrun]; rfl, hsize, hafter⟩
  | reset => exact ⟨_, rfl, rfl, rtRingbufferReset_spec h⟩

theorem ringStep_refines {session : RingSession} (h : Represents session.rb queue) {op : RingOp}
    (henabled : RingEnabled session op) :
    ∃ after, ringStep session op = .ok ⟨after, session.answers ++
        [(queueStep session.rb.bufferSize.toNat queue op).1]⟩ ∧
      after.bufferSize = session.rb.bufferSize ∧
        Represents after (queueStep session.rb.bufferSize.toNat queue op).2 := by
  obtain ⟨after, hanswer, hsize, hafter⟩ := ringAnswer_refines h henabled
  refine ⟨after, ?_, hsize, hafter⟩
  rw [ringStep, hanswer]
  rfl

/-- **A run** answers as the bounded queue does. -/
theorem ringRun_refines {session last : RingSession} {ops : List RingOp}
    (h : Represents session.rb queue) (hrun : ringSystem.Run session ops last) :
    last.answers = session.answers ++ queueRun session.rb.bufferSize.toNat queue ops := by
  induction hrun generalizing queue with
  | nil session => rw [queueRun, List.append_nil]
  | @cons session next last op ops henabled hstep _ ih =>
    obtain ⟨after, hnext, hsize, hafter⟩ := ringStep_refines h henabled
    obtain rfl := Except.ok.inj (hstep.symm.trans hnext)
    rw [ih hafter, hsize, List.append_assoc]
    rfl

/-- **The ring buffer is a bounded queue.** In every sequence of operations each one answers as that
of a queue of `buffer_size` bytes does, and none leaves the buffer. -/
theorem ringbuffer_refines_queue {pool : Block UInt8} {size : ℤ} (hsize : 0 < alignDown size)
    (hpool : alignDown size ≤ pool.size) (ops : List RingOp) :
    ringSystem.Always (fun _ _ result ↦ ∃ next, result = .ok next)
        ⟨rtRingbufferInit pool size, []⟩ ops ∧
      ∀ last, ringSystem.Run ⟨rtRingbufferInit pool size, []⟩ ops last →
        last.answers = queueRun (alignDown size).toNat [] ops := by
  have hinit := rtRingbufferInit_represents hsize hpool
  constructor
  · rw [Transition.System.always_iff_forall_run]
    intro before op after reached _ hrun henabled
    have hpreserves : ∀ session op next, (∃ queue, Represents session.rb queue) →
        ringSystem.enabled session op → ringSystem.step session op = .ok next →
          ∃ queue, Represents next.rb queue := by
      rintro session op next ⟨queue, h⟩ henabled hstep
      obtain ⟨after, hnext, _, hafter⟩ := ringStep_refines h henabled
      obtain rfl := Except.ok.inj (hstep.symm.trans hnext)
      exact ⟨_, hafter⟩
    obtain ⟨queue, h⟩ := hrun.invariant hpreserves ⟨[], hinit⟩
    obtain ⟨next, hnext, _⟩ := ringStep_refines h henabled
    exact ⟨_, hnext⟩
  · intro last hrun
    have hanswers := ringRun_refines hinit hrun
    rwa [List.nil_append] at hanswers

theorem ringbuffer_refines_queue_wrapping :
    ringSystem.Always (fun _ _ result ↦ ∃ next, result = .ok next)
        ⟨rtRingbufferInit ⟨13, fun _ ↦ 0⟩ 13, []⟩ [.put [1, 2, 3, 4, 5, 6], .get 4, .put [7, 8, 9, 10]] ∧
      ∀ last, ringSystem.Run ⟨rtRingbufferInit ⟨13, fun _ ↦ 0⟩ 13, []⟩
          [.put [1, 2, 3, 4, 5, 6], .get 4, .put [7, 8, 9, 10]] last →
        last.answers = [⟨6, []⟩, ⟨4, [1, 2, 3, 4]⟩, ⟨4, []⟩] :=
  ringbuffer_refines_queue (by decide) (by decide) _

end Sequences

end K210Firmware.Terminal.Ringbuffer
