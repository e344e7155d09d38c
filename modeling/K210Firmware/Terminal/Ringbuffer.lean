import K210Firmware.Library.Fifo
import K210Firmware.Library.Memory
import Mathlib.Algebra.Order.Group.Int

/-!
# The ring buffer of the device drivers

`ringbuffer.c` keeps a read and a write index with a mirror bit each; equal indices mean an empty
buffer in the same mirror and a full one in different mirrors. `Represents` reads the queue off
the buffer, and `rtRingbufferPutchar_spec` and `rtRingbufferGetchar_spec` say that the two
character operations are those of a bounded queue.
-/

namespace K210Firmware.Terminal.Ringbuffer

open Memory Fifo

/-- `struct rt_ringbuffer`. -/
structure RtRingbuffer where
  bufferPtr : Block UInt8
  readMirror : Bool
  readIndex : ℤ
  writeMirror : Bool
  writeIndex : ℤ
  bufferSize : ℤ

/-- `enum rt_ringbuffer_state`. -/
inductive RtRingbufferState
  | empty
  | full
  | halffull
  deriving DecidableEq, Repr

/-- `RT_ALIGN_DOWN(size, RT_ALIGN_SIZE)`. -/
def alignDown (size : ℤ) : ℤ := size - size % 8

def rtRingbufferInit (pool : Block UInt8) (size : ℤ) : RtRingbuffer :=
  ⟨pool, false, 0, false, 0, alignDown size⟩

def rtRingbufferStatus (rb : RtRingbuffer) : RtRingbufferState :=
  if rb.readIndex = rb.writeIndex then
    if rb.readMirror = rb.writeMirror then .empty else .full
  else .halffull

def rtRingbufferDataLen (rb : RtRingbuffer) : ℤ :=
  match rtRingbufferStatus rb with
  | .empty => 0
  | .full => rb.bufferSize
  | .halffull =>
      if rb.writeIndex > rb.readIndex then rb.writeIndex - rb.readIndex
      else rb.bufferSize - (rb.readIndex - rb.writeIndex)

def rtRingbufferSpaceLen (rb : RtRingbuffer) : ℤ := rb.bufferSize - rtRingbufferDataLen rb

/-- The return value and the buffer. -/
def rtRingbufferPutchar (rb : RtRingbuffer) (ch : UInt8) : Except Fault (ℤ × RtRingbuffer) :=
  if rtRingbufferSpaceLen rb = 0 then return (0, rb)
  else do
    let bufferPtr ← rb.bufferPtr.write rb.writeIndex ch
    if rb.writeIndex = rb.bufferSize - 1 then
      return (1, { rb with bufferPtr, writeMirror := !rb.writeMirror, writeIndex := 0 })
    else return (1, { rb with bufferPtr, writeIndex := rb.writeIndex + 1 })

/-- The return value 0 leaves `*ch` alone; otherwise the character that is stored there. -/
def rtRingbufferGetchar (rb : RtRingbuffer) : Except Fault (Option UInt8 × RtRingbuffer) :=
  if rtRingbufferDataLen rb = 0 then return (none, rb)
  else do
    let ch ← rb.bufferPtr.read rb.readIndex
    if rb.readIndex = rb.bufferSize - 1 then
      return (some ch, { rb with readMirror := !rb.readMirror, readIndex := 0 })
    else return (some ch, { rb with readIndex := rb.readIndex + 1 })

/-! ## The queue in the buffer -/

/-- The queue that the buffer holds: its write index is behind the last character, in the same
mirror as its read index or in the other one. -/
structure Represents (rb : RtRingbuffer) (queue : List UInt8) : Prop where
  size : rb.bufferSize ≤ rb.bufferPtr.size
  stores : Stores rb.bufferPtr.cell rb.bufferSize rb.readIndex queue
  writeIndex_nonneg : 0 ≤ rb.writeIndex
  writeIndex_lt : rb.writeIndex < rb.bufferSize
  same_mirror : rb.readMirror = rb.writeMirror → rb.writeIndex = rb.readIndex + queue.length
  other_mirror : rb.readMirror ≠ rb.writeMirror →
    rb.writeIndex = rb.readIndex + queue.length - rb.bufferSize

variable {rb : RtRingbuffer} {queue : List UInt8}

theorem ne_of_eq_not {mirror other : Bool} (h : mirror = !other) : mirror ≠ other := by
  rw [h]
  cases other <;> decide

theorem eq_of_ne_not {mirror other : Bool} (h : mirror ≠ !other) : mirror = other := by
  rw [ne_eq, Bool.eq_not] at h
  exact not_not.mp h

theorem rtRingbufferInit_represents {pool : Block UInt8} {size : ℤ} (hsize : 0 < alignDown size)
    (hpool : alignDown size ≤ pool.size) : Represents (rtRingbufferInit pool size) [] :=
  ⟨hpool, stores_nil _ le_rfl hsize, le_rfl, hsize, fun _ ↦ rfl, fun hmirror ↦ absurd rfl hmirror⟩

/-- A pool of 64 bytes is used as a whole. -/
theorem init_64_represents (pool : ℤ → UInt8) : Represents (rtRingbufferInit ⟨64, pool⟩ 64) [] :=
  rtRingbufferInit_represents (by decide) (show alignDown 64 ≤ 64 by decide)

/-- The write index is the place behind the queue. -/
theorem Represents.writeIndex_eq (h : Represents rb queue) :
    rb.writeIndex = place rb.bufferSize rb.readIndex queue.length := by
  have hnonneg := h.writeIndex_nonneg
  have hlt := h.writeIndex_lt
  unfold place
  by_cases hmirror : rb.readMirror = rb.writeMirror
  · have hindex := h.same_mirror hmirror
    rw [if_pos (by omega), hindex]
  · have hindex := h.other_mirror hmirror
    rw [if_neg (by omega), hindex]

theorem Represents.dataLen_eq (h : Represents rb queue) :
    rtRingbufferDataLen rb = queue.length := by
  have hsame := h.same_mirror
  have hother := h.other_mirror
  have hnonneg := h.stores.first_nonneg
  have hlt := h.stores.first_lt
  have hlength := h.stores.length_le
  unfold rtRingbufferDataLen rtRingbufferStatus
  by_cases hmirror : rb.readMirror = rb.writeMirror
  · have hindex := hsame hmirror
    by_cases hequal : rb.readIndex = rb.writeIndex
    · rw [if_pos hequal, if_pos hmirror]
      simp only
      omega
    · rw [if_neg hequal]
      simp only
      rw [if_pos (by omega)]
      omega
  · have hindex := hother hmirror
    by_cases hequal : rb.readIndex = rb.writeIndex
    · rw [if_pos hequal, if_neg hmirror]
      simp only
      omega
    · rw [if_neg hequal]
      simp only
      rw [if_neg (by omega)]
      omega

theorem Represents.spaceLen_eq_zero_iff (h : Represents rb queue) :
    rtRingbufferSpaceLen rb = 0 ↔ (queue.length : ℤ) = rb.bufferSize := by
  unfold rtRingbufferSpaceLen
  rw [h.dataLen_eq]
  omega

/-- **Putting** a character fails exactly on a full buffer, and otherwise appends it. -/
theorem rtRingbufferPutchar_spec (h : Represents rb queue) (ch : UInt8) :
    ((queue.length : ℤ) = rb.bufferSize ∧ rtRingbufferPutchar rb ch = .ok (0, rb)) ∨
      ((queue.length : ℤ) < rb.bufferSize ∧ ∃ after,
        rtRingbufferPutchar rb ch = .ok (1, after) ∧ after.bufferSize = rb.bufferSize ∧
          Represents after (queue ++ [ch])) := by
  by_cases hfull : (queue.length : ℤ) = rb.bufferSize
  · refine .inl ⟨hfull, ?_⟩
    unfold rtRingbufferPutchar
    rw [if_pos (h.spaceLen_eq_zero_iff.mpr hfull)]
    rfl
  · have hlength := h.stores.length_le
    have hroom : (queue.length : ℤ) < rb.bufferSize := by omega
    have hpushed := h.stores.push hroom ch
    rw [← h.writeIndex_eq] at hpushed
    have hnonneg := h.writeIndex_nonneg
    have hlt := h.writeIndex_lt
    have hfirst := h.stores.first_nonneg
    have hfirst_lt := h.stores.first_lt
    have hsame := h.same_mirror
    have hother := h.other_mirror
    refine .inr ⟨hroom, ?_⟩
    unfold rtRingbufferPutchar
    rw [if_neg (mt h.spaceLen_eq_zero_iff.mp hfull),
      Block.write_eq_ok hnonneg (hlt.trans_le h.size), ok_bind]
    by_cases hlast : rb.writeIndex = rb.bufferSize - 1
    · rw [if_pos hlast]
      refine ⟨_, rfl, rfl, h.size, hpushed, le_rfl, (by omega : (0 : ℤ) < rb.bufferSize),
        fun hmirror ↦ ?_, fun hmirror ↦ ?_⟩
      · have hindex := hother (ne_of_eq_not hmirror)
        simp only [List.length_append, List.length_singleton]
        omega
      · have hindex := hsame (eq_of_ne_not hmirror)
        simp only [List.length_append, List.length_singleton]
        push_cast
        omega
    · rw [if_neg hlast]
      refine ⟨_, rfl, rfl, h.size, hpushed, ?_, ?_, fun hmirror ↦ ?_, fun hmirror ↦ ?_⟩
      · simp only
        omega
      · simp only
        omega
      · have hindex := hsame hmirror
        simp only [List.length_append, List.length_singleton]
        push_cast
        omega
      · have hindex := hother hmirror
        simp only [List.length_append, List.length_singleton]
        push_cast
        omega

/-- **Getting** a character fails exactly on an empty buffer, and otherwise takes the oldest. -/
theorem rtRingbufferGetchar_spec (h : Represents rb queue) :
    (queue = [] ∧ rtRingbufferGetchar rb = .ok (none, rb)) ∨
      ∃ ch rest after, queue = ch :: rest ∧ rtRingbufferGetchar rb = .ok (some ch, after) ∧
        after.bufferSize = rb.bufferSize ∧ Represents after rest := by
  rcases queue with _ | ⟨ch, rest⟩
  · refine .inl ⟨rfl, ?_⟩
    unfold rtRingbufferGetchar
    rw [if_pos (by rw [h.dataLen_eq]; rfl)]
    rfl
  · have hnonneg := h.stores.first_nonneg
    have hlt := h.stores.first_lt
    have hsame := h.same_mirror
    have hother := h.other_mirror
    have hwrite := h.writeIndex_nonneg
    have hwrite_lt := h.writeIndex_lt
    obtain ⟨hcell, hpopped⟩ := h.stores.pop
    refine .inr ⟨ch, rest, ?_⟩
    have hlength : ((ch :: rest).length : ℤ) = rest.length + 1 := by simp
    unfold rtRingbufferGetchar
    rw [if_neg (by rw [h.dataLen_eq]; omega), Block.read_eq_ok hnonneg (hlt.trans_le h.size),
      ok_bind, hcell]
    by_cases hlast : rb.readIndex = rb.bufferSize - 1
    · rw [if_pos hlast]
      have hplace : place rb.bufferSize rb.readIndex 1 = 0 := by
        unfold place
        rw [if_neg (by omega)]
        omega
      rw [hplace] at hpopped
      refine ⟨_, rfl, rfl, rfl, h.size, hpopped, hwrite, hwrite_lt, fun hmirror ↦ ?_,
        fun hmirror ↦ ?_⟩
      · have hindex := hother (ne_of_eq_not hmirror.symm).symm
        simp only
        omega
      · have hindex := hsame (eq_of_ne_not hmirror.symm).symm
        simp only
        omega
    · rw [if_neg hlast]
      have hplace : place rb.bufferSize rb.readIndex 1 = rb.readIndex + 1 := by
        unfold place
        rw [if_pos (by omega)]
      rw [hplace] at hpopped
      refine ⟨_, rfl, rfl, rfl, h.size, hpopped, hwrite, hwrite_lt, fun hmirror ↦ ?_,
        fun hmirror ↦ ?_⟩
      · have hindex := hsame hmirror
        simp only
        omega
      · have hindex := hother hmirror
        simp only
        omega

end K210Firmware.Terminal.Ringbuffer
