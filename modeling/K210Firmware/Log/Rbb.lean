import K210Firmware.Kernel.Pages
import K210Firmware.Library.RingBlocks
import K210Firmware.Library.Transition

/-!
# The ring block buffer

`ringblk_buf.c` hands out blocks of any size from one buffer. The descriptors of the blocks in use
are linked in the order in which they were taken, and a block is given back whenever its user is
done with it. `rt_rbb_blk_alloc` looks for room behind the last block and in front of the first one
only: that is enough to find room whenever there is any in ring order.
-/

namespace K210Firmware.Log

open Memory Extent Kernel.Pages

inductive RtRbbStatus
  | unused
  | inited
  | put
  | get
  deriving DecidableEq, Repr

/-- `struct rt_rbb_blk`; the links are kept with `blk_list`. -/
structure RtRbbBlk where
  status : RtRbbStatus
  size : ℕ
  buf : ℕ
  deriving DecidableEq, Repr

/-- `struct rt_rbb`. A block is named by its index in `blk_set`. -/
structure RtRbb where
  buf : ℕ
  bufSize : ℕ
  blkSet : ℕ → RtRbbBlk
  blkMaxNum : ℕ
  blkList : List ℕ

/-- The bytes of a block. -/
def RtRbbBlk.extent (block : RtRbbBlk) : Extent := ⟨block.buf, block.size⟩

namespace RtRbb

variable (rbb : RtRbb)

def whole : Extent := ⟨rbb.buf, rbb.bufSize⟩

def extents : List Extent := rbb.blkList.map fun i ↦ (rbb.blkSet i).extent

def setStatus (block : ℕ) (status : RtRbbStatus) : RtRbb :=
  { rbb with blkSet := Function.update rbb.blkSet block { rbb.blkSet block with status } }

/-- The block enters `blk_list` with status `RT_RBB_BLK_INITED`. -/
def append (newRbb blkSize addr : ℕ) : RtRbb :=
  { rbb with
    blkSet := Function.update rbb.blkSet newRbb ⟨.inited, blkSize, addr⟩
    blkList := rbb.blkList ++ [newRbb] }

end RtRbb

/-- A difference of pointers as a `rt_size_t`. -/
def ptrSub (ptr other : ℕ) : ℕ := (ptr + (2 ^ 64 - other)) % 2 ^ 64

def rtRbbInit (buf bufSize : ℕ) (blockSet : ℕ → RtRbbBlk) (blkMaxNum : ℕ) : RtRbb where
  buf
  bufSize
  blkSet i := if i < blkMaxNum then { blockSet i with status := .unused } else blockSet i
  blkMaxNum
  blkList := []

def findEmptyBlkInSet (rbb : RtRbb) : Option ℕ :=
  (List.range rbb.blkMaxNum).find? fun i ↦ (rbb.blkSet i).status = .unused

/-- Where `rt_rbb_blk_alloc` puts a block. -/
def blkAddr (rbb : RtRbb) (blkSize : ℕ) : Option ℕ :=
  match rbb.blkList.head?, rbb.blkList.getLast? with
  | some first, some last =>
      let head := rbb.blkSet first
      let tail := rbb.blkSet last
      if head.buf ≤ tail.buf then
        let empty1 := ptrSub (rbb.buf + rbb.bufSize) (tail.buf + tail.size)
        let empty2 := ptrSub head.buf rbb.buf
        if empty1 ≥ blkSize then some (tail.buf + tail.size)
        else if empty2 ≥ blkSize then some rbb.buf
        else none
      else
        let empty1 := ptrSub head.buf (tail.buf + tail.size)
        if empty1 ≥ blkSize then some (tail.buf + tail.size) else none
  -- the list is empty
  | _, _ => some rbb.buf

def rtRbbBlkAlloc (blkSize : ℕ) (rbb : RtRbb) : Except Fault (Option ℕ × RtRbb) := do
  rtAssert (blkSize < 2 ^ 24)
  match findEmptyBlkInSet rbb with
  | none => return (none, rbb)
  | some newRbb =>
      if rbb.blkList.length < rbb.blkMaxNum then
        match blkAddr rbb blkSize with
        | none => return (none, rbb)
        | some addr => return (some newRbb, rbb.append newRbb blkSize addr)
      else return (none, rbb)

def rtRbbBlkPut (block : ℕ) (rbb : RtRbb) : Except Fault RtRbb := do
  rtAssert ((rbb.blkSet block).status = .inited)
  return rbb.setStatus block .put

/-- The first block of `blk_list` that has been put. -/
def rtRbbBlkGet (rbb : RtRbb) : Option ℕ × RtRbb :=
  match rbb.blkList.find? fun i ↦ (rbb.blkSet i).status = .put with
  | some block => (some block, rbb.setStatus block .get)
  | none => (none, rbb)

def rtRbbBlkFree (block : ℕ) (rbb : RtRbb) : Except Fault RtRbb := do
  rtAssert ((rbb.blkSet block).status ≠ .unused)
  return { rbb.setStatus block .unused with blkList := rbb.blkList.erase block }

/-! ## Sound buffers -/

namespace RtRbb

/-- The descriptors in use are those of `blk_list`, and their blocks are in ring order. -/
structure Sound (rbb : RtRbb) : Prop where
  nodup : rbb.blkList.Nodup
  mem : ∀ i, i ∈ rbb.blkList ↔ i < rbb.blkMaxNum ∧ (rbb.blkSet i).status ≠ .unused
  ringed : Ringed rbb.whole rbb.extents
  fits : rbb.buf + rbb.bufSize < 2 ^ 64

variable {rbb : RtRbb} {block blkSize addr i : ℕ} {status : RtRbbStatus}

@[simp]
theorem setStatus_blkSet_same :
    (rbb.setStatus block status).blkSet block = { rbb.blkSet block with status } :=
  Function.update_self ..

theorem setStatus_blkSet_of_ne (h : i ≠ block) :
    (rbb.setStatus block status).blkSet i = rbb.blkSet i :=
  Function.update_of_ne h ..

@[simp]
theorem setStatus_extent (i : ℕ) :
    ((rbb.setStatus block status).blkSet i).extent = (rbb.blkSet i).extent := by
  rcases eq_or_ne i block with rfl | hne
  · rw [setStatus_blkSet_same]
    rfl
  · rw [setStatus_blkSet_of_ne hne]

theorem append_blkSet_same : (rbb.append block blkSize addr).blkSet block =
    ⟨.inited, blkSize, addr⟩ :=
  Function.update_self ..

theorem append_blkSet_of_ne (h : i ≠ block) :
    (rbb.append block blkSize addr).blkSet i = rbb.blkSet i :=
  Function.update_of_ne h ..

theorem append_extents (h : block ∉ rbb.blkList) :
    (rbb.append block blkSize addr).extents = rbb.extents ++ [⟨addr, blkSize⟩] := by
  have hold : rbb.blkList.map (fun i ↦ ((rbb.append block blkSize addr).blkSet i).extent) =
      rbb.extents := by
    apply List.map_congr_left
    intro i hi
    rw [append_blkSet_of_ne (ne_of_mem_of_not_mem hi h)]
  have hnew : ((rbb.append block blkSize addr).blkSet block).extent = ⟨addr, blkSize⟩ := by
    rw [append_blkSet_same]
    rfl
  calc (rbb.append block blkSize addr).extents
      = rbb.blkList.map (fun i ↦ ((rbb.append block blkSize addr).blkSet i).extent) ++
          [((rbb.append block blkSize addr).blkSet block).extent] := List.map_append
    _ = rbb.extents ++ [⟨addr, blkSize⟩] := by rw [hold, hnew]

theorem rtRbbBlkPut_eq (hstatus : (rbb.blkSet block).status = .inited) :
    rtRbbBlkPut block rbb = .ok (rbb.setStatus block .put) := by
  rw [rtRbbBlkPut, rtAssert_of hstatus]
  rfl

theorem rtRbbBlkFree_eq (hstatus : (rbb.blkSet block).status ≠ .unused) :
    rtRbbBlkFree block rbb =
      .ok { rbb.setStatus block .unused with blkList := rbb.blkList.erase block } := by
  rw [rtRbbBlkFree, rtAssert_of hstatus]
  rfl

/-- **`rt_rbb_blk_get`** takes the first block that has been put. -/
theorem rtRbbBlkGet_cases (rbb : RtRbb) :
    (∃ before block after, rbb.blkList = before ++ block :: after ∧
        (∀ i ∈ before, (rbb.blkSet i).status ≠ .put) ∧ (rbb.blkSet block).status = .put ∧
        rtRbbBlkGet rbb = (some block, rbb.setStatus block .get)) ∨
      (∀ i ∈ rbb.blkList, (rbb.blkSet i).status ≠ .put) ∧ rtRbbBlkGet rbb = (none, rbb) := by
  rw [rtRbbBlkGet]
  cases hfind : rbb.blkList.find? fun i ↦ (rbb.blkSet i).status = .put with
  | none => exact .inr ⟨by simpa using hfind, rfl⟩
  | some block =>
    obtain ⟨hput, before, after, hlist, hbefore⟩ := List.find?_eq_some_iff_append.mp hfind
    exact .inl ⟨before, block, after, hlist, by simpa using hbefore, by simpa using hput, rfl⟩

namespace Sound

theorem init {buf bufSize blkMaxNum : ℕ} (blockSet : ℕ → RtRbbBlk) (h : buf + bufSize < 2 ^ 64) :
    Sound (rtRbbInit buf bufSize blockSet blkMaxNum) where
  nodup := List.nodup_nil
  mem i := by
    simp only [rtRbbInit, List.not_mem_nil, false_iff, not_and, not_not]
    intro hi
    rw [if_pos hi]
  ringed := Ringed.nil
  fits := h

theorem mem_lt (h : Sound rbb) (hi : i ∈ rbb.blkList) : i < rbb.blkMaxNum := ((h.mem i).mp hi).1

theorem length_le (h : Sound rbb) : rbb.blkList.length ≤ rbb.blkMaxNum := by
  have hsub : rbb.blkList ⊆ List.range rbb.blkMaxNum :=
    fun i hi ↦ List.mem_range.mpr (h.mem_lt hi)
  have hle := (h.nodup.subperm hsub).length_le
  rwa [List.length_range] at hle

/-- The bytes of a block lie in the buffer. -/
theorem within (h : Sound rbb) (hi : i ∈ rbb.blkList) :
    (rbb.blkSet i).extent.Within rbb.whole :=
  h.ringed.inside (List.mem_map_of_mem hi)

theorem apart (h : Sound rbb) {j : ℕ} (hi : i ∈ rbb.blkList) (hj : j ∈ rbb.blkList) (hne : i ≠ j) :
    (rbb.blkSet i).extent.Apart (rbb.blkSet j).extent := by
  have : Std.Symm fun i j ↦ (rbb.blkSet i).extent.Apart (rbb.blkSet j).extent :=
    ⟨fun _ _ hapart ↦ hapart.symm⟩
  exact (List.pairwise_map.mp h.ringed.pairwise_apart).forall hi hj hne

/-! ## Taking and giving back -/

/-- No descriptor is free exactly when `blk_list` holds them all. -/
theorem findEmptyBlkInSet_cases (h : Sound rbb) :
    (findEmptyBlkInSet rbb = none ∧ rbb.blkList.length = rbb.blkMaxNum) ∨
      ∃ newRbb, findEmptyBlkInSet rbb = some newRbb ∧ newRbb < rbb.blkMaxNum ∧
        newRbb ∉ rbb.blkList ∧ rbb.blkList.length < rbb.blkMaxNum := by
  cases hfind : findEmptyBlkInSet rbb with
  | none =>
    have hused : ∀ i < rbb.blkMaxNum, i ∈ rbb.blkList := by
      intro i hi
      have hnot := List.find?_eq_none.mp hfind i (List.mem_range.mpr hi)
      exact (h.mem i).mpr ⟨hi, by simpa using hnot⟩
    have hsub : List.range rbb.blkMaxNum ⊆ rbb.blkList :=
      fun i hi ↦ hused i (List.mem_range.mp hi)
    have hge := (List.nodup_range.subperm hsub).length_le
    rw [List.length_range] at hge
    exact .inl ⟨rfl, Nat.le_antisymm h.length_le hge⟩
  | some newRbb =>
    have hlt := List.mem_range.mp (List.mem_of_find?_eq_some hfind)
    have hunused : (rbb.blkSet newRbb).status = .unused := by simpa using List.find?_some hfind
    have hnot : newRbb ∉ rbb.blkList := fun hmem ↦ ((h.mem newRbb).mp hmem).2 hunused
    refine .inr ⟨newRbb, rfl, hlt, hnot, ?_⟩
    have hsub : newRbb :: rbb.blkList ⊆ List.range rbb.blkMaxNum := by
      rintro i (_ | ⟨_, hi⟩)
      · exact List.mem_range.mpr hlt
      · exact List.mem_range.mpr (h.mem_lt hi)
    have hle := ((List.nodup_cons.mpr ⟨hnot, h.nodup⟩).subperm hsub).length_le
    rwa [List.length_cons, List.length_range] at hle

theorem ptrSub_eq {ptr other : ℕ} (hle : other ≤ ptr) (hlt : ptr < 2 ^ 64) :
    ptrSub ptr other = ptr - other := by
  unfold ptrSub
  omega

/-- **Room in ring order.** The block is put where it can follow in ring order, and if it is put
nowhere there is no such place. -/
theorem blkAddr_cases (h : Sound rbb) (hpos : 0 < blkSize) (hle : blkSize ≤ rbb.bufSize) :
    (∃ addr, blkAddr rbb blkSize = some addr ∧
        Ringed rbb.whole (rbb.extents ++ [⟨addr, blkSize⟩])) ∨
      (blkAddr rbb blkSize = none ∧
        ∀ addr, ¬ Ringed rbb.whole (rbb.extents ++ [⟨addr, blkSize⟩])) := by
  cases hlist : rbb.blkList with
  | nil =>
    refine .inl ⟨rbb.buf, by rw [blkAddr, hlist]; rfl, ?_⟩
    rw [extents, hlist]
    exact Ringed.singleton hpos ⟨Nat.le_refl _, Nat.add_le_add_left hle _⟩
  | cons first rest =>
    have hhead : rbb.blkList.head? = some first := by rw [hlist]; rfl
    obtain ⟨last, hlast⟩ : ∃ last, rbb.blkList.getLast? = some last := by
      rw [hlist]
      exact ⟨_, List.getLast?_eq_some_getLast (List.cons_ne_nil _ _)⟩
    have hmemHead := List.mem_of_mem_head? hhead
    have hmemLast := List.mem_of_getLast? hlast
    have hheadExtent : rbb.extents.head? = some (rbb.blkSet first).extent := by
      rw [extents, List.head?_map, hhead]
      rfl
    have hlastExtent : rbb.extents.getLast? = some (rbb.blkSet last).extent := by
      rw [extents, List.getLast?_map, hlast]
      rfl
    obtain ⟨hheadLower, hheadUpper⟩ := h.within hmemHead
    obtain ⟨hlastLower, hlastUpper⟩ := h.within hmemLast
    have hfits := h.fits
    have hbelow := h.ringed.stop_le_of_lt hheadExtent hlastExtent
    have hconcat (addr : ℕ) := @Ringed.concat_iff _ _ _ _ addr _ h.ringed hheadExtent hlastExtent hpos
    simp only [RtRbbBlk.extent, whole, stop] at hheadLower hheadUpper hlastLower hlastUpper hbelow
    rw [blkAddr, hhead, hlast]
    simp only
    by_cases hascends : (rbb.blkSet first).buf ≤ (rbb.blkSet last).buf
    · have hfirst : (rbb.blkSet first).extent.first ≤ (rbb.blkSet last).extent.first := hascends
      have hplace (addr : ℕ) : Ringed rbb.whole (rbb.extents ++ [⟨addr, blkSize⟩]) ↔
          (rbb.buf ≤ addr ∧ addr + blkSize ≤ rbb.buf + rbb.bufSize) ∧
            ((rbb.blkSet last).buf + (rbb.blkSet last).size ≤ addr ∨
              addr + blkSize ≤ (rbb.blkSet first).buf) :=
        (hconcat addr).trans (by rw [if_pos hfirst]; rfl)
      rw [if_pos hascends, ptrSub_eq (by omega) (by omega), ptrSub_eq (by omega) (by omega)]
      split_ifs with hbehind hbefore
      · exact .inl ⟨_, rfl, (hplace _).mpr (by omega)⟩
      · exact .inl ⟨_, rfl, (hplace _).mpr (by omega)⟩
      · refine .inr ⟨rfl, fun addr hring ↦ ?_⟩
        have hroom := (hplace addr).mp hring
        omega
    · have hfirst : ¬ (rbb.blkSet first).extent.first ≤ (rbb.blkSet last).extent.first := hascends
      have hplace (addr : ℕ) : Ringed rbb.whole (rbb.extents ++ [⟨addr, blkSize⟩]) ↔
          (rbb.buf ≤ addr ∧ addr + blkSize ≤ rbb.buf + rbb.bufSize) ∧
            ((rbb.blkSet last).buf + (rbb.blkSet last).size ≤ addr ∧
              addr + blkSize ≤ (rbb.blkSet first).buf) :=
        (hconcat addr).trans (by rw [if_neg hfirst]; rfl)
      have hbetween := hbelow (Nat.not_le.mp hascends)
      rw [if_neg hascends, ptrSub_eq hbetween (by omega)]
      split_ifs with hroom
      · exact .inl ⟨_, rfl, (hplace _).mpr (by omega)⟩
      · refine .inr ⟨rfl, fun addr hring ↦ ?_⟩
        have hplaced := (hplace addr).mp hring
        omega

/-- A block that has just been taken. -/
theorem append (h : Sound rbb) (hlt : block < rbb.blkMaxNum) (hnot : block ∉ rbb.blkList)
    (hring : Ringed rbb.whole (rbb.extents ++ [⟨addr, blkSize⟩])) :
    Sound (rbb.append block blkSize addr) where
  nodup := List.nodup_append.mpr ⟨h.nodup, List.nodup_singleton _,
    fun i hi j hj ↦ ne_of_mem_of_not_mem hi (List.mem_singleton.mp hj ▸ hnot)⟩
  mem i := by
    simp only [RtRbb.append, List.mem_append, List.mem_singleton]
    rcases eq_or_ne i block with rfl | hne
    · simp [hlt]
    · rw [Function.update_of_ne hne, h.mem i]
      simp [hne]
  ringed := by
    rw [append_extents hnot]
    exact hring
  fits := h.fits

theorem setStatus (h : Sound rbb) (hmem : block ∈ rbb.blkList) (hstatus : status ≠ .unused) :
    Sound (rbb.setStatus block status) where
  nodup := h.nodup
  mem i := by
    rcases eq_or_ne i block with rfl | hne
    · rw [setStatus_blkSet_same]
      exact ⟨fun hi ↦ ⟨h.mem_lt hi, hstatus⟩, fun _ ↦ hmem⟩
    · rw [setStatus_blkSet_of_ne hne]
      exact h.mem i
  ringed := by
    have hsame : (rbb.setStatus block status).extents = rbb.extents := by
      apply List.map_congr_left
      intro i _
      exact setStatus_extent i
    rw [hsame]
    exact h.ringed
  fits := h.fits

theorem free (h : Sound rbb) :
    Sound { rbb.setStatus block .unused with blkList := rbb.blkList.erase block } where
  nodup := h.nodup.erase block
  mem i := by
    rw [h.nodup.mem_erase_iff, h.mem i]
    rcases eq_or_ne i block with rfl | hne
    · simp [RtRbb.setStatus]
    · simp [RtRbb.setStatus, hne]
  ringed := by
    have hsame : (rbb.blkList.erase block).map
        (fun i ↦ ((rbb.setStatus block .unused).blkSet i).extent) =
          (rbb.blkList.erase block).map fun i ↦ (rbb.blkSet i).extent := by
      apply List.map_congr_left
      intro i _
      exact setStatus_extent i
    unfold extents
    simp only
    rw [hsame]
    exact h.ringed.sublist (List.erase_sublist.map _)
  fits := h.fits

/-- **`rt_rbb_blk_alloc`.** -/
theorem rtRbbBlkAlloc_cases (h : Sound rbb) (hpos : 0 < blkSize) (hle : blkSize ≤ rbb.bufSize)
    (hlt : blkSize < 2 ^ 24) :
    (∃ newRbb addr, rtRbbBlkAlloc blkSize rbb = .ok (some newRbb, rbb.append newRbb blkSize addr) ∧
        newRbb ∉ rbb.blkList ∧ Sound (rbb.append newRbb blkSize addr) ∧
        (rbb.blkList.length < rbb.blkMaxNum ∧
          Ringed rbb.whole (rbb.extents ++ [⟨addr, blkSize⟩]))) ∨
      rtRbbBlkAlloc blkSize rbb = .ok (none, rbb) ∧ (rbb.blkList.length = rbb.blkMaxNum ∨
        ∀ addr, ¬ Ringed rbb.whole (rbb.extents ++ [⟨addr, blkSize⟩])) := by
  rw [rtRbbBlkAlloc, rtAssert_of hlt, ok_bind]
  rcases h.findEmptyBlkInSet_cases with ⟨hfull, hlength⟩ | ⟨newRbb, hnew, hnewLt, hnot, hlength⟩
  · rw [hfull]
    exact .inr ⟨rfl, .inl hlength⟩
  · rw [hnew]
    simp only [if_pos hlength]
    rcases h.blkAddr_cases hpos hle with ⟨addr, haddr, hring⟩ | ⟨haddr, hnone⟩
    · rw [haddr]
      exact .inl ⟨newRbb, addr, rfl, hnot, h.append hnewLt hnot hring, hlength, hring⟩
    · rw [haddr]
      exact .inr ⟨rfl, .inr hnone⟩

/-- An empty buffer hands out blocks of any size. -/
theorem oversized_granted (h : Sound rbb) (hempty : rbb.blkList = []) (hdescriptor : 0 < rbb.blkMaxNum)
    (hlarge : rbb.bufSize < blkSize) (hlt : blkSize < 2 ^ 24) :
    ∃ newRbb next, rtRbbBlkAlloc blkSize rbb = .ok (some newRbb, next) ∧
      ¬ (next.blkSet newRbb).extent.Within next.whole := by
  have haddr : blkAddr rbb blkSize = some rbb.buf := by
    rw [blkAddr, hempty]
    rfl
  rw [rtRbbBlkAlloc, rtAssert_of hlt, ok_bind]
  rcases h.findEmptyBlkInSet_cases with ⟨_, hlength⟩ | ⟨newRbb, hnew, _, _, hlength⟩
  · rw [hempty, List.length_nil] at hlength
    omega
  · rw [hnew]
    simp only [if_pos hlength]
    rw [haddr]
    refine ⟨newRbb, _, rfl, fun hwithin ↦ ?_⟩
    rw [append_blkSet_same] at hwithin
    obtain ⟨_, hstop⟩ := hwithin
    simp only [RtRbbBlk.extent, RtRbb.append, whole, stop] at hstop
    omega

end Sound

end RtRbb

/-! ## Runs -/

inductive RbbEvent
  | alloc (blkSize : ℕ)
  | put (block : ℕ)
  | get
  | free (block : ℕ)

/-- Users put the blocks that they took, free blocks in use, and ask for blocks that an empty
buffer could hold. -/
def RbbEnabled (rbb : RtRbb) : RbbEvent → Prop
  | .alloc blkSize => 0 < blkSize ∧ blkSize ≤ rbb.bufSize ∧ blkSize < 2 ^ 24
  | .put block => block ∈ rbb.blkList ∧ (rbb.blkSet block).status = .inited
  | .get => True
  | .free block => block ∈ rbb.blkList

def rbbStep (rbb : RtRbb) : RbbEvent → Except Fault RtRbb
  | .alloc blkSize => do
      let (_, rbb) ← rtRbbBlkAlloc blkSize rbb
      return rbb
  | .put block => rtRbbBlkPut block rbb
  | .get => return (rtRbbBlkGet rbb).2
  | .free block => rtRbbBlkFree block rbb

def rbbSystem : Transition.System RtRbb RbbEvent Fault := ⟨RbbEnabled, rbbStep⟩

theorem RtRbb.Sound.step {rbb : RtRbb} (h : rbb.Sound) {event : RbbEvent}
    (henabled : RbbEnabled rbb event) :
    ∃ next, rbbStep rbb event = .ok next ∧ next.Sound := by
  cases event with
  | alloc blkSize =>
    obtain ⟨hpos, hle, hlt⟩ := henabled
    rcases h.rtRbbBlkAlloc_cases hpos hle hlt with ⟨newRbb, addr, halloc, _, hsound, _⟩ | ⟨halloc, _⟩
    · exact ⟨_, by rw [rbbStep, halloc]; rfl, hsound⟩
    · exact ⟨_, by rw [rbbStep, halloc]; rfl, h⟩
  | put block =>
    obtain ⟨hmem, hstatus⟩ := henabled
    exact ⟨_, RtRbb.rtRbbBlkPut_eq hstatus, h.setStatus hmem (by decide)⟩
  | get =>
    rcases RtRbb.rtRbbBlkGet_cases rbb with ⟨before, block, after, hlist, _, _, hget⟩ | ⟨_, hget⟩
    · have hmem : block ∈ rbb.blkList := by simp [hlist]
      exact ⟨rbb.setStatus block .get, by rw [rbbStep, hget]; rfl, h.setStatus hmem (by decide)⟩
    · exact ⟨_, by rw [rbbStep, hget]; rfl, h⟩
  | free block => exact ⟨_, RtRbb.rtRbbBlkFree_eq ((h.mem block).mp henabled).2, h.free⟩

/-- **Safety and completeness of the ring.** After any calls for blocks of at most the buffer, the
blocks in use are apart and in the buffer; and `rt_rbb_blk_alloc` fails exactly when every descriptor
is in use or the block fits nowhere in ring order. A larger block is handed out when the buffer is
empty, and reaches beyond it. -/
theorem rbb_alloc_fails_iff {buf bufSize blkMaxNum : ℕ} {blockSet : ℕ → RtRbbBlk}
    (hfits : buf + bufSize < 2 ^ 64) {events : List RbbEvent} {rbb : RtRbb}
    (hrun : rbbSystem.Run (rtRbbInit buf bufSize blockSet blkMaxNum) events rbb) {blkSize : ℕ}
    (henabled : RbbEnabled rbb (.alloc blkSize)) :
    rbb.extents.Pairwise Apart ∧ (∀ extent ∈ rbb.extents, extent.Within rbb.whole) ∧
      (rtRbbBlkAlloc blkSize rbb = .ok (none, rbb) ↔ rbb.blkList.length = rbb.blkMaxNum ∨
        ∀ addr, ¬ Ringed rbb.whole (rbb.extents ++ [⟨addr, blkSize⟩])) ∧
      ∀ large, rbb.bufSize < large → large < 2 ^ 24 → rbb.blkList = [] → 0 < rbb.blkMaxNum →
        ∃ newRbb next, rtRbbBlkAlloc large rbb = .ok (some newRbb, next) ∧
          ¬ (next.blkSet newRbb).extent.Within next.whole := by
  have hpreserves : ∀ rbb event next, RtRbb.Sound rbb → rbbSystem.enabled rbb event →
      rbbSystem.step rbb event = .ok next → next.Sound := by
    intro rbb event next hsound hevent hstep
    obtain ⟨other, hother, hnext⟩ := hsound.step hevent
    obtain rfl : other = next := Except.ok.inj (hother.symm.trans hstep)
    exact hnext
  have hsound := hrun.invariant hpreserves (RtRbb.Sound.init blockSet hfits)
  refine ⟨hsound.ringed.pairwise_apart, fun extent hextent ↦ hsound.ringed.inside hextent, ?_,
    fun large hlarge hlt hempty hdescriptor ↦
      hsound.oversized_granted hempty hdescriptor hlarge hlt⟩
  obtain ⟨hpos, hle, hlt⟩ := henabled
  rcases hsound.rtRbbBlkAlloc_cases hpos hle hlt with
    ⟨newRbb, addr, halloc, _, _, hlength, hring⟩ | ⟨halloc, hnone⟩
  · rw [halloc]
    constructor
    · intro hsame
      cases congrArg Prod.fst (Except.ok.inj hsame)
    · rintro (hfull | hnone)
      · omega
      · exact absurd hring (hnone addr)
  · exact ⟨fun _ ↦ hnone, fun _ ↦ halloc⟩

theorem rbb_alloc_fails_iff_two_blocks : ∃ rbb : RtRbb, rbb.blkList = [0, 1] ∧
    (rtRbbBlkAlloc 8 rbb = .ok (none, rbb) ↔ rbb.blkList.length = rbb.blkMaxNum ∨
      ∀ addr, ¬ Ringed rbb.whole (rbb.extents ++ [⟨addr, 8⟩])) := by
  obtain ⟨rbb, hrun, hlist, henabled⟩ : ∃ rbb,
      rbbSystem.Run (rtRbbInit 0x1000 16 (fun _ ↦ ⟨.get, 0, 0⟩) 4) [.alloc 8, .alloc 4] rbb ∧
        rbb.blkList = [0, 1] ∧ RbbEnabled rbb (.alloc 8) :=
    ⟨_, .cons ⟨by decide, by decide, by decide⟩ rfl
      (.cons ⟨by decide, by decide, by decide⟩ rfl (.nil _)), rfl, by decide, by decide, by decide⟩
  exact ⟨rbb, hlist, (rbb_alloc_fails_iff (by decide) hrun henabled).2.2.1⟩

end K210Firmware.Log
