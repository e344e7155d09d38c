import K210Firmware.Kernel.Chains
import Mathlib.Algebra.BigOperators.Group.List.Basic

/-!
# The invariant of the kernel heap

Between any two sections, each page of the heap is in exactly one place: on the list of free pages,
in the array `memusage`, in a zone, in a large block that a thread holds, or in a call that has
taken pages and not yet entered them, or has yet to give them back. `memusage` tells the last three
apart for every block held, so `rt_free` finds what `rt_malloc` has done, and no section can fail.
-/

namespace K210Firmware.Kernel.Slab

open Memory Extent Pages

/-! ## The array `memusage` -/

theorem setUsage_spec {usage : Block Memusage} {kup : ℤ} {count : ℕ} (entry : ℕ → Memusage)
    (hlower : 0 ≤ kup) (hupper : kup + count ≤ usage.size) :
    ∃ usage', setUsage kup count entry usage = .ok usage' ∧ usage'.size = usage.size ∧
      ∀ index, usage'.cell index =
        if kup ≤ index ∧ index < kup + count then entry (index - kup).toNat
        else usage.cell index := by
  induction count with
  | zero =>
    refine ⟨usage, rfl, rfl, fun index ↦ ?_⟩
    rw [if_neg (by omega)]
  | succ count ih =>
    obtain ⟨middle, hmiddle, hsize, hcell⟩ := ih (by omega)
    set last : Block Memusage :=
      { middle with cell := Function.update middle.cell (kup + count) (entry count) } with hlast
    have hwrite : middle.write (kup + count) (entry count) = .ok last :=
      Block.write_eq_ok (by omega) (by omega)
    refine ⟨last, ?_, hsize, fun index ↦ ?_⟩
    · rw [setUsage, List.range_succ, List.foldlM_append]
      rw [setUsage] at hmiddle
      rw [hmiddle, ok_bind, List.foldlM_cons, hwrite, ok_bind, List.foldlM_nil]
      rfl
    · have hupdate : last.cell index =
          Function.update middle.cell (kup + count) (entry count) index := rfl
      rw [hupdate]
      by_cases hindex : index = kup + count
      · have hoffset : (kup + count - kup).toNat = count := by omega
        rw [hindex, Function.update_self, if_pos (by omega), hoffset]
      · rw [Function.update_of_ne hindex, hcell]
        by_cases hin : kup ≤ index ∧ index < kup + count
        · rw [if_pos hin, if_pos (by omega)]
        · rw [if_neg hin, if_neg (by omega)]

/-- The entry of a page. -/
def SlabHeap.kup (heap : SlabHeap) (page : ℕ) : Memusage := heap.usage.cell (heap.btokup page)

/-! ## Who has which pages -/

def SlabHeap.npages (heap : SlabHeap) : ℕ := (heap.heapEnd - heap.heapStart) / rtMmPageSize

/-- The pages of the heap. -/
def SlabHeap.whole (heap : SlabHeap) : Extent := ⟨heap.heapStart / rtMmPageSize, heap.npages⟩

/-- The bytes that a request for `nbytes` occupies. -/
def footprint (zoneLimit nbytes : ℕ) : ℕ :=
  if nbytes ≥ zoneLimit then rtAlign nbytes rtMmPageSize else (zoneindex nbytes).2

/-- The pages of a large block; a small one lies in a zone. -/
def Held.pages (zoneLimit : ℕ) (block : Held) : List Extent :=
  if block.nbytes ≥ zoneLimit then
    [⟨block.ptr / rtMmPageSize, rtAlign block.nbytes rtMmPageSize / rtMmPageSize⟩]
  else []

/-- The pages that a call has taken, or has yet to give back. -/
def Job.pages (zonePageCnt : ℕ) : Job → List Extent
  | .largeTaken page size => [⟨page, size / rtMmPageSize⟩]
  | .zoneWanted _ _ => []
  | .zoneTaken z _ _ => [⟨z, zonePageCnt⟩]
  | .pageFree addr npages => [⟨addr / rtMmPageSize, npages⟩]

/-- All places in which pages are. -/
def State.extents (zones : List ℕ) (state : State) : List Extent :=
  state.heap.rtPageList ++ ⟨state.heap.memusage, usagePages state.heap.npages⟩ ::
    (zones.map (⟨·, state.heap.zonePageCnt⟩) ++
      (state.held.flatMap (Held.pages state.heap.zoneLimit) ++
        state.calls.flatMap (·.job.pages state.heap.zonePageCnt)))

/-- What the code has established about a call between two sections. -/
def Call.Valid (zoneLimit : ℕ) (call : Call) : Prop :=
  match call.job with
  | .largeTaken _ size =>
      zoneLimit ≤ call.nbytes ∧ call.nbytes < 2 ^ 64 ∧
        size = rtAlign call.nbytes rtMmPageSize ∧ 0 < size
  | .zoneWanted size zi => 0 < call.nbytes ∧ zoneindex call.nbytes = (zi, size) ∧
      call.nbytes < zoneLimit
  | .zoneTaken _ size zi => 0 < call.nbytes ∧ zoneindex call.nbytes = (zi, size) ∧
      call.nbytes < zoneLimit
  | .pageFree addr npages => addr % rtMmPageSize = 0 ∧ 0 < npages

/-- The books of a block that a thread holds. -/
structure Held.Valid (zoneLimit zonePageCnt : ℕ) (kup : ℕ → Memusage) (zones : List ℕ)
    (block : Held) : Prop where
  nbytes_pos : 0 < block.nbytes
  nbytes_lt : block.nbytes < 2 ^ 64
  small : block.nbytes < zoneLimit → ∃ z ∈ zones, InRun ⟨z, zonePageCnt⟩ block.ptr
  aligned : zoneLimit ≤ block.nbytes → block.ptr % rtMmPageSize = 0
  large_pos : zoneLimit ≤ block.nbytes → 0 < rtAlign block.nbytes rtMmPageSize
  large_kup : zoneLimit ≤ block.nbytes → kup (block.ptr / rtMmPageSize) =
    ⟨.large, rtAlign block.nbytes rtMmPageSize / rtMmPageSize⟩

/-- What holds between sections, where `zones` are the pages at which zones start. -/
structure Inv (zones : List ℕ) (state : State) : Prop where
  layout : Layout state.heap.heapStart state.heap.heapEnd state.heap.zoneSize state.heap.zoneLimit
    state.heap.zonePageCnt state.heap.usage.size state.heap.zoneArray.size
  separated : Separated state.heap.rtPageList
  tiles : Tiles (state.extents zones) state.heap.whole
  zoned : Zoned state.heap.zone state.heap.zoneArray.cell state.heap.zoneFree zones
    state.heap.zoneSize state.heap.zoneLimit state.heap.zonePageCnt state.held
  held : ∀ block ∈ state.held,
    block.Valid state.heap.zoneLimit state.heap.zonePageCnt state.heap.kup zones
  kup : ∀ z ∈ zones, ∀ page, Holds ⟨z, state.heap.zonePageCnt⟩ page →
    state.heap.kup page = ⟨.small, page - z⟩
  calls : ∀ call ∈ state.calls, call.Valid state.heap.zoneLimit
  used : state.heap.usedMem =
    (state.held.map fun block ↦ footprint state.heap.zoneLimit block.nbytes).sum
  peak : state.heap.usedMem ≤ state.heap.maxMem
  freeCnt : state.heap.zoneFreeCnt = state.heap.zoneFree.length
  freeCnt_le : state.heap.zoneFreeCnt ≤ zoneReleaseThresh

/-! ## Facts used by every section -/

section Facts

variable {zones : List ℕ} {heap : SlabHeap} {held : List Held} {calls : List Call}

theorem tally_extents (zones : List ℕ) (heap : SlabHeap) (held : List Held) (calls : List Call)
    (cell : ℕ) : tally (State.extents zones ⟨heap, held, calls⟩) cell =
      tally heap.rtPageList cell + tally [⟨heap.memusage, usagePages heap.npages⟩] cell +
        tally (zones.map (⟨·, heap.zonePageCnt⟩)) cell +
        tally (held.flatMap (Held.pages heap.zoneLimit)) cell +
        tally (calls.flatMap (·.job.pages heap.zonePageCnt)) cell := by
  rw [State.extents, tally_append, tally_cons, ← tally_singleton, tally_append, tally_append]
  simp only [Nat.add_assoc]

namespace Inv

variable (h : Inv zones ⟨heap, held, calls⟩)

include h

theorem fits : Fits heap.zoneSize heap.zoneLimit := ⟨h.layout.limit_cases, h.layout.zone_room⟩

theorem zonePageCnt_pos : 0 < heap.zonePageCnt := by
  have hpages := h.layout.zone_pages
  have hroom := h.layout.zone_room
  have hlimit := h.layout.limit_cases
  simp only at hpages hroom hlimit
  omega

/-- The books do not depend on the order in which blocks and calls are listed. -/
theorem perm {zones' : List ℕ} {held' : List Held} {calls' : List Call}
    (hzones : zones.Perm zones') (hheld : held.Perm held') (hcalls : calls.Perm calls') :
    Inv zones' ⟨heap, held', calls'⟩ where
  layout := h.layout
  separated := h.separated
  tiles cell := by
    rw [tally_extents, ← tally_perm (hzones.map _), ← tally_perm (hheld.flatMap_right _),
      ← tally_perm (hcalls.flatMap_right _), ← tally_extents]
    exact h.tiles cell
  zoned := by
    have hzoned := h.zoned.perm hzones
    exact { hzoned with chunks := fun z hz ↦ (hzoned.chunks z hz).perm hheld }
  held block hblock := by
    have hvalid := h.held block (hheld.mem_iff.mpr hblock)
    exact { hvalid with
      small := fun hlt ↦ by
        obtain ⟨z, hz, hin⟩ := hvalid.small hlt
        exact ⟨z, hzones.mem_iff.mp hz, hin⟩ }
  kup z hz := h.kup z (hzones.mem_iff.mpr hz)
  calls call hcall := h.calls call (hcalls.mem_iff.mpr hcall)
  used := h.used.trans (hheld.map _).sum_eq
  peak := h.peak
  freeCnt := h.freeCnt
  freeCnt_le := h.freeCnt_le

/-- The entry of a page of the heap can be read and written. -/
theorem kup_index {page : ℕ} (hpage : heap.whole.Holds page) :
    0 ≤ heap.btokup page ∧ heap.btokup page < heap.usage.size := by
  have hentries := h.layout.entries_eq
  obtain ⟨hlower, hupper⟩ := hpage
  unfold SlabHeap.whole SlabHeap.npages stop at *
  unfold SlabHeap.btokup
  unfold rtMmPageSize at *
  simp only at hentries hlower hupper
  omega

theorem zone_within {z : ℕ} (hz : z ∈ zones) : Within ⟨z, heap.zonePageCnt⟩ heap.whole := by
  refine h.tiles.within ?_ h.zonePageCnt_pos
  unfold State.extents
  simp only [List.mem_append, List.mem_cons, List.mem_map]
  exact .inr (.inr (.inl ⟨z, hz, rfl⟩))

theorem call_within {call : Call} (hcall : call ∈ calls) {run : Extent}
    (hrun : run ∈ call.job.pages heap.zonePageCnt) (hpos : 0 < run.count) :
    run.Within heap.whole := by
  refine h.tiles.within ?_ hpos
  unfold State.extents
  simp only [List.mem_append, List.mem_cons, List.mem_flatMap]
  exact .inr (.inr (.inr (.inr ⟨call, hcall, hrun⟩)))

end Inv

end Facts

end K210Firmware.Kernel.Slab
