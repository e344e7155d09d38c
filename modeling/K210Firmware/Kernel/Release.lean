import K210Firmware.Kernel.Sections

/-!
# The sections of `rt_free`

A block goes back to the zone or to the pages that `memusage` names for its address. A zone whose
last chunk comes back stays on its chain, moves to `zone_free` or goes back to the page allocator.
-/

namespace K210Firmware.Kernel.Slab

open Memory Extent Pages

variable {zones : List ℕ} {heap : SlabHeap} {held : List Held} {calls : List Call}

/-- Pages go back to the page allocator. -/
theorem Inv.resumeFree {addr npages nbytes : ℕ}
    (h : Inv zones ⟨heap, held, ⟨.pageFree addr npages, nbytes⟩ :: calls⟩) :
    ∃ outcome heap', resume (.pageFree addr npages) heap = .ok (outcome, heap') ∧
      Inv zones (State.settle ⟨heap, held, calls⟩ nbytes heap' outcome) := by
  obtain ⟨haligned, hpos⟩ : addr % rtMmPageSize = 0 ∧ 0 < npages :=
    h.calls _ (List.mem_cons_self ..)
  have hwithin : Within ⟨addr / rtMmPageSize, npages⟩ heap.whole :=
    h.call_within (List.mem_cons_self ..) (List.mem_singleton.mpr rfl) hpos
  have hpage : 0 < addr / rtMmPageSize := by
    have hstart := h.layout.start_pos
    have halign := h.layout.start_aligned
    have hfirst := hwithin.1
    simp only [SlabHeap.whole, rtMmPageSize] at hstart halign hfirst ⊢
    omega
  have haddr : rtMmPageSize * (addr / rtMmPageSize) = addr :=
    Nat.mul_div_cancel' (Nat.dvd_of_mod_eq_zero haligned)
  obtain ⟨list', hput, hseparated, htally⟩ :=
    rtPageFree_spec hpage hpos h.separated fun cell ↦ by
      have halone := h.le_one cell
      rw [List.flatMap_cons, tally_append] at halone
      simp only [Job.pages] at halone
      show tally heap.rtPageList cell + _ ≤ 1
      omega
  rw [haddr] at hput
  refine ⟨.done 0, { heap with rtPageList := list' }, ?_, ?_⟩
  · simp only [resume, hput, ok_bind]
    rfl
  · exact { h with
      separated := hseparated
      tiles := fun cell ↦ by
        have htiles : _ = tally [heap.whole] cell := h.tiles cell
        rw [tally_extents, List.flatMap_cons, tally_append] at htiles
        simp only [State.settle]
        rw [tally_extents]
        have htally := htally cell
        simp only [SlabHeap.whole, SlabHeap.npages, Job.pages] at htiles htally ⊢
        omega
      calls := fun call hcall ↦ h.calls call (List.mem_cons_of_mem _ hcall) }

/-- The books once a small block has left a zone: the zones that are left, in `zones'`, and the
pages that go back. -/
theorem Inv.give {block : Held} (h : Inv zones ⟨heap, block :: held, calls⟩)
    (hsmall : block.nbytes < heap.zoneLimit) {size : ℕ} (hchunk : size = (zoneindex block.nbytes).2)
    {zones' : List ℕ} {back : List Call}
    {usage' : Block Memusage} {zone' : ℕ → SlabZone} {chain' : ℤ → List ℕ} {zoneFree' : List ℕ}
    {zoneFreeCnt' : ℕ}
    (hzoned : Zoned zone' chain' zoneFree' zones' heap.zoneSize heap.zoneLimit heap.zonePageCnt held)
    (hcnt : zoneFreeCnt' = zoneFree'.length) (hle : zoneFreeCnt' ≤ zoneReleaseThresh)
    (hback : ∀ call ∈ back, call.Valid heap.zoneLimit)
    (hpages : ∀ cell, tally (zones'.map (⟨·, heap.zonePageCnt⟩)) cell +
      tally (back.flatMap (·.job.pages heap.zonePageCnt)) cell =
        tally (zones.map (⟨·, heap.zonePageCnt⟩)) cell)
    (hcovered : ∀ other ∈ held, ∀ z ∈ zones, InRun ⟨z, heap.zonePageCnt⟩ other.ptr → z ∈ zones')
    (husage : usage'.size = heap.usage.size)
    (hkup : ∀ z ∈ zones', ∀ page, Holds ⟨z, heap.zonePageCnt⟩ page →
      usage'.cell (heap.btokup page) = ⟨.small, page - z⟩)
    (hlarge : ∀ other ∈ held, heap.zoneLimit ≤ other.nbytes →
      usage'.cell (heap.btokup (other.ptr / rtMmPageSize)) =
        heap.kup (other.ptr / rtMmPageSize)) :
    Inv zones' ⟨{ heap with
      usedMem := heap.usedMem - size
      usage := usage'
      zone := zone'
      zoneArray := ⟨heap.zoneArray.size, chain'⟩
      zoneFree := zoneFree'
      zoneFreeCnt := zoneFreeCnt' }, held, back ++ calls⟩ where
  layout := by
    have hlayout := h.layout
    simp only [husage]
    exact hlayout
  separated := h.separated
  tiles cell := by
    have hnone : Held.pages heap.zoneLimit block = [] := if_neg (Nat.not_le.mpr hsmall)
    have htiles : _ = tally [heap.whole] cell := h.tiles cell
    have hmoved := hpages cell
    rw [tally_extents, List.flatMap_cons, hnone, List.nil_append] at htiles
    rw [tally_extents, List.flatMap_append, tally_append]
    simp only [SlabHeap.whole, SlabHeap.npages] at htiles ⊢
    omega
  zoned := hzoned
  held other hother := by
    have hvalid := h.held other (List.mem_cons_of_mem _ hother)
    refine ⟨hvalid.nbytes_pos, hvalid.nbytes_lt, fun hlt ↦ ?_, hvalid.aligned, hvalid.large_pos,
      fun hle ↦ (hlarge other hother hle).trans (hvalid.large_kup hle)⟩
    obtain ⟨z, hz, hin⟩ := hvalid.small hlt
    exact ⟨z, hcovered other hother z hz hin, hin⟩
  kup := hkup
  calls call hcall := by
    rcases List.mem_append.mp hcall with hcall | hcall
    · exact hback call hcall
    · exact h.calls call hcall
  used := by
    have hsize : footprint heap.zoneLimit block.nbytes = size :=
      (if_neg (Nat.not_le.mpr hsmall)).trans hchunk.symm
    have hused := h.used
    simp only [List.map_cons, List.sum_cons, hsize] at hused ⊢
    omega
  peak := by
    have hpeak := h.peak
    simp only at hpeak ⊢
    omega
  freeCnt := hcnt
  freeCnt_le := hle

/-- `rt_free` of a chunk. -/
theorem Inv.freeChunk {block : Held} (h : Inv zones ⟨heap, block :: held, calls⟩)
    (hsmall : block.nbytes < heap.zoneLimit) {z : ℕ} (hz : z ∈ zones)
    (hin : InRun ⟨z, heap.zonePageCnt⟩ block.ptr) :
    ∃ job heap' zones', freeChunk block.ptr z heap = .ok (job, heap') ∧
      Inv zones' ⟨heap', held, (job.map (Call.mk · 0)).toList ++ calls⟩ := by
  have hheader : Header heap.zoneSize heap.zoneLimit z (heap.zone z) := h.zoned.header z hz
  have hchunks : Chunks (heap.zone z) ⟨z, heap.zonePageCnt⟩ (block :: held) := h.zoned.chunks z hz
  have hbusy := hchunks.nfree_lt (List.mem_cons_self ..) hin
  have hzone : z ∉ heap.zoneFree := fun hfree ↦ hbusy.ne (h.zoned.free_idle z hfree)
  have hmagic : (heap.zone z).zMagic = zallocSlabMagic := h.zoned.magic z hz hzone
  obtain ⟨_, hsize⟩ := hchunks.own block (List.mem_cons_self ..) hin
  obtain ⟨_, _, _, hlower, hupper⟩ := hheader.chunksize h.fits
  have hbound : (heap.zone z).zZoneindex < heap.zoneArray.size := by
    rw [h.layout.chains_eq]
    exact hupper
  have hcnt := h.zonePageCnt_pos
  have hapart : ∀ other ∈ zones, other ≠ z →
      Apart ⟨z, heap.zonePageCnt⟩ ⟨other, heap.zonePageCnt⟩ :=
    fun other hother hne ↦ h.zoned.apart_of_ne hz hother hne.symm
  have hothers : ∀ other ∈ zones, other ≠ z →
      Chunks (heap.zone other) ⟨other, heap.zonePageCnt⟩ held := by
    intro other hother hne
    refine (Chunks.cons_iff (hapart other hother hne _ hin) fun _ hchunk ↦ ?_).mp
      (h.zoned.chunks other hother)
    exact h.chunks_inRun hother hchunk
  -- the header with the chunk back on its list
  set header : SlabZone := { heap.zone z with
    zNfree := (heap.zone z).zNfree + 1
    zFreechunk := block.ptr :: (heap.zone z).zFreechunk } with hdef
  have hheader' (magic : ℤ) :
      Header heap.zoneSize heap.zoneLimit z { header with zMagic := magic } :=
    ⟨hheader.request, hheader.baseptr, hheader.nmax⟩
  have hgive (magic : ℤ) :
      Chunks { header with zMagic := magic } ⟨z, heap.zonePageCnt⟩ held := hchunks.give hin magic
  have hnfree : 0 < header.zNfree := Nat.succ_pos _
  set linked : List ℕ := if (heap.zone z).zNfree = 0 then
    z :: heap.zoneArray.cell (heap.zone z).zZoneindex
    else heap.zoneArray.cell (heap.zone z).zZoneindex with hlinked
  obtain ⟨_, hmem, _, herase⟩ := h.zoned.linked_spec hz hzone hlinked
  have hset (chain : List ℕ) := @setChain_eq
    { heap with usedMem := heap.usedMem - (heap.zone z).zChunksize }
    (heap.zone z).zZoneindex hlower hbound chain
  rw [Slab.freeChunk, rtAssert_of hmagic, ok_bind, Block.read_eq_ok hlower hbound, ok_bind,
    relinkZone, ← hdef, ← hlinked]
  by_cases hretire : header.zNfree = header.zNmax ∧ linked ≠ [z]
  · rw [if_pos hretire, if_neg (not_not_intro hmem), hset, ok_bind, storeFreeZone]
    have hidle := (hgive (-1)).nfree_eq_iff.mp hretire.1
    by_cases hmany : heap.zoneFreeCnt + 1 > zoneReleaseThresh
    · rw [if_pos]
      swap
      · exact hmany
      obtain ⟨usage', hrun, husage, _, hout⟩ :=
        h.setUsage (h.zone_within hz) (fun _ ↦ ⟨.free, 0⟩)
      have hpages : heap.zoneSize / rtMmPageSize = heap.zonePageCnt := by
        have hlayout : heap.zonePageCnt * 4096 = heap.zoneSize := h.layout.zone_pages
        simp only [rtMmPageSize]
        omega
      have hrest (other : ℕ) : other ∈ zones.erase z ↔ other ≠ z ∧ other ∈ zones :=
        (h.zoned.nodup hcnt).mem_erase_iff
      have hzoned := @Zoned.leave _ _ _ _ _ _ _ _ held z { header with zMagic := -1 } h.zoned hcnt
        hz hzone hothers
      rw [← herase] at hzoned
      have hrun' : Slab.setUsage (SlabHeap.btokup heap z) heap.zonePageCnt (fun _ ↦ ⟨.free, 0⟩)
          heap.usage = .ok usage' := hrun
      refine ⟨some (.pageFree (rtMmPageSize * z) (heap.zoneSize / rtMmPageSize)), _, zones.erase z,
        (congrArg (· >>= _) hrun').trans rfl, ?_⟩
      refine h.give hsmall hsize hzoned h.freeCnt h.freeCnt_le (fun call hcall ↦ ?_) (fun cell ↦ ?_)
        (fun other hother z' hz' hin' ↦ ?_) husage (fun z' hz' page hpage ↦ ?_)
        (fun other hother hlarge ↦ ?_)
      · obtain rfl := List.mem_singleton.mp hcall
        exact ⟨Nat.mul_mod_right _ _, hpages ▸ hcnt⟩
      · have hsplit := tally_perm ((List.perm_cons_erase hz).map fun z ↦
          (⟨z, heap.zonePageCnt⟩ : Extent)) cell
        have hptr : rtMmPageSize * z / rtMmPageSize = z := Nat.mul_div_cancel_left _ (by decide)
        rw [List.map_cons, tally_cons, ← tally_singleton] at hsplit
        simp only [Option.map_some, Option.toList_some, List.flatMap_cons, List.flatMap_nil,
          List.append_nil, Job.pages, hpages, hptr]
        omega
      · refine (hrest z').mpr ⟨?_, hz'⟩
        rintro rfl
        exact hidle other hother hin'
      · obtain ⟨hne, hmem'⟩ := (hrest z').mp hz'
        rw [hout page fun hholds ↦ hapart z' hmem' hne page hholds hpage]
        exact h.kup z' hmem' page hpage
      · have hmem' : other ∈ block :: held := List.mem_cons_of_mem _ hother
        exact hout _ (h.large_not_zone hmem' hlarge (h.large_holds hmem' hlarge) hz)
    · rw [if_neg]
      swap
      · exact hmany
      have henter := h.zoned.enter hcnt hapart (hheader' (-1))
        (hgive (-1)) hothers (fun hnot ↦ absurd (List.mem_cons_self ..) hnot)
        (h.zoned.relinked_retire hz hzone hlinked hretire.1)
      have hfreeCnt : heap.zoneFreeCnt + 1 = (z :: heap.zoneFree).length := by
        rw [List.length_cons, ← show heap.zoneFreeCnt = _ from h.freeCnt]
      refine ⟨none, _, zones, rfl, ?_⟩
      exact h.give hsmall hsize (henter.perm (List.perm_cons_erase hz).symm) hfreeCnt
        (Nat.not_lt.mp hmany) (fun _ hcall ↦ by cases hcall) (fun _ ↦ rfl) (fun _ _ _ hz _ ↦ hz)
        rfl h.kup (fun _ _ _ ↦ rfl)
  · rw [if_neg hretire, hset, ok_bind]
    have henter := h.zoned.enter hcnt hapart (hheader' (heap.zone z).zMagic)
      (hgive (heap.zone z).zMagic) hothers (fun _ ↦ hmagic)
      (h.zoned.relinked_give hz hzone hlinked rfl hnfree hretire)
    refine ⟨none, _, zones, rfl, ?_⟩
    exact h.give hsmall hsize (henter.perm (List.perm_cons_erase hz).symm) h.freeCnt h.freeCnt_le
      (fun _ hcall ↦ by cases hcall) (fun _ ↦ rfl) (fun _ _ _ hz _ ↦ hz) rfl h.kup
      (fun _ _ _ ↦ rfl)

/-- `rt_free` of a large block, up to the release of its pages. -/
theorem Inv.freeLarge {block : Held} (h : Inv zones ⟨heap, block :: held, calls⟩)
    (hlarge : heap.zoneLimit ≤ block.nbytes)
    (hpage : heap.whole.Holds (block.ptr / rtMmPageSize)) (hne : block.ptr ≠ 0) :
    ∃ job heap', rtFree block.ptr heap = .ok (job, heap') ∧
      Inv zones ⟨heap', held, (job.map (Call.mk · 0)).toList ++ calls⟩ := by
  have hmem : block ∈ block :: held := List.mem_cons_self ..
  have hvalid := h.held block hmem
  have hkup : heap.usage.cell (heap.btokup (block.ptr / rtMmPageSize)) =
      ⟨.large, rtAlign block.nbytes rtMmPageSize / rtMmPageSize⟩ := hvalid.large_kup hlarge
  have hholds := h.large_holds hmem hlarge
  obtain ⟨_, _, halign⟩ := rtAlign_page hvalid.nbytes_lt (hvalid.large_pos hlarge)
  obtain ⟨hlower, hupper⟩ := h.kup_index hpage
  -- the first page of the block is no page of a zone and of no other block
  have halone := h.le_one (block.ptr / rtMmPageSize)
  rw [List.flatMap_cons, tally_append] at halone
  have hown : 0 < tally (block.pages heap.zoneLimit) (block.ptr / rtMmPageSize) := by
    rw [Held.pages, if_pos hlarge]
    exact tally_pos (List.mem_singleton.mpr rfl) hholds
  have hzone : ∀ z ∈ zones, ∀ page, Holds ⟨z, heap.zonePageCnt⟩ page →
      page ≠ block.ptr / rtMmPageSize := by
    rintro z hz page hin rfl
    exact h.large_not_zone hmem hlarge hholds hz hin
  have hheld : ∀ other ∈ held, heap.zoneLimit ≤ other.nbytes →
      other.ptr / rtMmPageSize ≠ block.ptr / rtMmPageSize := by
    intro other hother hlarge' heq
    have hin := h.large_holds (List.mem_cons_of_mem _ hother) hlarge'
    rw [heq] at hin
    have hpos := tally_held hother hlarge' (by rw [heq]; exact hin)
    omega
  rw [rtFree, if_neg hne, Block.read_eq_ok hlower hupper, ok_bind, hkup, if_pos rfl,
    Block.write_eq_ok hlower hupper, ok_bind]
  refine ⟨_, _, rfl, ?_⟩
  have hkept {other : ℕ} (hother : other ≠ block.ptr / rtMmPageSize) :
      Function.update heap.usage.cell (heap.btokup (block.ptr / rtMmPageSize))
        ⟨.large, 0⟩ (heap.btokup other) = heap.kup other :=
    Function.update_of_ne (fun heq ↦ hother (btokup_inj.mp heq)) ..
  exact {
    layout := h.layout
    separated := h.separated
    tiles := fun cell ↦ by
      have htiles : _ = tally [heap.whole] cell := h.tiles cell
      rw [tally_extents, List.flatMap_cons, tally_append] at htiles
      rw [tally_extents, List.flatMap_append, tally_append]
      simp only [Held.pages, if_pos hlarge, Option.map_some, Option.toList_some,
        List.flatMap_cons, List.flatMap_nil, List.append_nil, Job.pages, SlabHeap.whole,
        SlabHeap.npages] at htiles ⊢
      omega
    zoned := by
      have hother : ∀ z ∈ zones, ¬ InRun ⟨z, heap.zonePageCnt⟩ block.ptr :=
        fun z hz hin ↦ hzone z hz _ hin rfl
      exact { h.zoned with
        chunks := fun z hz ↦ (Chunks.cons_iff (hother z hz)
          fun _ hchunk ↦ h.chunks_inRun hz hchunk).mp (h.zoned.chunks z hz) }
    held := fun other hother ↦ by
      have hvalid := h.held other (List.mem_cons_of_mem _ hother)
      exact { hvalid with
        large_kup := fun hlarge ↦
          (hkept (hheld other hother hlarge)).trans (hvalid.large_kup hlarge) }
    kup := fun z hz page hin ↦ (hkept (hzone z hz page hin)).trans (h.kup z hz page hin)
    calls := fun call hcall ↦ by
      rcases List.mem_append.mp hcall with hcall | hcall
      · obtain rfl := List.mem_singleton.mp hcall
        exact ⟨hvalid.aligned hlarge, Nat.pos_of_lt_add_right hholds.2⟩
      · exact h.calls call hcall
    used := by
      have hused := h.used
      have hsize : footprint heap.zoneLimit block.nbytes =
          rtAlign block.nbytes rtMmPageSize / rtMmPageSize * rtMmPageSize := by
        rw [footprint, if_pos hlarge, Nat.mul_comm, halign]
      simp only [List.map_cons, List.sum_cons, hsize] at hused ⊢
      omega
    peak := by
      have hpeak := h.peak
      simp only at hpeak ⊢
      omega
    freeCnt := h.freeCnt
    freeCnt_le := h.freeCnt_le }

/-- A held block lies in a page of the heap, so its pointer is not null. -/
theorem Inv.held_whole (h : Inv zones ⟨heap, held, calls⟩) {block : Held} (hblock : block ∈ held) :
    heap.whole.Holds (block.ptr / rtMmPageSize) ∧ block.ptr ≠ 0 := by
  have htiles : _ = tally [heap.whole] (block.ptr / rtMmPageSize) := h.tiles _
  rw [tally_extents] at htiles
  have hpos := h.held_page hblock
  have hwhole : heap.whole.Holds (block.ptr / rtMmPageSize) := by
    by_contra hnot
    have hzero : tally [heap.whole] (block.ptr / rtMmPageSize) = 0 := by
      rw [tally_singleton, if_neg hnot]
    omega
  refine ⟨hwhole, ?_⟩
  have hstart := h.layout.start_pos
  have halign := h.layout.start_aligned
  have hfirst := hwhole.1
  simp only [SlabHeap.whole, rtMmPageSize] at hstart halign hfirst
  omega

/-- `rt_free` up to the release of pages. -/
theorem Inv.rtFree {block : Held} (h : Inv zones ⟨heap, block :: held, calls⟩) :
    ∃ job heap' zones', rtFree block.ptr heap = .ok (job, heap') ∧
      Inv zones' ⟨heap', held, (job.map (Call.mk · 0)).toList ++ calls⟩ := by
  have hmem : block ∈ block :: held := List.mem_cons_self ..
  obtain ⟨hwhole, hne⟩ := h.held_whole hmem
  rcases Nat.lt_or_ge block.nbytes heap.zoneLimit with hsmall | hlarge
  · obtain ⟨z, hz, hin⟩ : ∃ z ∈ zones, InRun ⟨z, heap.zonePageCnt⟩ block.ptr :=
      (h.held block hmem).small hsmall
    obtain ⟨hlower, hupper⟩ := h.kup_index hwhole
    have hkup : heap.usage.cell (heap.btokup (block.ptr / rtMmPageSize)) =
        ⟨.small, block.ptr / rtMmPageSize - z⟩ := h.kup z hz _ hin
    have hz' : block.ptr / rtMmPageSize - (block.ptr / rtMmPageSize - z) = z :=
      Nat.sub_sub_self hin.1
    obtain ⟨job, heap', zones', hrun, hinv⟩ := h.freeChunk hsmall hz hin
    refine ⟨job, heap', zones', ?_, hinv⟩
    rw [Slab.rtFree, if_neg hne, Block.read_eq_ok hlower hupper, ok_bind, hkup, if_neg nofun, hz',
      hrun]
  · obtain ⟨job, heap', hrun, hinv⟩ := h.freeLarge hlarge hwhole hne
    exact ⟨job, heap', zones, hrun, hinv⟩

end K210Firmware.Kernel.Slab
