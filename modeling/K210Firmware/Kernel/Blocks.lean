import K210Firmware.Kernel.Safety

/-!
# Blocks of the kernel heap

In every interleaving of calls, the bytes that threads hold are disjoint from each other and from
every byte that the allocator itself reads or writes: the heads of free pages, the array
`memusage`, the headers of zones, the chunks on their lists and the pages of calls in progress.
-/

namespace K210Firmware.Kernel.Slab

open Memory Extent Pages

/-- The bytes of a run of pages. -/
def pageBytes (run : Extent) : Extent := ⟨rtMmPageSize * run.first, rtMmPageSize * run.count⟩

/-- The bytes of a block, as far as `rt_malloc` has rounded its size up. -/
def Held.bytes (zoneLimit : ℕ) (block : Held) : Extent :=
  ⟨block.ptr, footprint zoneLimit block.nbytes⟩

/-- What the allocator reads and writes between its calls. -/
inductive State.Uses (state : State) : Extent → Prop
  | freePages {run : Extent} : run ∈ state.heap.rtPageList → Uses state (pageBytes run)
  | takenPages {call : Call} {run : Extent} : call ∈ state.calls →
      run ∈ call.job.pages state.heap.zonePageCnt → Uses state (pageBytes run)
  | memusage : Uses state ⟨rtMmPageSize * state.heap.memusage, 4 * state.heap.npages⟩
  | linkedHeader {zi : ℤ} {z : ℕ} : z ∈ state.heap.zoneArray.cell zi →
      Uses state ⟨rtMmPageSize * z, sizeofSlabZone⟩
  | storedHeader {z : ℕ} : z ∈ state.heap.zoneFree → Uses state ⟨rtMmPageSize * z, sizeofSlabZone⟩
  /-- The header that `rt_free` finds for a held block. -/
  | ownHeader {block : Held} : block ∈ state.held →
      (state.heap.kup (block.ptr / rtMmPageSize)).type = .small →
        Uses state ⟨rtMmPageSize * (block.ptr / rtMmPageSize -
          (state.heap.kup (block.ptr / rtMmPageSize)).size), sizeofSlabZone⟩
  | freeChunk {zi : ℤ} {z ptr : ℕ} : z ∈ state.heap.zoneArray.cell zi →
      ptr ∈ (state.heap.zone z).zFreechunk → Uses state ⟨ptr, (state.heap.zone z).zChunksize⟩

section Blocks

variable {zones : List ℕ} {heap : SlabHeap} {held : List Held} {calls : List Call}

theorem apart_pageBytes {run other : Extent} (h : Apart run other) :
    Apart (pageBytes run) (pageBytes other) := by
  intro byte hbyte hbyte'
  have hpage {run : Extent} (hin : (pageBytes run).Holds byte) :
      run.Holds (byte / rtMmPageSize) := by
    obtain ⟨hlower, hupper⟩ := hin
    simp only [pageBytes, Holds, stop, rtMmPageSize] at hlower hupper ⊢
    omega
  exact h _ (hpage hbyte) (hpage hbyte')

/-- Two chunks of a zone are the same or apart. -/
theorem chunks_apart {header : SlabZone} {ptr other : ℕ} (hptr : header.Chunk ptr)
    (hother : header.Chunk other) (hne : ptr ≠ other) :
    Apart ⟨ptr, header.zChunksize⟩ ⟨other, header.zChunksize⟩ := by
  obtain ⟨index, _, rfl⟩ := hptr
  obtain ⟨index', _, rfl⟩ := hother
  rcases Nat.lt_trichotomy index index' with hlt | rfl | hlt
  · refine apart_of_stop_le ?_
    have hstep := Nat.mul_le_mul_right header.zChunksize (Nat.succ_le_of_lt hlt)
    rw [Nat.succ_mul] at hstep
    simp only [stop]
    omega
  · exact absurd rfl hne
  · refine (apart_of_stop_le ?_).symm
    have hstep := Nat.mul_le_mul_right header.zChunksize (Nat.succ_le_of_lt hlt)
    rw [Nat.succ_mul] at hstep
    simp only [stop]
    omega

namespace Inv

/-- The bytes of a chunk lie behind the header in the pages of its zone. -/
theorem chunk_bytes (h : Inv zones ⟨heap, held, calls⟩) {z ptr : ℕ} (hz : z ∈ zones)
    (hchunk : (heap.zone z).Chunk ptr) :
    rtMmPageSize * z + sizeofSlabZone ≤ ptr ∧ 8 ∣ ptr ∧
      Within ⟨ptr, (heap.zone z).zChunksize⟩ (pageBytes ⟨z, heap.zonePageCnt⟩) := by
  obtain ⟨index, hindex, rfl⟩ := hchunk
  obtain ⟨hlower, hupper, haligned⟩ := (h.zoned.header z hz).chunk_within h.fits
    (Nat.lt_of_le_of_lt hindex (h.zoned.chunks z hz).uindex_lt)
  have hpages : heap.zonePageCnt * 4096 = heap.zoneSize := h.layout.zone_pages
  refine ⟨hlower, haligned, ?_, ?_⟩
  · simp only [pageBytes]
    exact (Nat.le_add_right _ _).trans hlower
  · simp only [pageBytes, stop]
    have hbytes : rtMmPageSize * heap.zonePageCnt = heap.zoneSize := by
      rw [Nat.mul_comm]
      exact hpages
    rw [hbytes]
    exact hupper

/-- A small block is a chunk of a zone. -/
theorem small_home (h : Inv zones ⟨heap, held, calls⟩) {block : Held} (hblock : block ∈ held)
    (hsmall : block.nbytes < heap.zoneLimit) :
    ∃ z ∈ zones, InRun ⟨z, heap.zonePageCnt⟩ block.ptr ∧ (heap.zone z).Chunk block.ptr ∧
      block.bytes heap.zoneLimit = ⟨block.ptr, (heap.zone z).zChunksize⟩ := by
  obtain ⟨z, hz, hin⟩ : ∃ z ∈ zones, InRun ⟨z, heap.zonePageCnt⟩ block.ptr :=
    (h.held block hblock).small hsmall
  obtain ⟨hchunk, hsize⟩ := (h.zoned.chunks z hz).own block hblock hin
  refine ⟨z, hz, hin, hchunk, ?_⟩
  rw [Held.bytes, footprint, if_neg (Nat.not_le.mpr hsmall)]
  exact congrArg (Extent.mk block.ptr) hsize.symm

/-- A large block is a run of pages. -/
theorem large_home (h : Inv zones ⟨heap, held, calls⟩) {block : Held} (hblock : block ∈ held)
    (hlarge : heap.zoneLimit ≤ block.nbytes) :
    block.bytes heap.zoneLimit = pageBytes
      ⟨block.ptr / rtMmPageSize, rtAlign block.nbytes rtMmPageSize / rtMmPageSize⟩ := by
  have hvalid := h.held block hblock
  obtain ⟨_, _, halign⟩ := rtAlign_page hvalid.nbytes_lt (hvalid.large_pos hlarge)
  have hptr : rtMmPageSize * (block.ptr / rtMmPageSize) = block.ptr :=
    Nat.mul_div_cancel' (Nat.dvd_of_mod_eq_zero (hvalid.aligned hlarge))
  rw [Held.bytes, footprint, if_pos hlarge, pageBytes, hptr, halign]

/-- The bytes of a block lie in pages that are in a zone or belong to the block. -/
theorem home (h : Inv zones ⟨heap, held, calls⟩) {block : Held} (hblock : block ∈ held) :
    ∃ run, (block.bytes heap.zoneLimit).Within (pageBytes run) ∧ 0 < run.count ∧
      (run ∈ zones.map (⟨·, heap.zonePageCnt⟩) ∨
        run ∈ held.flatMap (Held.pages heap.zoneLimit)) := by
  rcases Nat.lt_or_ge block.nbytes heap.zoneLimit with hsmall | hlarge
  · obtain ⟨z, hz, _, hchunk, hbytes⟩ := h.small_home hblock hsmall
    rw [hbytes]
    exact ⟨⟨z, heap.zonePageCnt⟩, (h.chunk_bytes hz hchunk).2.2, h.zonePageCnt_pos,
      .inl (List.mem_map_of_mem hz)⟩
  · rw [h.large_home hblock hlarge]
    refine ⟨_, ⟨Nat.le_refl _, Nat.le_refl _⟩, ?_,
      .inr (List.mem_flatMap.mpr ⟨block, hblock, ?_⟩)⟩
    · exact Nat.pos_of_lt_add_right (h.large_holds hblock hlarge).2
    · rw [Held.pages, if_pos hlarge]
      exact List.mem_singleton.mpr rfl

/-- Pages that count elsewhere are apart from every held block. -/
theorem apart_elsewhere (h : Inv zones ⟨heap, held, calls⟩) {block : Held} (hblock : block ∈ held)
    {run : Extent}
    (hrun : ∀ page, run.Holds page → 0 < tally heap.rtPageList page +
      tally [⟨heap.memusage, usagePages heap.npages⟩] page +
      tally (calls.flatMap (·.job.pages heap.zonePageCnt)) page) :
    Apart (block.bytes heap.zoneLimit) (pageBytes run) := by
  obtain ⟨home, hwithin, _, hhome⟩ := h.home hblock
  refine (apart_pageBytes fun page hpage hother ↦ ?_).mono hwithin ⟨Nat.le_refl _, Nat.le_refl _⟩
  have hone := h.le_one page
  have hpos := hrun page hother
  rcases hhome with hhome | hhome
  · have hown := tally_pos hhome hpage
    omega
  · have hown := tally_pos hhome hpage
    omega

/-- What lies in a zone is apart from a held block outside the zone. -/
theorem apart_zone (h : Inv zones ⟨heap, held, calls⟩) {block : Held} (hblock : block ∈ held)
    {z : ℕ} (hz : z ∈ zones) {extent : Extent}
    (hwithin : extent.Within (pageBytes ⟨z, heap.zonePageCnt⟩))
    (hinside : InRun ⟨z, heap.zonePageCnt⟩ block.ptr → (heap.zone z).Chunk block.ptr →
      Apart ⟨block.ptr, (heap.zone z).zChunksize⟩ extent) :
    Apart (block.bytes heap.zoneLimit) extent := by
  rcases Nat.lt_or_ge block.nbytes heap.zoneLimit with hsmall | hlarge
  · obtain ⟨z', hz', hin, hchunk, hbytes⟩ := h.small_home hblock hsmall
    rw [hbytes]
    by_cases hsame : z' = z
    · subst hsame
      exact hinside hin hchunk
    · exact (apart_pageBytes (h.zoned.apart_of_ne hz' hz hsame)).mono
        (h.chunk_bytes hz' hchunk).2.2 hwithin
  · rw [h.large_home hblock hlarge]
    exact (apart_pageBytes fun page hpage hother ↦
      h.large_not_zone hblock hlarge hpage hz hother).mono ⟨Nat.le_refl _, Nat.le_refl _⟩ hwithin

theorem apart_header (h : Inv zones ⟨heap, held, calls⟩) {block : Held} (hblock : block ∈ held)
    {z : ℕ} (hz : z ∈ zones) :
    Apart (block.bytes heap.zoneLimit) ⟨rtMmPageSize * z, sizeofSlabZone⟩ := by
  have hcnt := h.zonePageCnt_pos
  refine h.apart_zone hblock hz ⟨Nat.le_refl _, ?_⟩ fun _ hchunk ↦ ?_
  · simp only [pageBytes, stop, sizeofSlabZone, rtMmPageSize]
    omega
  · exact (@apart_of_stop_le ⟨rtMmPageSize * z, sizeofSlabZone⟩ ⟨block.ptr, _⟩
      (h.chunk_bytes hz hchunk).1).symm

theorem apart_uses (h : Inv zones ⟨heap, held, calls⟩) {block : Held} (hblock : block ∈ held)
    {extent : Extent} (huses : State.Uses ⟨heap, held, calls⟩ extent) :
    Apart (block.bytes heap.zoneLimit) extent := by
  have hlinked {zi : ℤ} {z : ℕ} (hz : z ∈ heap.zoneArray.cell zi) : z ∈ zones :=
    ((h.zoned.mem_chain zi z).mp hz).1
  cases huses with
  | freePages hrun =>
    refine h.apart_elsewhere hblock fun page hpage ↦ ?_
    have hpos := tally_pos hrun hpage
    simp only at hpos
    omega
  | @takenPages call run hcall hrun =>
    refine h.apart_elsewhere hblock fun page hpage ↦ ?_
    have hmem : run ∈ calls.flatMap (·.job.pages heap.zonePageCnt) :=
      List.mem_flatMap.mpr ⟨call, hcall, hrun⟩
    have hpos := tally_pos hmem hpage
    omega
  | memusage =>
    have hpages : Apart (block.bytes heap.zoneLimit)
        (pageBytes ⟨heap.memusage, usagePages heap.npages⟩) := by
      refine h.apart_elsewhere hblock fun page hpage ↦ ?_
      have hpos := tally_pos (List.mem_singleton.mpr rfl) hpage
      omega
    refine hpages.mono ⟨Nat.le_refl _, Nat.le_refl _⟩ ⟨Nat.le_refl _, ?_⟩
    have hlt := h.layout.size_lt
    simp only [pageBytes, stop, usagePages, rtAlign, SlabHeap.npages, rtMmPageSize] at hlt ⊢
    omega
  | linkedHeader hz => exact h.apart_header hblock (hlinked hz)
  | storedHeader hz => exact h.apart_header hblock (h.zoned.free_sub _ hz)
  | @ownHeader other hother hsmall =>
    refine h.apart_header hblock ?_
    rcases Nat.lt_or_ge other.nbytes heap.zoneLimit with hlt | hlarge
    · obtain ⟨z, hz, hin, _⟩ := h.small_home hother hlt
      have hkup : heap.kup (other.ptr / rtMmPageSize) =
          ⟨.small, other.ptr / rtMmPageSize - z⟩ := h.kup z hz _ hin
      simp only [hkup]
      rwa [Nat.sub_sub_self hin.1]
    · have hkup : heap.kup (other.ptr / rtMmPageSize) =
          ⟨.large, rtAlign other.nbytes rtMmPageSize / rtMmPageSize⟩ :=
        (h.held other hother).large_kup hlarge
      simp only [hkup] at hsmall
      cases hsmall
  | @freeChunk zi z ptr hz hptr =>
    have hmem := hlinked hz
    have hchunks : Chunks (heap.zone z) ⟨z, heap.zonePageCnt⟩ held := h.zoned.chunks z hmem
    have hfreed := hchunks.freechunk ptr hptr
    refine h.apart_zone hblock hmem (h.chunk_bytes hmem hfreed).2.2 fun _ hchunk ↦ ?_
    refine chunks_apart hchunk hfreed ?_
    rintro rfl
    have honce := hchunks.once _ hfreed
    have hheld : 0 < (held.map Held.ptr).count block.ptr :=
      List.count_pos_iff.mpr (List.mem_map_of_mem hblock)
    have hlist : 0 < (heap.zone z).zFreechunk.count block.ptr := List.count_pos_iff.mpr hptr
    omega

theorem held_apart {block other : Held}
    (h : Inv zones ⟨heap, block :: other :: held, calls⟩) :
    Apart (block.bytes heap.zoneLimit) (other.bytes heap.zoneLimit) := by
  have hblock : block ∈ block :: other :: held := List.mem_cons_self ..
  have hother : other ∈ block :: other :: held :=
    List.mem_cons_of_mem _ (List.mem_cons_self ..)
  rcases Nat.lt_or_ge other.nbytes heap.zoneLimit with hsmall | hlarge
  · obtain ⟨z, hz, _, hchunk, hbytes⟩ := h.small_home hother hsmall
    rw [hbytes]
    refine h.apart_zone hblock hz (h.chunk_bytes hz hchunk).2.2 fun _ hchunk' ↦ ?_
    refine chunks_apart hchunk' hchunk fun hsame ↦ ?_
    have honce := (h.zoned.chunks z hz).once _ hchunk
    simp only [List.map_cons, hsame, List.count_cons_self] at honce
    omega
  · rcases Nat.lt_or_ge block.nbytes heap.zoneLimit with hsmall | hlarge'
    · obtain ⟨z, hz, _, hchunk, hbytes⟩ := h.small_home hblock hsmall
      rw [hbytes, h.large_home hother hlarge]
      exact (apart_pageBytes fun page hpage hpage' ↦
        h.large_not_zone hother hlarge hpage' hz hpage).mono (h.chunk_bytes hz hchunk).2.2
          ⟨Nat.le_refl _, Nat.le_refl _⟩
    · rw [h.large_home hblock hlarge', h.large_home hother hlarge]
      refine apart_pageBytes fun page hpage hpage' ↦ ?_
      have hone := h.le_one page
      rw [List.flatMap_cons, List.flatMap_cons, tally_append, tally_append] at hone
      simp only [Held.pages, if_pos hlarge, if_pos hlarge'] at hone
      have hfirst := tally_pos (List.mem_singleton.mpr rfl) hpage
      have hsecond := tally_pos (List.mem_singleton.mpr rfl) hpage'
      omega

end Inv

/-! ## Main results -/

/-- What threads rely on. -/
structure State.Safe (state : State) : Prop where
  disjoint : (state.held.map (Held.bytes state.heap.zoneLimit)).Pairwise Apart
  untouched : ∀ block ∈ state.held, ∀ extent, state.Uses extent →
    Apart (block.bytes state.heap.zoneLimit) extent
  enough : ∀ block ∈ state.held, block.nbytes ≤ footprint state.heap.zoneLimit block.nbytes
  inside : ∀ block ∈ state.held, state.heap.heapStart ≤ block.ptr ∧
    block.ptr + footprint state.heap.zoneLimit block.nbytes ≤ state.heap.heapEnd
  aligned : ∀ block ∈ state.held, 8 ∣ block.ptr

theorem Inv.safe (h : Inv zones ⟨heap, held, calls⟩) : State.Safe ⟨heap, held, calls⟩ where
  disjoint := by
    rw [List.pairwise_map, List.pairwise_iff_forall_sublist]
    intro block other hsublist
    obtain ⟨rest, hperm⟩ := hsublist.exists_perm_append
    exact (h.perm (List.Perm.refl _) hperm (List.Perm.refl _)).held_apart
  untouched block hblock extent huses := h.apart_uses hblock huses
  enough block hblock := by
    have hvalid := h.held block hblock
    rw [footprint]
    split_ifs with hlarge
    · exact (rtAlign_page hvalid.nbytes_lt (hvalid.large_pos hlarge)).1
    · exact (zoneindex_rounded hvalid.nbytes_pos
        ((Nat.not_le.mp hlarge).trans_le h.fits.limit_le)).le
  inside block hblock := by
    obtain ⟨run, hwithin, hpos, hhome⟩ := h.home hblock
    have hmem : run ∈ State.extents zones ⟨heap, held, calls⟩ := by
      unfold State.extents
      simp only [List.mem_append, List.mem_cons]
      rcases hhome with hhome | hhome
      · exact .inr (.inr (.inl hhome))
      · exact .inr (.inr (.inr (.inl hhome)))
    have hwhole : run.Within heap.whole := h.tiles.within hmem hpos
    have hstart := h.layout.start_aligned
    have hend := h.layout.end_aligned
    obtain ⟨hlower, hupper⟩ := hwithin
    obtain ⟨hfirst, hlast⟩ := hwhole
    simp only [Held.bytes, pageBytes, stop, SlabHeap.whole, SlabHeap.npages, rtMmPageSize] at *
    omega
  aligned block hblock := by
    rcases Nat.lt_or_ge block.nbytes heap.zoneLimit with hsmall | hlarge
    · obtain ⟨z, hz, _, hchunk, _⟩ := h.small_home hblock hsmall
      exact (h.chunk_bytes hz hchunk).2.1
    · have haligned : block.ptr % 4096 = 0 := (h.held block hblock).aligned hlarge
      omega

/-- **Safety of the kernel heap**, in every interleaving of calls. -/
theorem heap_safe {state : State} {events : List Event} (h : Boots heap)
    (hrun : system.Run ⟨heap, [], []⟩ events state) : state.Safe := by
  obtain ⟨zones, hinv⟩ := h.run_inv hrun
  exact hinv.safe

theorem heap_safe_freshHeap : ∃ state : State, state.held = threeBlocks ∧ state.Safe := by
  obtain ⟨state, hrun, hheld⟩ := run_threeMallocs
  exact ⟨state, hheld, heap_safe boots_freshHeap hrun⟩

end Blocks

end K210Firmware.Kernel.Slab
