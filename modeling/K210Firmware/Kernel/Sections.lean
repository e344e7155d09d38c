import K210Firmware.Kernel.Heap

/-!
# The sections of `rt_malloc` and `rt_free`

Each section is taken from the invariant to the invariant, one lemma a section, and none of them
fails: no assertion of `slab.c` is violated, no null pointer is followed, and `memusage` and
`zone_array` are indexed within their bounds.
-/

namespace K210Firmware.Kernel.Slab

open Memory Extent Pages

variable {zones : List ℕ} {heap : SlabHeap} {held : List Held} {calls : List Call}

/-! ## Zones -/

section Zones

theorem dropExhausted_eq {zi : ℤ} (hlower : 0 ≤ zi) (hupper : zi < heap.zoneArray.size)
    (zNfree : ℕ) (zNext : List ℕ) :
    dropExhausted zi zNfree zNext heap = .ok { heap with
      zoneArray := ⟨heap.zoneArray.size,
        if zNfree = 0 then Function.update heap.zoneArray.cell zi zNext
        else heap.zoneArray.cell⟩ } := by
  rw [dropExhausted]
  split_ifs with hlast
  · rw [SlabHeap.setChain, Block.write_eq_ok hlower hupper, ok_bind]
    rfl
  · rfl

theorem setChain_eq {zi : ℤ} (hlower : 0 ≤ zi) (hupper : zi < heap.zoneArray.size)
    (chain : List ℕ) :
    heap.setChain zi chain = .ok { heap with
      zoneArray := ⟨heap.zoneArray.size, Function.update heap.zoneArray.cell zi chain⟩ } := by
  rw [SlabHeap.setChain, Block.write_eq_ok hlower hupper, ok_bind]
  rfl

/-- A chunk lies in the pages of its zone, and it is not the null pointer. -/
theorem Inv.chunk_inRun (h : Inv zones ⟨heap, held, calls⟩) {z : ℕ} {header : SlabZone}
    (hheader : Header heap.zoneSize heap.zoneLimit z header) {index : ℕ}
    (hindex : index < header.zNmax) :
    InRun ⟨z, heap.zonePageCnt⟩ (header.zBaseptr + index * header.zChunksize) ∧
      header.zBaseptr + index * header.zChunksize ≠ 0 := by
  obtain ⟨hlower, hupper, _⟩ := hheader.chunk_within h.fits hindex
  obtain ⟨hsize, _⟩ := hheader.chunksize h.fits
  have hpages : heap.zonePageCnt * 4096 = heap.zoneSize := h.layout.zone_pages
  unfold InRun Holds stop sizeofSlabZone rtMmPageSize at *
  simp only
  omega

theorem Inv.chunks_inRun (h : Inv zones ⟨heap, held, calls⟩) {z : ℕ} (hz : z ∈ zones) {ptr : ℕ}
    (hchunk : (heap.zone z).Chunk ptr) : InRun ⟨z, heap.zonePageCnt⟩ ptr := by
  obtain ⟨index, hindex, rfl⟩ := hchunk
  exact (h.chunk_inRun (h.zoned.header z hz)
    (Nat.lt_of_le_of_lt hindex (h.zoned.chunks z hz).uindex_lt)).1

/-- A block handed out in zone `z` does not concern the other zones. -/
theorem Inv.chunks_of_ne (h : Inv zones ⟨heap, held, calls⟩) {z other : ℕ} {block : Held}
    (hapart : Apart ⟨z, heap.zonePageCnt⟩ ⟨other, heap.zonePageCnt⟩)
    (hin : InRun ⟨z, heap.zonePageCnt⟩ block.ptr) (hother : other ∈ zones) :
    Chunks (heap.zone other) ⟨other, heap.zonePageCnt⟩ (block :: held) ↔
      Chunks (heap.zone other) ⟨other, heap.zonePageCnt⟩ held :=
  Chunks.cons_iff (hapart _ hin) fun _ hchunk ↦ h.chunks_inRun hother hchunk

theorem chunksize_eq {zoneSize zoneLimit z : ℕ} {header : SlabZone}
    (hfits : Fits zoneSize zoneLimit) (hheader : Header zoneSize zoneLimit z header)
    {nbytes size : ℕ} {zi : ℤ} (hpos : 0 < nbytes) (hlt : nbytes < zoneLimit)
    (hindex : zoneindex nbytes = (zi, size)) (hzi : header.zZoneindex = zi) :
    header.zChunksize = size := by
  obtain ⟨bytes, hpos', hlt', hrequest⟩ := hheader.request
  have hlimit := hfits.limit_le
  have hcongr := zoneindex_congr hpos' (hlt'.trans_le hlimit) hpos (hlt.trans_le hlimit)
    (by rw [hrequest, hindex, hzi])
  rwa [hrequest, hindex] at hcongr

/-- The books after a small request was served from zone `z`, which may be a new zone. -/
theorem Inv.serve {zones₀ : List ℕ} {calls₀ : List Call} (h : Inv zones₀ ⟨heap, held, calls₀⟩)
    {z nbytes size chunk : ℕ} {zi : ℤ} (hpos : 0 < nbytes) (hlt : nbytes < heap.zoneLimit)
    (hindex : zoneindex nbytes = (zi, size)) {usage' : Block Memusage} {zone' : ℕ → SlabZone}
    {chain' : ℤ → List ℕ} {zoneFree' : List ℕ} {zoneFreeCnt' : ℕ} (hz : z ∈ zones)
    (hin : InRun ⟨z, heap.zonePageCnt⟩ chunk)
    (hzoned : Zoned zone' chain' zoneFree' zones heap.zoneSize heap.zoneLimit heap.zonePageCnt
      (⟨chunk, nbytes⟩ :: held))
    (hcnt : zoneFreeCnt' = zoneFree'.length) (hle : zoneFreeCnt' ≤ zoneReleaseThresh)
    (hzones : ∀ z ∈ zones₀, z ∈ zones) (hcalls : ∀ call ∈ calls, call ∈ calls₀)
    (hpages : ∀ cell, tally (zones.map (⟨·, heap.zonePageCnt⟩)) cell +
      tally (calls.flatMap (·.job.pages heap.zonePageCnt)) cell =
        tally (zones₀.map (⟨·, heap.zonePageCnt⟩)) cell +
          tally (calls₀.flatMap (·.job.pages heap.zonePageCnt)) cell)
    (husage : usage'.size = heap.usage.size)
    (hsmall : ∀ z ∈ zones, ∀ page, Holds ⟨z, heap.zonePageCnt⟩ page →
      usage'.cell (heap.btokup page) = ⟨.small, page - z⟩)
    (hlarge : ∀ block ∈ held, heap.zoneLimit ≤ block.nbytes →
      usage'.cell (heap.btokup (block.ptr / rtMmPageSize)) =
        heap.kup (block.ptr / rtMmPageSize)) :
    Inv zones ⟨({ heap with
      usage := usage'
      zone := zone'
      zoneArray := ⟨heap.zoneArray.size, chain'⟩
      zoneFree := zoneFree'
      zoneFreeCnt := zoneFreeCnt' } : SlabHeap).account size, ⟨chunk, nbytes⟩ :: held, calls⟩ where
  layout := by
    have hlayout := h.layout
    simp only [SlabHeap.account, husage]
    exact hlayout
  separated := h.separated
  tiles cell := by
    have hpages' : Held.pages heap.zoneLimit ⟨chunk, nbytes⟩ = [] :=
      if_neg (Nat.not_le.mpr hlt)
    have htiles : _ = tally [heap.whole] cell := h.tiles cell
    have hmoved := hpages cell
    rw [tally_extents] at htiles ⊢
    rw [List.flatMap_cons]
    simp only [SlabHeap.account, hpages', List.nil_append]
    rw [Nat.add_right_comm, Nat.add_assoc _ (tally (zones.map _) cell), hmoved, ← Nat.add_assoc,
      Nat.add_right_comm]
    exact htiles
  zoned := hzoned
  held block hblock := by
    rcases List.mem_cons.mp hblock with rfl | hblock
    · have hnot : ¬ heap.zoneLimit ≤ nbytes := Nat.not_le.mpr hlt
      have hlimit := h.fits.limit_le
      exact ⟨hpos, by simp only; omega, fun _ ↦ ⟨z, hz, hin⟩, fun hle ↦ absurd hle hnot,
        fun hle ↦ absurd hle hnot, fun hle ↦ absurd hle hnot⟩
    · have hvalid := h.held block hblock
      refine ⟨hvalid.nbytes_pos, hvalid.nbytes_lt, fun hlt ↦ ?_, hvalid.aligned, hvalid.large_pos,
        fun hle ↦ (hlarge block hblock hle).trans (hvalid.large_kup hle)⟩
      obtain ⟨z, hz, hin⟩ := hvalid.small hlt
      exact ⟨z, hzones z hz, hin⟩
  kup := hsmall
  calls call hcall := h.calls call (hcalls call hcall)
  used := by
    have hsize : footprint heap.zoneLimit nbytes = size := by
      rw [footprint, if_neg (Nat.not_le.mpr hlt), hindex]
    have hused := h.used
    simp only [SlabHeap.account, List.map_cons, List.sum_cons, hsize] at hused ⊢
    omega
  peak := by
    simp only [SlabHeap.account]
    split_ifs <;> omega
  freeCnt := hcnt
  freeCnt_le := hle

/-- A small request served from the first zone of its chain. -/
theorem Inv.takeChunk (h : Inv zones ⟨heap, held, calls⟩) {zi : ℤ} {z : ℕ} {zNext : List ℕ}
    (hchain : heap.zoneArray.cell zi = z :: zNext) {nbytes size : ℕ} (hpos : 0 < nbytes)
    (hlt : nbytes < heap.zoneLimit) (hindex : zoneindex nbytes = (zi, size)) :
    ∃ chunk heap', takeChunk zi size z zNext heap = .ok (chunk, heap') ∧ chunk ≠ 0 ∧
      Inv zones ⟨heap', ⟨chunk, nbytes⟩ :: held, calls⟩ := by
  obtain ⟨hz, hzone, hzi, hfree⟩ : z ∈ zones ∧ z ∉ heap.zoneFree ∧
      (heap.zone z).zZoneindex = zi ∧ 0 < (heap.zone z).zNfree :=
    (h.zoned.mem_chain zi z).mp (hchain ▸ List.mem_cons_self ..)
  have hheader : Header heap.zoneSize heap.zoneLimit z (heap.zone z) := h.zoned.header z hz
  have hchunks : Chunks (heap.zone z) ⟨z, heap.zonePageCnt⟩ held := h.zoned.chunks z hz
  have hcnt := h.zonePageCnt_pos
  obtain rfl : (heap.zone z).zChunksize = size :=
    chunksize_eq h.fits hheader hpos hlt hindex hzi
  have hrounded := rounded_of_zoneindex hpos (hlt.trans_le h.fits.limit_le) hindex
  have hbound : zi < heap.zoneArray.size := by
    rw [h.layout.chains_eq]
    exact hrounded.index_lt
  have hsize : 0 < (heap.zone z).zChunksize := hpos.trans_le hrounded.le
  have hnmax := hchunks.nfree
  have huindex := hchunks.uindex_lt
  have hnfree := hchunks.nfree_le
  -- both kinds of chunk leave the zone with one free chunk less
  have hserve {header : SlabZone} {chunk : ℕ}
      (hchunks' : Chunks header ⟨z, heap.zonePageCnt⟩ (⟨chunk, nbytes⟩ :: held))
      (hheader' : Header heap.zoneSize heap.zoneLimit z header)
      (hmagic : header.zMagic = (heap.zone z).zMagic) (hzi' : header.zZoneindex = zi)
      (hless : header.zNfree = (heap.zone z).zNfree - 1)
      (hbusy : header.zNfree < header.zNmax) (hin : InRun ⟨z, heap.zonePageCnt⟩ chunk) :
      Inv zones ⟨({ heap with
        zone := Function.update heap.zone z header
        zoneArray := ⟨heap.zoneArray.size, if (heap.zone z).zNfree - 1 = 0 then
          Function.update heap.zoneArray.cell zi zNext else heap.zoneArray.cell⟩ } :
          SlabHeap).account (heap.zone z).zChunksize, ⟨chunk, nbytes⟩ :: held, calls⟩ := by
    refine h.serve hpos hlt hindex hz hin ?_ h.freeCnt h.freeCnt_le (fun _ hz ↦ hz)
      (fun _ hcall ↦ hcall) (fun _ ↦ rfl) rfl h.kup (fun _ _ _ ↦ rfl)
    have hapart : ∀ other ∈ zones, other ≠ z →
        Apart ⟨z, heap.zonePageCnt⟩ ⟨other, heap.zonePageCnt⟩ :=
      fun other hother hne ↦ h.zoned.apart_of_ne hz hother hne.symm
    have henter := h.zoned.enter hcnt hapart hheader' hchunks'
      (fun other hother hne ↦
        (h.chunks_of_ne (hapart other hother hne) hin hother).mpr (h.zoned.chunks other hother))
      (fun _ ↦ hmagic.trans (h.zoned.magic z hz hzone))
      (h.zoned.relinked_take hchain hzi' hbusy)
    rw [hless] at henter
    exact henter.perm (List.perm_cons_erase hz).symm
  rw [Slab.takeChunk, rtAssert_of hfree, ok_bind,
    dropExhausted_eq hrounded.index_nonneg hbound, ok_bind]
  by_cases hfresh : (heap.zone z).zUindex + 1 ≠ (heap.zone z).zNmax
  · rw [if_pos hfresh]
    obtain ⟨hin, hne⟩ := h.chunk_inRun hheader
      (Nat.lt_of_le_of_ne huindex hfresh : (heap.zone z).zUindex + 1 < (heap.zone z).zNmax)
    have hchunks' := @Chunks.takeFresh _ _ held ⟨_, nbytes⟩ hchunks hsize
      (Nat.lt_of_le_of_ne huindex hfresh) hfree rfl (by rw [hindex]) hin
    refine ⟨_, _, rfl, hne,
      hserve hchunks' ⟨hheader.request, hheader.baseptr, hheader.nmax⟩ rfl hzi rfl ?_ hin⟩
    simp only
    omega
  · rw [if_neg hfresh]
    cases hlist : (heap.zone z).zFreechunk with
    | nil =>
      rw [hlist, List.length_nil] at hnmax
      omega
    | cons chunk cNext =>
      have hchunk : (heap.zone z).Chunk chunk :=
        hchunks.freechunk chunk (hlist ▸ List.mem_cons_self ..)
      have hin := h.chunks_inRun hz hchunk
      have hne : chunk ≠ 0 := by
        obtain ⟨index, hle, rfl⟩ := hchunk
        exact (h.chunk_inRun hheader (Nat.lt_of_le_of_lt hle huindex)).2
      have hchunks' := @Chunks.takeFreed _ _ held ⟨_, nbytes⟩ _ hchunks hfree hlist
        (by rw [hindex]) hin
      refine ⟨_, _, rfl, hne,
        hserve hchunks' ⟨hheader.request, hheader.baseptr, hheader.nmax⟩ rfl hzi rfl ?_ hin⟩
      simp only
      omega

/-- The header, the chain and the held block after a small request was served from a zone without
chunks in use, which is new or comes from `zone_free`. -/
theorem Inv.formatted (h : Inv zones ⟨heap, held, calls⟩) {z nbytes size : ℕ} {zi : ℤ}
    (hpos : 0 < nbytes) (hlt : nbytes < heap.zoneLimit) (hindex : zoneindex nbytes = (zi, size))
    (hnew : z ∈ zones → z ∈ heap.zoneFree)
    (hapart : ∀ other ∈ zones, other ≠ z →
      Apart ⟨z, heap.zonePageCnt⟩ ⟨other, heap.zonePageCnt⟩)
    (hnone : ∀ block ∈ held, ¬ InRun ⟨z, heap.zonePageCnt⟩ block.ptr) :
    InRun ⟨z, heap.zonePageCnt⟩ (newZone heap.zoneSize z size zi).zBaseptr ∧
      (newZone heap.zoneSize z size zi).zBaseptr ≠ 0 ∧
      Zoned (Function.update heap.zone z (newZone heap.zoneSize z size zi))
        (Function.update heap.zoneArray.cell zi (z :: heap.zoneArray.cell zi))
        (heap.zoneFree.erase z) (z :: zones.erase z) heap.zoneSize heap.zoneLimit heap.zonePageCnt
        (⟨(newZone heap.zoneSize z size zi).zBaseptr, nbytes⟩ :: held) := by
  set header := newZone heap.zoneSize z size zi with hdef
  have hheader : Header heap.zoneSize heap.zoneLimit z header := newZone_header hpos hlt hindex
  have hnmax := hheader.two_le_nmax h.fits
  obtain ⟨hin, hne⟩ := h.chunk_inRun hheader (Nat.lt_of_lt_of_le Nat.two_pos hnmax)
  rw [Nat.zero_mul, Nat.add_zero] at hin hne
  have hnfree : header.zNfree = header.zNmax - 1 := rfl
  have hchunks : Chunks header ⟨z, heap.zonePageCnt⟩ (⟨header.zBaseptr, nbytes⟩ :: held) :=
    Chunks.ofNew hnmax hnone rfl (by rw [hindex]) hin
  refine ⟨hin, hne, h.zoned.enter h.zonePageCnt_pos hapart hheader hchunks
    (fun other hother hne ↦
      (h.chunks_of_ne (hapart other hother hne) hin hother).mpr (h.zoned.chunks other hother))
    (fun _ ↦ rfl) (h.zoned.relinked_format hnew rfl ?_ ?_)⟩
  · omega
  · omega

theorem formatZone_eq (heap : SlabHeap) {zi : ℤ} (hlower : 0 ≤ zi) (hupper : zi < heap.zoneArray.size)
    (z size : ℕ) : formatZone z size zi heap =
      .ok ((newZone heap.zoneSize z size zi).zBaseptr,
        ({ heap with
          zone := Function.update heap.zone z (newZone heap.zoneSize z size zi)
          zoneArray := ⟨heap.zoneArray.size,
            Function.update heap.zoneArray.cell zi (z :: heap.zoneArray.cell zi)⟩ } :
          SlabHeap).account size) := by
  rw [formatZone, Block.read_eq_ok hlower hupper, ok_bind, setChain_eq hlower hupper, ok_bind]
  rfl

/-- A small request served from a zone of `zone_free`. -/
theorem Inv.reuseZone (h : Inv zones ⟨heap, held, calls⟩) {z : ℕ} {zNext : List ℕ}
    (hfree : heap.zoneFree = z :: zNext) {nbytes size : ℕ} {zi : ℤ} (hpos : 0 < nbytes)
    (hlt : nbytes < heap.zoneLimit) (hindex : zoneindex nbytes = (zi, size)) :
    ∃ chunk heap', formatZone z size zi
        { heap with zoneFree := zNext, zoneFreeCnt := heap.zoneFreeCnt - 1 } = .ok (chunk, heap') ∧
      chunk ≠ 0 ∧ Inv zones ⟨heap', ⟨chunk, nbytes⟩ :: held, calls⟩ := by
  have hmem : z ∈ heap.zoneFree := hfree ▸ List.mem_cons_self ..
  have hz : z ∈ zones := h.zoned.free_sub z hmem
  have hrounded := rounded_of_zoneindex hpos (hlt.trans_le h.fits.limit_le) hindex
  have hbound : zi < heap.zoneArray.size := by
    rw [h.layout.chains_eq]
    exact hrounded.index_lt
  obtain ⟨hin, hne, hzoned⟩ := h.formatted hpos hlt hindex (fun _ ↦ hmem)
    (fun other hother hne ↦ h.zoned.apart_of_ne hz hother hne.symm)
    ((h.zoned.chunks z hz).nfree_eq_iff.mp (h.zoned.free_idle z hmem))
  have hrest : heap.zoneFree.erase z = zNext := by rw [hfree, List.erase_cons_head]
  rw [hrest] at hzoned
  have hcnt : heap.zoneFreeCnt = heap.zoneFree.length := h.freeCnt
  have hle : heap.zoneFreeCnt ≤ zoneReleaseThresh := h.freeCnt_le
  rw [hfree, List.length_cons] at hcnt
  have hcnt' : heap.zoneFreeCnt - 1 = zNext.length := by omega
  have hle' : heap.zoneFreeCnt - 1 ≤ zoneReleaseThresh := by omega
  refine ⟨_, _, formatZone_eq
    { heap with zoneFree := zNext, zoneFreeCnt := heap.zoneFreeCnt - 1 } hrounded.index_nonneg hbound
    z size, hne, ?_⟩
  exact h.serve hpos hlt hindex hz hin (hzoned.perm (List.perm_cons_erase hz).symm) hcnt'
    hle' (fun _ hz ↦ hz) (fun _ hcall ↦ hcall) (fun _ ↦ rfl) rfl h.kup (fun _ _ _ ↦ rfl)

end Zones

/-! ## Pages -/

section PageSections

theorem rtAlign_page {nbytes : ℕ} (hlt : nbytes < 2 ^ 64) (hpos : 0 < rtAlign nbytes rtMmPageSize) :
    nbytes ≤ rtAlign nbytes rtMmPageSize ∧ rtAlign nbytes rtMmPageSize < nbytes + rtMmPageSize ∧
      rtMmPageSize * (rtAlign nbytes rtMmPageSize / rtMmPageSize) =
        rtAlign nbytes rtMmPageSize := by
  simp only [rtAlign, rtMmPageSize] at hpos ⊢
  omega

/-- A page has one place. -/
theorem Inv.le_one (h : Inv zones ⟨heap, held, calls⟩) (page : ℕ) :
    tally heap.rtPageList page + tally [⟨heap.memusage, usagePages heap.npages⟩] page +
      tally (zones.map (⟨·, heap.zonePageCnt⟩)) page +
      tally (held.flatMap (Held.pages heap.zoneLimit)) page +
      tally (calls.flatMap (·.job.pages heap.zonePageCnt)) page ≤ 1 := by
  rw [← tally_extents]
  exact h.tiles.le_one page

theorem tally_zone {zonePageCnt z page : ℕ} (hz : z ∈ zones)
    (hpage : Holds ⟨z, zonePageCnt⟩ page) : 0 < tally (zones.map (⟨·, zonePageCnt⟩)) page :=
  tally_pos (List.mem_map_of_mem hz) hpage

theorem tally_held {zoneLimit page : ℕ} {block : Held} (hblock : block ∈ held)
    (hlarge : zoneLimit ≤ block.nbytes)
    (hpage : Holds ⟨block.ptr / rtMmPageSize, rtAlign block.nbytes rtMmPageSize / rtMmPageSize⟩
      page) : 0 < tally (held.flatMap (Held.pages zoneLimit)) page := by
  refine tally_pos (List.mem_flatMap.mpr ⟨block, hblock, ?_⟩) hpage
  rw [Held.pages, if_pos hlarge]
  exact List.mem_singleton.mpr rfl

theorem Inv.large_holds (h : Inv zones ⟨heap, held, calls⟩) {block : Held} (hblock : block ∈ held)
    (hlarge : heap.zoneLimit ≤ block.nbytes) :
    Holds ⟨block.ptr / rtMmPageSize, rtAlign block.nbytes rtMmPageSize / rtMmPageSize⟩
      (block.ptr / rtMmPageSize) := by
  have hvalid := h.held block hblock
  have hpos := hvalid.large_pos hlarge
  have halign := (rtAlign_page hvalid.nbytes_lt hpos).2.2
  refine holds_first ?_
  simp only [rtMmPageSize] at halign hpos ⊢
  omega

/-- No page of a large block is a page of a zone. -/
theorem Inv.large_not_zone (h : Inv zones ⟨heap, held, calls⟩) {block : Held} (hblock : block ∈ held)
    (hlarge : heap.zoneLimit ≤ block.nbytes) {page : ℕ}
    (hpage : Holds ⟨block.ptr / rtMmPageSize, rtAlign block.nbytes rtMmPageSize / rtMmPageSize⟩ page)
    {z : ℕ} (hz : z ∈ zones) : ¬ Holds ⟨z, heap.zonePageCnt⟩ page := by
  intro hholds
  have hone := h.le_one page
  have hzone := tally_zone hz hholds
  have hown := tally_held hblock hlarge hpage
  omega

/-- The page of a held block is a page of a zone or of the block itself. -/
theorem Inv.held_page (h : Inv zones ⟨heap, held, calls⟩) {block : Held} (hblock : block ∈ held) :
    0 < tally (zones.map (⟨·, heap.zonePageCnt⟩)) (block.ptr / rtMmPageSize) +
      tally (held.flatMap (Held.pages heap.zoneLimit)) (block.ptr / rtMmPageSize) := by
  rcases Nat.lt_or_ge block.nbytes heap.zoneLimit with hsmall | hlarge
  · obtain ⟨z, hz, hin⟩ := (h.held block hblock).small hsmall
    exact Nat.add_pos_left (tally_zone hz hin) _
  · exact Nat.add_pos_right _ (tally_held hblock hlarge (h.large_holds hblock hlarge))

theorem btokup_inj {page other : ℕ} : heap.btokup page = heap.btokup other ↔ page = other := by
  unfold SlabHeap.btokup
  omega

/-- Pages taken from the free list are entered for the call that takes them. -/
theorem Inv.takePages (h : Inv zones ⟨heap, held, calls⟩) {npages page : ℕ}
    {list' : List RtPageHead} (hpos : 0 < npages)
    (halloc : rtPageAlloc npages heap.rtPageList = (some page, list')) {job : Job} {nbytes : ℕ}
    (hpages : job.pages heap.zonePageCnt = [⟨page, npages⟩])
    (hvalid : Call.Valid heap.zoneLimit ⟨job, nbytes⟩) :
    Inv zones ⟨{ heap with rtPageList := list' }, held, ⟨job, nbytes⟩ :: calls⟩ := by
  have hcases := rtPageAlloc_cases hpos h.separated
  simp only [halloc] at hcases
  obtain ⟨page', list'', heq, hseparated, htally⟩ :=
    hcases.resolve_left fun heq ↦ by cases congrArg Prod.fst heq
  cases heq
  exact { h with
    separated := hseparated
    tiles := fun cell ↦ by
      have htiles : _ = tally [heap.whole] cell := h.tiles cell
      rw [tally_extents, htally cell] at htiles
      rw [tally_extents, List.flatMap_cons, tally_append]
      simp only [SlabHeap.whole, SlabHeap.npages, hpages] at htiles ⊢
      omega
    calls := fun call hcall ↦ by
      rcases List.mem_cons.mp hcall with rfl | hcall
      · exact hvalid
      · exact h.calls call hcall }

theorem settle_done {state : State} {nbytes ptr : ℕ} {heap : SlabHeap} (hne : ptr ≠ 0) :
    state.settle nbytes heap (.done ptr) =
      { state with heap, held := ⟨ptr, nbytes⟩ :: state.held } := by
  cases ptr with
  | zero => exact absurd rfl hne
  | succ ptr => rfl

/-- Pages are asked for: none are free, or a call takes them. -/
theorem Inv.alloc (h : Inv zones ⟨heap, held, calls⟩) {npages : ℕ} (hpos : 0 < npages)
    (nbytes : ℕ) (job : ℕ → Job) (hpages : ∀ page, (job page).pages heap.zonePageCnt = [⟨page, npages⟩])
    (hvalid : ∀ page, Call.Valid heap.zoneLimit ⟨job page, nbytes⟩) :
    ∃ outcome list', Inv zones (State.settle ⟨heap, held, calls⟩ nbytes
        { heap with rtPageList := list' } outcome) ∧
      (rtPageAlloc npages heap.rtPageList = (none, list') ∧ outcome = .done 0 ∨
        ∃ page, rtPageAlloc npages heap.rtPageList = (some page, list') ∧
          outcome = .wait (job page)) := by
  rcases rtPageAlloc_cases hpos h.separated with hnone | ⟨page, list', hsome, _⟩
  · exact ⟨.done 0, heap.rtPageList, h, .inl ⟨hnone, rfl⟩⟩
  · exact ⟨.wait (job page), list', h.takePages hpos hsome (hpages page) (hvalid page),
      .inr ⟨page, hsome, rfl⟩⟩

/-- `rt_malloc` up to its first unlock. -/
theorem Inv.rtMalloc (h : Inv zones ⟨heap, held, calls⟩) {size : ℕ} (hlt : size < 2 ^ 64) :
    ∃ outcome heap', rtMalloc size heap = .ok (outcome, heap') ∧
      Inv zones (State.settle ⟨heap, held, calls⟩ size heap' outcome) := by
  unfold Slab.rtMalloc
  split_ifs with hzero hlarge
  · exact ⟨.done 0, heap, rfl, h⟩
  · rcases Nat.eq_zero_or_pos (rtAlign size rtMmPageSize / rtMmPageSize) with hnone | hpos
    · -- a size that wraps around asks for no page
      refine ⟨.done 0, heap, ?_, h⟩
      simp only [hnone, rtPageAlloc, if_pos]
      rfl
    · have halign : 0 < rtAlign size rtMmPageSize := Nat.pos_of_div_pos hpos
      obtain ⟨outcome, list', hinv, hcases⟩ := h.alloc hpos size
        (fun page ↦ .largeTaken page (rtAlign size rtMmPageSize)) (fun _ ↦ rfl)
        (fun _ ↦ ⟨hlarge, hlt, rfl, halign⟩)
      refine ⟨outcome, _, ?_, hinv⟩
      rcases hcases with ⟨heq, rfl⟩ | ⟨page, heq, rfl⟩ <;> simp only [heq] <;> rfl
  · have hsmall : size < heap.zoneLimit := Nat.not_le.mp hlarge
    have hpos : 0 < size := Nat.pos_of_ne_zero hzero
    have hrounded := zoneindex_rounded hpos (hsmall.trans_le h.fits.limit_le)
    have hbound : (zoneindex size).1 < heap.zoneArray.size := by
      rw [h.layout.chains_eq]
      exact hrounded.index_lt
    have hindex : zoneindex size = ((zoneindex size).1, (zoneindex size).2) := rfl
    simp only
    rw [rtAssert_of hrounded.index_lt, ok_bind, Block.read_eq_ok hrounded.index_nonneg hbound,
      ok_bind]
    cases hchain : heap.zoneArray.cell (zoneindex size).1 with
    | cons z zNext =>
      obtain ⟨chunk, heap', hrun, hne, hinv⟩ := h.takeChunk hchain hpos hsmall hindex
      refine ⟨.done chunk, heap', ?_, ?_⟩
      · simp only [hrun, ok_bind]
        rfl
      · rw [settle_done hne]
        exact hinv
    | nil =>
      cases hfree : heap.zoneFree with
      | cons z zNext =>
        obtain ⟨chunk, heap', hrun, hne, hinv⟩ := h.reuseZone hfree hpos hsmall hindex
        refine ⟨.done chunk, heap', ?_, ?_⟩
        · simp only [hrun, ok_bind]
          rfl
        · rw [settle_done hne]
          exact hinv
      | nil =>
        refine ⟨.wait (.zoneWanted (zoneindex size).2 (zoneindex size).1), heap, rfl, ?_⟩
        exact { h with
          tiles := h.tiles
          calls := fun call hcall ↦ by
            rcases List.mem_cons.mp hcall with rfl | hcall
            · exact ⟨hpos, hindex, hsmall⟩
            · exact h.calls call hcall }

/-- A large block is entered in `memusage` and counted. -/
theorem Inv.resumeLarge {page size nbytes : ℕ}
    (h : Inv zones ⟨heap, held, ⟨.largeTaken page size, nbytes⟩ :: calls⟩) :
    ∃ outcome heap', resume (.largeTaken page size) heap = .ok (outcome, heap') ∧
      Inv zones (State.settle ⟨heap, held, calls⟩ nbytes heap' outcome) := by
  obtain ⟨hlarge, hlt, rfl, hpos⟩ :
      heap.zoneLimit ≤ nbytes ∧ nbytes < 2 ^ 64 ∧ size = rtAlign nbytes rtMmPageSize ∧ 0 < size :=
    h.calls _ (List.mem_cons_self ..)
  obtain ⟨_, _, halign⟩ := rtAlign_page hlt hpos
  have hcount : 0 < rtAlign nbytes rtMmPageSize / rtMmPageSize := by
    simp only [rtMmPageSize] at halign hpos ⊢
    omega
  have hwithin := h.call_within (List.mem_cons_self ..) (List.mem_singleton.mpr rfl) hcount
  have hpage : Holds ⟨page, rtAlign nbytes rtMmPageSize / rtMmPageSize⟩ page := holds_first hcount
  have hwhole : heap.whole.Holds page := hwithin.holds hpage
  obtain ⟨hlower, hupper⟩ := h.kup_index hwhole
  have hptr : rtMmPageSize * page / rtMmPageSize = page :=
    Nat.mul_div_cancel_left _ (by decide)
  have hne : rtMmPageSize * page ≠ 0 := by
    have hstart := h.layout.start_pos
    have haligned := h.layout.start_aligned
    have hfirst := hwhole.1
    simp only [SlabHeap.whole, rtMmPageSize] at hstart haligned hfirst ⊢
    omega
  have hsize : rtAlign nbytes rtMmPageSize / rtMmPageSize % 2 ^ 30 =
      rtAlign nbytes rtMmPageSize / rtMmPageSize := by
    have htotal := h.layout.size_lt
    obtain ⟨hfirst, hlast⟩ := hwithin
    simp only [SlabHeap.whole, SlabHeap.npages, stop, rtMmPageSize] at htotal hfirst hlast ⊢
    omega
  -- the page belongs to the call alone
  have halone := h.le_one page
  rw [List.flatMap_cons, tally_append] at halone
  dsimp only at halone
  have hown : 0 < tally (Job.pages heap.zonePageCnt
      (.largeTaken page (rtAlign nbytes rtMmPageSize))) page :=
    tally_pos (List.mem_singleton.mpr rfl) hpage
  have hzone : ∀ z ∈ zones, ∀ other, Holds ⟨z, heap.zonePageCnt⟩ other → other ≠ page := by
    rintro z hz other hother rfl
    have hpos := tally_zone hz hother
    omega
  have hheld : ∀ block ∈ held, heap.zoneLimit ≤ block.nbytes → block.ptr / rtMmPageSize ≠ page := by
    rintro block hblock hlarge rfl
    have hpos := tally_held hblock hlarge (h.large_holds hblock hlarge)
    omega
  unfold resume
  simp only
  rw [Block.write_eq_ok hlower hupper, ok_bind, hsize]
  refine ⟨_, _, rfl, ?_⟩
  rw [settle_done hne]
  have hkept {other : ℕ} (hother : other ≠ page) :
      Function.update heap.usage.cell (heap.btokup page)
        ⟨.large, rtAlign nbytes rtMmPageSize / rtMmPageSize⟩ (heap.btokup other) =
          heap.kup other :=
    Function.update_of_ne (fun heq ↦ hother (btokup_inj.mp heq)) ..
  exact {
    layout := h.layout
    separated := h.separated
    tiles := fun cell ↦ by
      have htiles : _ = tally [heap.whole] cell := h.tiles cell
      rw [tally_extents, List.flatMap_cons, tally_append] at htiles
      rw [tally_extents, List.flatMap_cons, tally_append]
      have hpages : Held.pages heap.zoneLimit ⟨rtMmPageSize * page, nbytes⟩ =
          Job.pages heap.zonePageCnt (.largeTaken page (rtAlign nbytes rtMmPageSize)) := by
        rw [Held.pages, if_pos hlarge, hptr, Job.pages]
      simp only [SlabHeap.account, SlabHeap.whole, SlabHeap.npages, hpages] at htiles ⊢
      omega
    zoned := by
      have hother : ∀ z ∈ zones, ¬ InRun ⟨z, heap.zonePageCnt⟩ (rtMmPageSize * page) := by
        intro z hz hin
        unfold InRun at hin
        rw [hptr] at hin
        exact hzone z hz page hin rfl
      exact { h.zoned with
        chunks := fun z hz ↦ (Chunks.cons_iff (hother z hz)
          fun _ hchunk ↦ h.chunks_inRun hz hchunk).mpr (h.zoned.chunks z hz) }
    held := fun block hblock ↦ by
      rcases List.mem_cons.mp hblock with rfl | hblock
      · refine ⟨?_, hlt, fun hsmall ↦ absurd hsmall (Nat.not_lt.mpr hlarge),
          fun _ ↦ Nat.mul_mod_right _ _, fun _ ↦ hpos, fun _ ↦ ?_⟩
        · have hlimit : heap.zoneLimit = 8192 ∨ heap.zoneLimit = 16384 := h.layout.limit_cases
          simp only
          omega
        · rw [hptr]
          exact Function.update_self ..
      · have hvalid := h.held block hblock
        exact { hvalid with
          large_kup := fun hlarge ↦
            (hkept (hheld block hblock hlarge)).trans (hvalid.large_kup hlarge) }
    kup := fun z hz other hother ↦
      (hkept (hzone z hz other hother)).trans (h.kup z hz other hother)
    calls := fun call hcall ↦ h.calls call (List.mem_cons_of_mem _ hcall)
    used := by
      have hused := h.used
      simp only [SlabHeap.account, List.map_cons, List.sum_cons, footprint, if_pos hlarge] at *
      omega
    peak := by
      simp only [SlabHeap.account]
      split_ifs <;> omega
    freeCnt := h.freeCnt
    freeCnt_le := h.freeCnt_le }

/-- `rt_malloc` asks the page allocator for a zone. -/
theorem Inv.resumeWanted {size nbytes : ℕ} {zi : ℤ}
    (h : Inv zones ⟨heap, held, ⟨.zoneWanted size zi, nbytes⟩ :: calls⟩) :
    ∃ outcome heap', resume (.zoneWanted size zi) heap = .ok (outcome, heap') ∧
      Inv zones (State.settle ⟨heap, held, calls⟩ nbytes heap' outcome) := by
  have hvalid := h.calls _ (List.mem_cons_self ..)
  have hrest : Inv zones ⟨heap, held, calls⟩ := { h with
    tiles := h.tiles
    calls := fun call hcall ↦ h.calls call (List.mem_cons_of_mem _ hcall) }
  have hcnt : heap.zoneSize / rtMmPageSize = heap.zonePageCnt := by
    have hpages := h.layout.zone_pages
    simp only [rtMmPageSize] at hpages ⊢
    omega
  obtain ⟨outcome, list', hinv, hcases⟩ := hrest.alloc h.zonePageCnt_pos nbytes
    (fun z ↦ .zoneTaken z size zi) (fun _ ↦ rfl) (fun _ ↦ hvalid)
  refine ⟨outcome, _, ?_, hinv⟩
  simp only [resume, hcnt]
  rcases hcases with ⟨heq, rfl⟩ | ⟨page, heq, rfl⟩ <;> simp only [heq] <;> rfl

/-- The pages of a zone are described in `memusage`. -/
theorem Inv.setUsage (h : Inv zones ⟨heap, held, calls⟩) {z : ℕ}
    (hwithin : Within ⟨z, heap.zonePageCnt⟩ heap.whole) (entry : ℕ → Memusage) :
    ∃ usage', setUsage (heap.btokup z) heap.zonePageCnt entry heap.usage = .ok usage' ∧
      usage'.size = heap.usage.size ∧
      (∀ page, Holds ⟨z, heap.zonePageCnt⟩ page →
        usage'.cell (heap.btokup page) = entry (page - z)) ∧
      ∀ page, ¬ Holds ⟨z, heap.zonePageCnt⟩ page →
        usage'.cell (heap.btokup page) = heap.kup page := by
  have hcnt := h.zonePageCnt_pos
  have hfirst := h.kup_index (hwithin.holds (holds_first hcnt))
  have hlast : Holds ⟨z, heap.zonePageCnt⟩ (z + heap.zonePageCnt - 1) := by
    refine ⟨?_, ?_⟩ <;> simp only [stop] <;> omega
  have hend := (h.kup_index (hwithin.holds hlast)).2
  simp only [SlabHeap.btokup] at hfirst hend
  obtain ⟨usage', hset, hsize, hcell⟩ := setUsage_spec entry hfirst.1
    (show _ + (heap.zonePageCnt : ℤ) ≤ heap.usage.size by omega)
  refine ⟨usage', hset, hsize, fun page hpage ↦ ?_, fun page hpage ↦ ?_⟩
  · obtain ⟨hlower, hupper⟩ := hpage
    simp only [stop] at hlower hupper
    have hoffset : (heap.btokup page - heap.btokup z).toNat = page - z := by
      simp only [SlabHeap.btokup]
      omega
    rw [hcell, if_pos, ← hoffset]
    · rfl
    · simp only [SlabHeap.btokup]
      omega
  · rw [hcell, if_neg]
    · rfl
    · simp only [Holds, stop] at hpage
      simp only [SlabHeap.btokup]
      omega

/-- The pages of a call are nowhere else. -/
theorem Inv.call_alone {call : Call} (h : Inv zones ⟨heap, held, call :: calls⟩) {run : Extent}
    (hrun : run ∈ call.job.pages heap.zonePageCnt) {page : ℕ} (hpage : run.Holds page) :
    tally heap.rtPageList page = 0 ∧ (∀ z ∈ zones, ¬ Holds ⟨z, heap.zonePageCnt⟩ page) ∧
      (∀ block ∈ held, heap.zoneLimit ≤ block.nbytes →
        ¬ Holds ⟨block.ptr / rtMmPageSize, rtAlign block.nbytes rtMmPageSize / rtMmPageSize⟩ page) ∧
      ∀ block ∈ held, block.ptr / rtMmPageSize ≠ page := by
  have halone := h.le_one page
  rw [List.flatMap_cons, tally_append] at halone
  have hown := tally_pos hrun hpage
  refine ⟨by omega, fun z hz hholds ↦ ?_, fun block hblock hlarge hholds ↦ ?_,
    fun block hblock heq ↦ ?_⟩
  · have hpos := tally_zone hz hholds
    omega
  · have hpos := tally_held hblock hlarge hholds
    omega
  · have hpos := h.held_page hblock
    rw [heq] at hpos
    omega

/-- `rt_malloc` makes a zone of the pages it got and serves the request from it. -/
theorem Inv.resumeZone {z size nbytes : ℕ} {zi : ℤ}
    (h : Inv zones ⟨heap, held, ⟨.zoneTaken z size zi, nbytes⟩ :: calls⟩) :
    ∃ outcome heap', resume (.zoneTaken z size zi) heap = .ok (outcome, heap') ∧
      Inv (z :: zones) (State.settle ⟨heap, held, calls⟩ nbytes heap' outcome) := by
  obtain ⟨hpos, hindex, hlt⟩ : 0 < nbytes ∧ zoneindex nbytes = (zi, size) ∧
      nbytes < heap.zoneLimit := h.calls _ (List.mem_cons_self ..)
  have hrun : (⟨z, heap.zonePageCnt⟩ : Extent) ∈
      Job.pages heap.zonePageCnt (.zoneTaken z size zi) := List.mem_singleton.mpr rfl
  have halone {page : ℕ} (hpage : Holds ⟨z, heap.zonePageCnt⟩ page) := h.call_alone hrun hpage
  have hcnt := h.zonePageCnt_pos
  have hwithin : Within ⟨z, heap.zonePageCnt⟩ heap.whole :=
    h.call_within (List.mem_cons_self ..) hrun hcnt
  obtain ⟨usage', hset, hsize, hin, hout⟩ := h.setUsage hwithin (fun off ↦ ⟨.small, off⟩)
  have hfirst : Holds ⟨z, heap.zonePageCnt⟩ z := holds_first hcnt
  have hnew : z ∉ zones := fun hz ↦ (halone hfirst).2.1 z hz hfirst
  have hapart : ∀ other ∈ zones, other ≠ z →
      Apart ⟨z, heap.zonePageCnt⟩ ⟨other, heap.zonePageCnt⟩ :=
    fun other hother _ page hpage ↦ (halone hpage).2.1 other hother
  have hnone : ∀ block ∈ held, ¬ InRun ⟨z, heap.zonePageCnt⟩ block.ptr :=
    fun block hblock hpage ↦ (halone hpage).2.2.2 block hblock rfl
  obtain ⟨hchunk, hne, hzoned⟩ :=
    h.formatted hpos hlt hindex (fun hz ↦ absurd hz hnew) hapart hnone
  have hfree : z ∉ heap.zoneFree := fun hz ↦ hnew (h.zoned.free_sub z hz)
  rw [List.erase_of_not_mem hnew, List.erase_of_not_mem hfree] at hzoned
  have hrounded := rounded_of_zoneindex hpos (hlt.trans_le h.fits.limit_le) hindex
  have hbound : zi < heap.zoneArray.size := by
    rw [h.layout.chains_eq]
    exact hrounded.index_lt
  have hformat := formatZone_eq { heap with usage := usage' } hrounded.index_nonneg hbound z size
  refine ⟨.done (newZone heap.zoneSize z size zi).zBaseptr, _,
    by simp only [resume, hset, ok_bind, hformat]; rfl, ?_⟩
  rw [settle_done hne]
  refine h.serve hpos hlt hindex (List.mem_cons_self ..) hchunk hzoned h.freeCnt h.freeCnt_le
    (fun _ hz ↦ List.mem_cons_of_mem _ hz) (fun _ hcall ↦ List.mem_cons_of_mem _ hcall)
    (fun cell ↦ ?_) hsize (fun other hother page hpage ↦ ?_) (fun block hblock _ ↦ ?_)
  · rw [List.map_cons, List.flatMap_cons, tally_cons, tally_append, ← tally_singleton]
    simp only [Job.pages]
    omega
  · rcases List.mem_cons.mp hother with rfl | hother
    · exact hin page hpage
    · rw [hout page fun hholds ↦ (halone hholds).2.1 other hother hpage]
      exact h.kup other hother page hpage
  · exact hout _ fun hholds ↦ (halone hholds).2.2.2 block hblock rfl

end PageSections

end K210Firmware.Kernel.Slab
