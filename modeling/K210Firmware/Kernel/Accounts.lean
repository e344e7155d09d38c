import K210Firmware.Kernel.Blocks
import Mathlib.Data.Finset.Card
import Mathlib.Data.Int.Interval

/-!
# The accounts of the kernel heap

What the numbers of `rt_memory_info` mean, what a failed request for pages means, and what is left
when every block has been given back.
-/

namespace K210Firmware.Kernel.Slab

open Memory Extent Pages

/-! ## Pages -/

section Reserve

variable {zones : List ℕ} {heap : SlabHeap} {calls : List Call}

/-- With no block in use, a zone is kept in `zone_free` or is the only zone of its index. -/
theorem Inv.zones_length_le (h : Inv zones ⟨heap, [], calls⟩) : zones.length ≤ 74 := by
  have hnodup : zones.Nodup := h.zoned.nodup h.zonePageCnt_pos
  have hidle {z : ℕ} (hz : z ∈ zones) : (heap.zone z).zNfree = (heap.zone z).zNmax :=
    (h.zoned.chunks z hz).nfree_eq_iff.mpr nofun
  have hsplit : zones.length = (zones.filter fun z ↦ decide (z ∈ heap.zoneFree)).length +
      (zones.filter fun z ↦ !decide (z ∈ heap.zoneFree)).length :=
    List.length_eq_length_filter_add _
  have hstored : (zones.filter fun z ↦ decide (z ∈ heap.zoneFree)).length ≤ 2 := by
    have hsub : (zones.filter fun z ↦ decide (z ∈ heap.zoneFree)) ⊆ heap.zoneFree :=
      fun z hz ↦ by simpa using (List.mem_filter.mp hz).2
    have hle := ((hnodup.filter _).subperm hsub).length_le
    have hcnt : heap.zoneFreeCnt = heap.zoneFree.length := h.freeCnt
    have hmax : heap.zoneFreeCnt ≤ 2 := h.freeCnt_le
    omega
  have hlinked : (zones.filter fun z ↦ !decide (z ∈ heap.zoneFree)).length ≤ 72 := by
    have hmem {z : ℕ} (hz : z ∈ (zones.filter fun z ↦ !decide (z ∈ heap.zoneFree)).toFinset) :
        z ∈ zones ∧ z ∉ heap.zoneFree := by
      simpa using hz
    have hinj : Set.InjOn (fun z ↦ (heap.zone z).zZoneindex)
        (zones.filter fun z ↦ !decide (z ∈ heap.zoneFree)).toFinset := by
      intro z hz other hother hindex
      obtain ⟨hz, hfree⟩ := hmem hz
      obtain ⟨hother, hfree'⟩ := hmem hother
      exact h.zoned.spare z hz other hother hfree hfree' hindex (hidle hz) (hidle hother)
    have hmaps : ∀ z ∈ (zones.filter fun z ↦ !decide (z ∈ heap.zoneFree)).toFinset,
        (heap.zone z).zZoneindex ∈ Finset.Ico (0 : ℤ) 72 := by
      intro z hz
      obtain ⟨_, _, _, hlower, hupper⟩ := (h.zoned.header z (hmem hz).1).chunksize h.fits
      exact Finset.mem_Ico.mpr ⟨hlower, hupper⟩
    have hcard := Finset.card_le_card_of_injOn _ hmaps hinj
    rw [List.toFinset_card_of_nodup (hnodup.filter _), Int.card_Ico] at hcard
    exact hcard
  omega

end Reserve

/-! ## The statistics -/

section Statistics

variable {heap heap' : SlabHeap}

/-- The two counters of `heap'` follow those of `heap`: `max_mem` is the greatest value so far. -/
def Counts (heap heap' : SlabHeap) : Prop :=
  heap'.maxMem = if heap'.usedMem > heap.maxMem then heap'.usedMem else heap.maxMem

theorem counts_of_le (hused : heap'.usedMem ≤ heap.usedMem) (hpeak : heap.usedMem ≤ heap.maxMem)
    (hmax : heap'.maxMem = heap.maxMem) : Counts heap heap' := by
  rw [Counts, if_neg (by omega), hmax]

theorem setChain_counters {zi : ℤ} {chain : List ℕ} (h : heap.setChain zi chain = .ok heap') :
    heap'.usedMem = heap.usedMem ∧ heap'.maxMem = heap.maxMem := by
  obtain ⟨_, _, h⟩ := bind_eq_ok.mp h
  cases h
  exact ⟨rfl, rfl⟩

theorem takeChunk_counts {zi : ℤ} {size z chunk : ℕ} {zNext : List ℕ}
    (h : takeChunk zi size z zNext heap = .ok (chunk, heap')) : Counts heap heap' := by
  obtain ⟨_, _, h⟩ := bind_eq_ok.mp h
  obtain ⟨middle, hmiddle, h⟩ := bind_eq_ok.mp h
  have hsame : middle.usedMem = heap.usedMem ∧ middle.maxMem = heap.maxMem := by
    rw [dropExhausted] at hmiddle
    split_ifs at hmiddle
    · exact setChain_counters hmiddle
    · cases hmiddle
      exact ⟨rfl, rfl⟩
  rw [Counts, ← hsame.2]
  split_ifs at h
  · cases h
    rfl
  · cases hlist : (heap.zone z).zFreechunk with
    | nil =>
      simp only [hlist] at h
      cases h
    | cons ptr cNext =>
      simp only [hlist] at h
      cases h
      rfl

theorem formatZone_counts {zi : ℤ} {size z chunk : ℕ}
    (h : formatZone z size zi heap = .ok (chunk, heap')) : Counts heap heap' := by
  obtain ⟨chain, _, h⟩ := bind_eq_ok.mp h
  obtain ⟨middle, hmiddle, h⟩ := bind_eq_ok.mp h
  rw [Counts, ← (setChain_counters hmiddle).2]
  cases h
  rfl

theorem rtMalloc_counts {size : ℕ} {outcome : Outcome} (hpeak : heap.usedMem ≤ heap.maxMem)
    (h : rtMalloc size heap = .ok (outcome, heap')) : Counts heap heap' := by
  rw [rtMalloc] at h
  split_ifs at h
  · cases h
    exact counts_of_le (Nat.le_refl _) hpeak rfl
  · simp only at h
    split at h <;> cases h <;> exact counts_of_le (Nat.le_refl _) hpeak rfl
  · obtain ⟨_, _, h⟩ := bind_eq_ok.mp h
    obtain ⟨chain, _, h⟩ := bind_eq_ok.mp h
    split at h
    · obtain ⟨⟨chunk, taken⟩, htaken, h⟩ := bind_eq_ok.mp h
      cases h
      exact takeChunk_counts htaken
    · split at h
      · obtain ⟨⟨chunk, taken⟩, htaken, h⟩ := bind_eq_ok.mp h
        cases h
        have hcounts := formatZone_counts htaken
        exact hcounts
      · cases h
        exact counts_of_le (Nat.le_refl _) hpeak rfl

theorem resume_counts {job : Job} {outcome : Outcome} (hpeak : heap.usedMem ≤ heap.maxMem)
    (h : resume job heap = .ok (outcome, heap')) : Counts heap heap' := by
  cases job with
  | largeTaken page size =>
    obtain ⟨usage, _, h⟩ := bind_eq_ok.mp h
    cases h
    rfl
  | zoneWanted size zi =>
    simp only [resume] at h
    split at h <;> cases h <;> exact counts_of_le (Nat.le_refl _) hpeak rfl
  | zoneTaken z size zi =>
    obtain ⟨usage, _, h⟩ := bind_eq_ok.mp h
    obtain ⟨⟨chunk, taken⟩, htaken, h⟩ := bind_eq_ok.mp h
    cases h
    have hcounts := formatZone_counts htaken
    exact hcounts
  | pageFree addr npages =>
    obtain ⟨list, _, h⟩ := bind_eq_ok.mp h
    cases h
    exact counts_of_le (Nat.le_refl _) hpeak rfl

theorem storeFreeZone_counters {z : ℕ} {job : Option Job}
    (h : storeFreeZone z heap = .ok (job, heap')) :
    heap'.usedMem = heap.usedMem ∧ heap'.maxMem = heap.maxMem := by
  rw [storeFreeZone] at h
  split_ifs at h
  · obtain ⟨usage, _, h⟩ := bind_eq_ok.mp h
    cases h
    exact ⟨rfl, rfl⟩
  · cases h
    exact ⟨rfl, rfl⟩

theorem relinkZone_counters {z : ℕ} {zone : SlabZone} {linked : List ℕ} {job : Option Job}
    (h : relinkZone z zone linked heap = .ok (job, heap')) :
    heap'.usedMem = heap.usedMem ∧ heap'.maxMem = heap.maxMem := by
  rw [relinkZone] at h
  by_cases hretire : zone.zNfree = zone.zNmax ∧ linked ≠ [z]
  · rw [if_pos hretire] at h
    by_cases hmem : z ∈ linked
    · rw [if_neg (not_not_intro hmem)] at h
      obtain ⟨middle, hmiddle, h⟩ := bind_eq_ok.mp h
      have hlinked := setChain_counters hmiddle
      have hstored := storeFreeZone_counters h
      exact ⟨hstored.1.trans hlinked.1, hstored.2.trans hlinked.2⟩
    · rw [if_pos hmem] at h
      cases h
  · rw [if_neg hretire] at h
    obtain ⟨middle, hmiddle, h⟩ := bind_eq_ok.mp h
    cases h
    have hlinked := setChain_counters hmiddle
    exact hlinked

theorem rtFree_counts {ptr : ℕ} {job : Option Job} (hpeak : heap.usedMem ≤ heap.maxMem)
    (h : rtFree ptr heap = .ok (job, heap')) : Counts heap heap' := by
  rw [rtFree] at h
  split_ifs at h
  · cases h
    exact counts_of_le (Nat.le_refl _) hpeak rfl
  obtain ⟨kup, _, h⟩ := bind_eq_ok.mp h
  split_ifs at h
  · obtain ⟨usage, _, h⟩ := bind_eq_ok.mp h
    cases h
    exact counts_of_le (Nat.sub_le _ _) hpeak rfl
  · obtain ⟨_, _, h⟩ := bind_eq_ok.mp h
    obtain ⟨chain, _, h⟩ := bind_eq_ok.mp h
    have hlinked := relinkZone_counters h
    exact counts_of_le (hlinked.1.trans_le (Nat.sub_le _ _)) hpeak hlinked.2

theorem step_counts {state next : State} {event : Event}
    (hpeak : state.heap.usedMem ≤ state.heap.maxMem) (h : step state event = .ok next) :
    Counts state.heap next.heap := by
  have hsettle (state : State) (nbytes : ℕ) (heap : SlabHeap) (outcome : Outcome) :
      (state.settle nbytes heap outcome).heap = heap := by
    cases outcome with
    | done ptr => cases ptr <;> rfl
    | wait job => rfl
  cases event with
  | malloc size =>
    obtain ⟨⟨outcome, heap'⟩, hrun, h⟩ := bind_eq_ok.mp h
    cases h
    simp only [hsettle]
    exact rtMalloc_counts hpeak hrun
  | free block =>
    obtain ⟨⟨job, heap'⟩, hrun, h⟩ := bind_eq_ok.mp h
    cases h
    exact rtFree_counts hpeak hrun
  | resume call =>
    obtain ⟨⟨outcome, heap'⟩, hrun, h⟩ := bind_eq_ok.mp h
    cases h
    simp only [hsettle]
    exact resume_counts hpeak hrun

/-- `max_mem` is the greatest `used_mem` of the run, or what it was before. -/
theorem run_counts {first last : State} {events : List Event}
    (hinv : ∀ before after middle, events = before ++ after → system.Run first before middle →
      middle.heap.usedMem ≤ middle.heap.maxMem)
    (hrun : system.Run first events last) :
    first.heap.maxMem ≤ last.heap.maxMem ∧
      (∀ before after middle, events = before ++ after → system.Run first before middle →
        middle.heap.usedMem ≤ last.heap.maxMem) ∧
      (last.heap.maxMem = first.heap.maxMem ∨ ∃ before after middle, events = before ++ after ∧
        system.Run first before middle ∧ middle.heap.usedMem = last.heap.maxMem) := by
  induction hrun with
  | nil state =>
    refine ⟨Nat.le_refl _, fun before after middle hsplit hmiddle ↦ ?_, .inl rfl⟩
    obtain ⟨rfl, rfl⟩ := List.append_eq_nil_iff.mp hsplit.symm
    cases hmiddle
    exact hinv [] [] state rfl (.nil state)
  | @cons state next last event events henabled hstep hrest ih =>
    have hpeak := hinv [] (event :: events) state rfl (.nil state)
    have hcounts := step_counts hpeak hstep
    obtain ⟨hmono, hall, hreached⟩ := ih fun before after middle hsplit hmiddle ↦
      hinv (event :: before) after middle (congrArg (event :: ·) hsplit)
        (.cons henabled hstep hmiddle)
    have hnext : state.heap.maxMem ≤ next.heap.maxMem := by
      rw [hcounts]
      split_ifs <;> omega
    refine ⟨hnext.trans hmono, fun before after middle hsplit hmiddle ↦ ?_, ?_⟩
    · cases hmiddle with
      | nil => exact hpeak.trans (hnext.trans hmono)
      | @cons _ next' _ event' before' _ hstep' hrest' =>
        obtain ⟨rfl, htail⟩ := List.cons.inj hsplit
        obtain rfl : next = next' := Except.ok.inj (hstep.symm.trans hstep')
        exact hall before' after middle htail hrest'
    · rcases hreached with hsame | ⟨before, after, middle, hsplit, hmiddle, heq⟩
      · rw [hsame, hcounts]
        split_ifs with hgrew
        · exact .inr ⟨[event], events, next, rfl, .cons henabled hstep (.nil next), rfl⟩
        · exact .inl rfl
      · exact .inr ⟨event :: before, after, middle, congrArg (event :: ·) hsplit,
          .cons henabled hstep hmiddle, heq⟩

end Statistics

section Results

variable {heap : SlabHeap} {state : State} {events : List Event}

theorem Boots.maxMem_le (h : Boots heap) : heap.maxMem ≤ heap.usedMem := by
  obtain ⟨beginAddr, endAddr, cell, zone, hinit, _⟩ := h
  rw [rtSystemHeapInit] at hinit
  by_cases hempty : rtAlign beginAddr rtMmPageSize ≥ endAddr / rtMmPageSize * rtMmPageSize
  · rw [if_pos hempty] at hinit
    cases hinit
  · rw [if_neg hempty] at hinit
    obtain ⟨list, _, hinit⟩ := bind_eq_ok.mp hinit
    cases hinit
    exact Nat.zero_le _

/-- **No leak.** When every block has been given back and no call is in progress, every page is
free again but those of `memusage` and of at most 74 zones: two in `zone_free` and one for each
index. -/
theorem heap_returns_pages (h : Boots heap) (hrun : system.Run ⟨heap, [], []⟩ events state)
    (hheld : state.held = []) (hcalls : state.calls = []) :
    state.heap.usedMem = 0 ∧ ∃ zones ≤ 74,
      (state.heap.rtPageList.map Extent.count).sum + usagePages state.heap.npages +
        zones * state.heap.zonePageCnt = state.heap.npages := by
  obtain ⟨zones, hinv⟩ := h.run_inv hrun
  obtain ⟨heap', held, calls⟩ := state
  obtain rfl : held = [] := hheld
  obtain rfl : calls = [] := hcalls
  refine ⟨hinv.used, zones.length, hinv.zones_length_le, ?_⟩
  have hsum := hinv.tiles.sum_count
  simp only [State.extents, List.flatMap_nil, List.append_nil, List.map_append, List.map_cons,
    List.map_map, List.sum_append, List.sum_cons] at hsum
  have hzones : (zones.map (count ∘ fun z ↦ (⟨z, heap'.zonePageCnt⟩ : Extent))).sum =
      zones.length * heap'.zonePageCnt := by
    rw [← List.sum_replicate_nat]
    congr 1
    exact List.map_const' ..
  rw [hzones] at hsum
  have hwhole : heap'.whole.count = heap'.npages := rfl
  simp only
  omega

/-- The three blocks are given back, the large one in two sections. -/
def threeFrees : List Event :=
  [.free ⟨0x80107080, 128⟩, .free ⟨0x80102000, 20000⟩, .resume ⟨.pageFree 0x80102000 5, 0⟩,
    .free ⟨0x80107100, 128⟩]

theorem heap_returns_pages_freshHeap : ∃ state zones, zones ≤ 74 ∧
    system.Run ⟨freshHeap, [], []⟩ (threeMallocs ++ threeFrees) state ∧
      (state.heap.rtPageList.map Extent.count).sum + usagePages state.heap.npages +
        zones * state.heap.zonePageCnt = state.heap.npages := by
  have hcomputed : (system.execute ⟨freshHeap, [], []⟩ (threeMallocs ++ threeFrees)).any
      fun state ↦ state.held = [] ∧ state.calls = [] := by decide +kernel
  obtain ⟨state, hrun, hends⟩ := Transition.System.Run.exists_of_execute hcomputed
  obtain ⟨hheld, hcalls⟩ := of_decide_eq_true hends
  obtain ⟨_, zones, hle, hsum⟩ := heap_returns_pages boots_freshHeap hrun hheld hcalls
  exact ⟨state, zones, hle, hrun, hsum⟩

/-- No heap has more pages than its bytes allow, so a longer run of pages is not free anywhere. -/
theorem Inv.exists_not_free {zones : List ℕ} (h : Inv zones state) {npages : ℕ}
    (hlong : 2 ^ 20 < npages) (first : ℕ) :
    ∃ page, first ≤ page ∧ page < first + npages ∧
      ∀ run ∈ state.heap.rtPageList, ¬ run.Holds page := by
  obtain ⟨heap', held, calls⟩ := state
  have hwithin : ∀ run ∈ heap'.rtPageList, ∀ page, run.Holds page → heap'.whole.Holds page := by
    intro run hrun page hholds
    refine h.tiles.holds ?_ hholds
    simp only [State.extents, List.mem_append]
    tauto
  have hsize : heap'.whole.count < 2 ^ 20 := by
    have hlt : heap'.heapEnd - heap'.heapStart < 2 ^ 32 := h.layout.size_lt
    simp only [SlabHeap.whole, SlabHeap.npages, rtMmPageSize]
    omega
  by_cases hbefore : first < heap'.whole.first
  · refine ⟨first, le_rfl, by omega, fun run hrun hholds ↦ ?_⟩
    have hlower := (hwithin run hrun first hholds).1
    omega
  · refine ⟨first + (npages - 1), by omega, by omega, fun run hrun hholds ↦ ?_⟩
    have hupper := (hwithin run hrun _ hholds).2
    rw [stop] at hupper
    omega

/-- **A large request fails only for want of pages.** `rt_malloc` returns null for a size of whole
pages if and only if no run of that many pages is free. -/
theorem large_malloc_fails_iff (h : Boots heap) (hrun : system.Run ⟨heap, [], []⟩ events state)
    {size : ℕ} (hlarge : state.heap.zoneLimit ≤ size) (hlt : size < 2 ^ 64) :
    rtMalloc size state.heap = .ok (.done 0, state.heap) ↔
      ∀ first, ∃ page, first ≤ page ∧ page < first + (size + 4095) / 4096 ∧
        ∀ run ∈ state.heap.rtPageList, ¬ run.Holds page := by
  obtain ⟨zones, hinv⟩ := h.run_inv hrun
  have hlimit := hinv.layout.limit_cases
  by_cases hwraps : 2 ^ 64 ≤ size + 4095
  · -- the size is rounded up to no pages at all
    have hnone : rtAlign size rtMmPageSize = 0 := by
      simp only [rtAlign, rtMmPageSize]
      omega
    have hnull : rtMalloc size state.heap = .ok (.done 0, state.heap) := by
      rw [rtMalloc, if_neg (by omega), if_pos hlarge, hnone]
      rfl
    exact iff_of_true hnull (hinv.exists_not_free (by omega))
  have hpages : rtAlign size rtMmPageSize / rtMmPageSize = (size + 4095) / 4096 := by
    simp only [rtAlign, rtMmPageSize]
    omega
  have hzero : size ≠ 0 := by omega
  have hpos : 0 < (size + 4095) / 4096 := by omega
  have hfree (page : ℕ) : tally state.heap.rtPageList page = 0 ↔
      ∀ run ∈ state.heap.rtPageList, ¬ run.Holds page := by
    constructor
    · intro hnone run hrun hholds
      exact (tally_pos hrun hholds).ne' hnone
    · intro hnone
      by_contra hsome
      obtain ⟨run, hrun, hholds⟩ := exists_of_tally_pos (Nat.pos_of_ne_zero hsome)
      exact hnone run hrun hholds
  have hfits := rtPageAlloc_eq_none_iff hpos hinv.separated
  simp only [hfree] at hfits
  rw [← hfits, rtMalloc, if_neg hzero, if_pos hlarge]
  simp only [hpages]
  rcases rtPageAlloc_cases hpos hinv.separated with hnone | ⟨page, list, hsome, _⟩
  · rw [hnone]
    exact ⟨fun _ ↦ rfl, fun _ ↦ rfl⟩
  · rw [hsome]
    constructor
    · intro hdone
      cases congrArg Prod.fst (Except.ok.inj hdone)
    · intro hnone
      cases congrArg Prod.fst hnone

theorem large_malloc_fails_iff_freshHeap :
    rtMalloc 0x600000 freshHeap = .ok (.done 0, freshHeap) ↔
      ∀ first, ∃ page, first ≤ page ∧ page < first + (0x600000 + 4095) / 4096 ∧
        ∀ run ∈ freshHeap.rtPageList, ¬ run.Holds page :=
  large_malloc_fails_iff boots_freshHeap (.nil _) (by decide) (by decide)

/-- **Alignment.** A block for a power of two up to a page is aligned to it. -/
theorem power_of_two_aligned (h : Boots heap) (hrun : system.Run ⟨heap, [], []⟩ events state)
    {block : Held} (hblock : block ∈ state.held) {exponent : ℕ} (hexponent : exponent ≤ 12)
    (hsize : block.nbytes = 2 ^ exponent) : 2 ^ exponent ∣ block.ptr := by
  obtain ⟨zones, hinv⟩ := h.run_inv hrun
  obtain ⟨heap', held, calls⟩ := state
  have hclass : ∀ exponent < 13, 2 ^ exponent ∣ (zoneindex (2 ^ exponent)).2 ∧
      2 ^ exponent ∣ chunkOffset (zoneindex (2 ^ exponent)).2 ∧ 2 ^ exponent ∣ rtMmPageSize ∧
      2 ^ exponent < 8192 := by decide
  obtain ⟨hchunk, hoffset, hpage, hlt⟩ := hclass exponent (Nat.lt_succ_of_le hexponent)
  have hsmall : block.nbytes < heap'.zoneLimit := by
    have hlimit : heap'.zoneLimit = 8192 ∨ heap'.zoneLimit = 16384 := hinv.layout.limit_cases
    omega
  obtain ⟨z, hz, hin, ⟨index, _, hptr⟩, _⟩ := hinv.small_home hblock hsmall
  obtain ⟨_, hchunksize⟩ := (hinv.zoned.chunks z hz).own block hblock hin
  have hheader := hinv.zoned.header z hz
  have hsizes : (heap'.zone z).zChunksize = (zoneindex (2 ^ exponent)).2 := hsize ▸ hchunksize
  have hbase : (heap'.zone z).zBaseptr = rtMmPageSize * z + chunkOffset (heap'.zone z).zChunksize :=
    hheader.baseptr
  rw [hptr, hbase, hsizes]
  exact Nat.dvd_add (Nat.dvd_add (hpage.mul_right z) hoffset) (hchunk.mul_left index)

theorem power_of_two_aligned_freshHeap : ∃ state,
    system.Run ⟨freshHeap, [], []⟩ threeMallocs state ∧
      ∃ block ∈ state.held, block.nbytes = 2 ^ 7 ∧ 2 ^ 7 ∣ block.ptr := by
  obtain ⟨state, hrun, hheld⟩ := run_threeMallocs
  have hblock : (⟨0x80107100, 128⟩ : Held) ∈ state.held := hheld ▸ List.mem_cons_self ..
  exact ⟨state, hrun, _, hblock, rfl,
    power_of_two_aligned boots_freshHeap hrun hblock (by decide) rfl⟩

/-- **The statistics are exact.** `used_mem` is the size of the blocks in use, `max_mem` its greatest
value in the run, and `get_free_heap_size` what the blocks in use leave of the heap. -/
theorem heap_accounts (h : Boots heap) (hrun : system.Run ⟨heap, [], []⟩ events state) :
    state.heap.usedMem =
        (state.held.map fun block ↦ footprint state.heap.zoneLimit block.nbytes).sum ∧
      (∀ before after middle, events = before ++ after → system.Run ⟨heap, [], []⟩ before middle →
        middle.heap.usedMem ≤ state.heap.maxMem) ∧
      (∃ before after middle, events = before ++ after ∧ system.Run ⟨heap, [], []⟩ before middle ∧
        middle.heap.usedMem = state.heap.maxMem) ∧
      getFreeHeapSize state.heap + state.heap.usedMem =
        state.heap.heapEnd - state.heap.heapStart := by
  obtain ⟨zones, hinv⟩ := h.run_inv hrun
  have hpeaks : ∀ before after middle, events = before ++ after →
      system.Run ⟨heap, [], []⟩ before middle → middle.heap.usedMem ≤ middle.heap.maxMem := by
    intro before after middle _ hmiddle
    obtain ⟨_, hinv⟩ := h.run_inv hmiddle
    exact hinv.peak
  obtain ⟨_, hall, hreached⟩ := run_counts hpeaks hrun
  refine ⟨hinv.used, hall, ?_, ?_⟩
  · rcases hreached with hstart | hsome
    · -- nothing was ever allocated
      exact ⟨[], events, _, rfl, .nil _, (Nat.le_antisymm (hall [] events _ rfl (.nil _))
        (hstart.trans_le h.maxMem_le))⟩
    · exact hsome
  · obtain ⟨heap', held, calls⟩ := state
    have hsafe := hinv.safe
    have hwithin : ∀ extent ∈ held.map (Held.bytes heap'.zoneLimit),
        extent.Within ⟨heap'.heapStart, heap'.heapEnd - heap'.heapStart⟩ := by
      intro extent hextent
      obtain ⟨block, hblock, rfl⟩ := List.mem_map.mp hextent
      obtain ⟨hlower, hupper⟩ := hsafe.inside block hblock
      simp only at hlower hupper
      refine ⟨hlower, ?_⟩
      simp only [Held.bytes, stop]
      omega
    have hroom := sum_count_le hsafe.disjoint hwithin
    have hused : heap'.usedMem =
        (held.map fun block ↦ footprint heap'.zoneLimit block.nbytes).sum := hinv.used
    have hlt : heap'.heapEnd - heap'.heapStart < 2 ^ 32 := hinv.layout.size_lt
    rw [List.map_map] at hroom
    have hsum : heap'.usedMem ≤ heap'.heapEnd - heap'.heapStart := hused.trans_le hroom
    simp only [getFreeHeapSize, rtMemoryInfo]
    omega

theorem heap_accounts_freshHeap : ∃ state, system.Run ⟨freshHeap, [], []⟩ threeMallocs state ∧
    getFreeHeapSize state.heap + state.heap.usedMem =
      state.heap.heapEnd - state.heap.heapStart := by
  obtain ⟨state, hrun, _⟩ := run_threeMallocs
  exact ⟨state, hrun, (heap_accounts boots_freshHeap hrun).2.2.2⟩

end Results

end K210Firmware.Kernel.Slab
