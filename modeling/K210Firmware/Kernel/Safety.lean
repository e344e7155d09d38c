import K210Firmware.Kernel.Release

/-!
# Runs of the kernel heap

From `rt_system_heap_init` on, in every interleaving of calls, the books of the heap are in order
and no call fails.
-/

namespace K210Firmware.Kernel.Slab

open Memory Extent Pages

/-! ## The invariant over whole runs -/

section Runs

variable {zones : List ℕ} {state : State}

theorem Inv.resume (h : Inv zones state) {call : Call} (hcall : call ∈ state.calls) :
    ∃ outcome heap' zones', resume call.job state.heap = .ok (outcome, heap') ∧
      Inv zones' (State.settle { state with calls := state.calls.erase call } call.nbytes heap'
        outcome) := by
  obtain ⟨heap, held, calls⟩ := state
  have hperm := h.perm (List.Perm.refl _) (List.Perm.refl _) (List.perm_cons_erase hcall)
  obtain ⟨job, nbytes⟩ := call
  cases job with
  | largeTaken page size =>
    obtain ⟨outcome, heap', hrun, hinv⟩ := hperm.resumeLarge
    exact ⟨outcome, heap', zones, hrun, by cases outcome <;> exact hinv⟩
  | zoneWanted size zi =>
    obtain ⟨outcome, heap', hrun, hinv⟩ := hperm.resumeWanted
    exact ⟨outcome, heap', zones, hrun, hinv⟩
  | zoneTaken z size zi =>
    obtain ⟨outcome, heap', hrun, hinv⟩ := hperm.resumeZone
    exact ⟨outcome, heap', z :: zones, hrun, hinv⟩
  | pageFree addr npages =>
    obtain ⟨outcome, heap', hrun, hinv⟩ := hperm.resumeFree
    exact ⟨outcome, heap', zones, hrun, hinv⟩

/-- **One step.** No section fails, and each keeps the books. -/
theorem Inv.step (h : Inv zones state) {event : Event} (henabled : Enabled state event) :
    ∃ next zones', step state event = .ok next ∧ Inv zones' next := by
  cases event with
  | malloc size =>
    obtain ⟨outcome, heap', hrun, hinv⟩ := Inv.rtMalloc h henabled
    exact ⟨_, zones, by simp only [Slab.step, hrun, ok_bind]; rfl, hinv⟩
  | free block =>
    have hperm := Inv.perm h (List.Perm.refl _) (List.perm_cons_erase henabled) (List.Perm.refl _)
    obtain ⟨job, heap', zones', hrun, hinv⟩ := hperm.rtFree
    exact ⟨_, zones', by simp only [Slab.step, hrun, ok_bind]; rfl, hinv⟩
  | resume call =>
    obtain ⟨outcome, heap', zones', hrun, hinv⟩ := h.resume henabled
    exact ⟨_, zones', by simp only [Slab.step, hrun, ok_bind]; rfl, hinv⟩

/-- A heap of less than 4 GiB set up by `rt_system_heap_init`. -/
def Boots (heap : SlabHeap) : Prop :=
  ∃ beginAddr endAddr cell zone,
    rtSystemHeapInit beginAddr endAddr cell zone = .ok (some heap) ∧
      heap.heapEnd - heap.heapStart < 2 ^ 32

/-- The 5 MiB from `0x80100000` on, after `rt_system_heap_init`. -/
def freshHeap : SlabHeap where
  heapStart := 0x80100000
  heapEnd := 0x80600000
  zoneSize := 0x8000
  zoneLimit := 0x2000
  zonePageCnt := 8
  rtPageList := [⟨0x80102, 1278⟩]
  memusage := 0x80100
  usage := ⟨1280, fun _ ↦ ⟨.free, 0⟩⟩
  zone := fun _ ↦ ⟨0, 0, 0, 0, 0, 0, 0, []⟩
  zoneArray := ⟨nzones, fun _ ↦ []⟩
  zoneFree := []
  zoneFreeCnt := 0
  usedMem := 0
  maxMem := 0

theorem boots_freshHeap : Boots freshHeap :=
  ⟨0x80100000, 0x80600000, fun _ ↦ ⟨.free, 0⟩, fun _ ↦ ⟨0, 0, 0, 0, 0, 0, 0, []⟩, rfl, by decide⟩

/-- A first `rt_malloc(128)`, in its three sections, with a `rt_malloc(20000)` between them, and a
second `rt_malloc(128)`. -/
def threeMallocs : List Event :=
  [.malloc 128, .malloc 20000, .resume ⟨.zoneWanted 128 15, 128⟩,
    .resume ⟨.largeTaken 0x80102 20480, 20000⟩, .resume ⟨.zoneTaken 0x80107 128 15, 128⟩,
    .malloc 128]

/-- The blocks that are handed out. -/
def threeBlocks : List Held :=
  [⟨0x80107100, 128⟩, ⟨0x80107080, 128⟩, ⟨0x80102000, 20000⟩]

theorem run_threeMallocs : ∃ state, system.Run ⟨freshHeap, [], []⟩ threeMallocs state ∧
    state.held = threeBlocks := by
  have hcomputed : (system.execute ⟨freshHeap, [], []⟩ threeMallocs).any
      (·.held = threeBlocks) := by decide +kernel
  obtain ⟨state, hrun, hheld⟩ := Transition.System.Run.exists_of_execute hcomputed
  exact ⟨state, hrun, of_decide_eq_true hheld⟩

theorem growZoneSize_succ (limsize fuel zoneSize : ℕ) :
    growZoneSize limsize (fuel + 1) zoneSize = zoneSize ∨
      growZoneSize limsize (fuel + 1) zoneSize = growZoneSize limsize fuel (zoneSize * 2) := by
  rw [growZoneSize]
  split
  · exact .inr rfl
  · exact .inl rfl

theorem growZoneSize_cases (limsize : ℕ) :
    growZoneSize limsize 2 zallocMinZoneSize = 32768 ∨
      growZoneSize limsize 2 zallocMinZoneSize = 65536 ∨
        growZoneSize limsize 2 zallocMinZoneSize = 131072 := by
  rcases growZoneSize_succ limsize 1 zallocMinZoneSize with hsame | hdouble
  · exact .inl hsame
  · rw [hdouble]
    exact .inr (growZoneSize_succ limsize 0 (zallocMinZoneSize * 2))

theorem zoneLimit_spec {zoneSize : ℕ}
    (h : zoneSize = 32768 ∨ zoneSize = 65536 ∨ zoneSize = 131072) :
    Fits zoneSize (if zoneSize / 4 > zallocZoneLimit then zallocZoneLimit else zoneSize / 4) := by
  rcases h with rfl | rfl | rfl
  · exact ⟨.inl rfl, by decide⟩
  · exact ⟨.inr rfl, by decide⟩
  · exact ⟨.inr rfl, by decide⟩

theorem usagePages_spec {npages : ℕ} (hpos : 0 < npages) (hlt : npages ≤ 2 ^ 20) :
    0 < usagePages npages ∧ usagePages npages ≤ npages := by
  simp only [usagePages, rtAlign, rtMmPageSize]
  omega

/-- The array `memusage` is cut off the front of the only run of pages. -/
theorem rtPageAlloc_singleton {first npages taken : ℕ} (hpos : 0 < taken) (hle : taken ≤ npages) :
    ∃ list, rtPageAlloc taken [⟨first, npages⟩] = (some first, list) ∧ Separated list ∧
      ∀ cell, tally list cell + tally [⟨first, taken⟩] cell = tally [⟨first, npages⟩] cell := by
  have hseparated : Separated [⟨first, npages⟩] :=
    separated_cons.mpr ⟨nofun, hpos.trans_le hle, .nil⟩
  have hsome : ∃ list, rtPageAlloc taken [⟨first, npages⟩] = (some first, list) := by
    rw [rtPageAlloc, if_neg hpos.ne', takePages]
    split_ifs with hlong hexact
    · exact ⟨_, rfl⟩
    · exact ⟨_, rfl⟩
    · simp only at hlong hexact
      omega
  obtain ⟨list, hlist⟩ := hsome
  rcases rtPageAlloc_cases hpos hseparated with hnone | ⟨page, list', hcase, hlist', htally⟩
  · cases congrArg Prod.fst (hlist.symm.trans hnone)
  · cases hlist.symm.trans hcase
    exact ⟨list, hlist, hlist', fun cell ↦ (htally cell).symm⟩

/-- The heap starts with its books in order. -/
theorem Boots.inv {heap : SlabHeap} (h : Boots heap) : Inv [] ⟨heap, [], []⟩ := by
  obtain ⟨beginAddr, endAddr, cell, zone, hinit, hlt⟩ := h
  rw [rtSystemHeapInit] at hinit
  set heapStart := rtAlign beginAddr rtMmPageSize with hstart
  set heapEnd := endAddr / rtMmPageSize * rtMmPageSize with hend
  simp only at hinit
  by_cases hempty : heapStart ≥ heapEnd
  · rw [if_pos hempty] at hinit
    cases hinit
  rw [if_neg hempty] at hinit
  obtain ⟨list, hlist, hinit⟩ := bind_eq_ok.mp hinit
  cases hinit
  simp only at hlt
  rw [Nat.mod_eq_of_lt hlt] at hlist ⊢
  have hstartAligned : heapStart % 4096 = 0 := by
    simp only [hstart, rtAlign, rtMmPageSize]
    omega
  have hendAligned : heapEnd % 4096 = 0 := by
    simp only [hend, rtMmPageSize]
    omega
  -- the assertions of rt_page_init
  obtain ⟨_, haddr, hlist⟩ := bind_eq_ok.mp hlist
  obtain ⟨_, hnpages, hlist⟩ := bind_eq_ok.mp hlist
  have hstartPos : 0 < heapStart := by
    by_contra hzero
    rw [rtAssert, if_neg (by omega)] at haddr
    cases haddr
  have hpages : 0 < (heapEnd - heapStart) / rtMmPageSize := by
    simp only [rtMmPageSize]
    omega
  have hfirst : rtMmPageSize * (heapStart / rtMmPageSize) = heapStart := by
    simp only [rtMmPageSize]
    omega
  have hput : rtPageFree heapStart ((heapEnd - heapStart) / rtMmPageSize) [] =
      .ok [⟨heapStart / rtMmPageSize, (heapEnd - heapStart) / rtMmPageSize⟩] := by
    have haligned : heapStart % rtMmPageSize = 0 := hstartAligned
    rw [rtPageFree, rtAssert_of hstartPos.ne', ok_bind, rtAssert_of haligned, ok_bind,
      rtAssert_of hpages.ne', ok_bind]
    rfl
  obtain rfl := Except.ok.inj (hput.symm.trans hlist)
  obtain ⟨husage, husageLe⟩ := usagePages_spec hpages (by
    simp only [rtMmPageSize]
    omega)
  obtain ⟨list, htaken, hseparated, htally⟩ :=
    @rtPageAlloc_singleton (heapStart / rtMmPageSize) _ _ husage husageLe
  rw [htaken]
  refine {
    layout := ?_
    separated := hseparated
    tiles := fun page ↦ ?_
    zoned := ?_
    held := List.forall_mem_nil _
    kup := List.forall_mem_nil _
    calls := List.forall_mem_nil _
    used := rfl
    peak := Nat.le_refl _
    freeCnt := rfl
    freeCnt_le := Nat.zero_le _ }
  · have hgrow := growZoneSize_cases (heapEnd - heapStart)
    have hfits := zoneLimit_spec hgrow
    refine ⟨hstartPos, Nat.not_le.mp hempty, hstartAligned, hendAligned, hlt, hfits.cases,
      hfits.room, ?_, rfl, rfl⟩
    simp only [rtMmPageSize]
    omega
  · rw [tally_extents]
    exact htally page
  · exact {
      apart := .nil
      header := List.forall_mem_nil _
      chunks := List.forall_mem_nil _
      magic := List.forall_mem_nil _
      chain_nodup := fun _ ↦ .nil
      mem_chain := fun _ _ ↦ by simp
      free_nodup := .nil
      free_sub := List.forall_mem_nil _
      free_idle := List.forall_mem_nil _
      spare := List.forall_mem_nil _ }

/-- **Invariant of runs.** -/
theorem Boots.run_inv {heap : SlabHeap} (h : Boots heap) {events : List Event} {state : State}
    (hrun : system.Run ⟨heap, [], []⟩ events state) : ∃ zones, Inv zones state := by
  have hpreserves : ∀ state event next, (∃ zones, Inv zones state) → system.enabled state event →
      system.step state event = .ok next → ∃ zones, Inv zones next := by
    rintro state event next ⟨zones, hinv⟩ henabled hstep
    obtain ⟨other, zones', hother, hnext⟩ := hinv.step henabled
    obtain rfl : other = next := Except.ok.inj (hother.symm.trans hstep)
    exact ⟨zones', hnext⟩
  exact hrun.invariant hpreserves ⟨[], h.inv⟩

/-- **No call fails.** Whatever the interleaving, no assertion of `slab.c` is violated, no null
pointer is followed and no array is left. -/
theorem heap_never_faults {heap : SlabHeap} (h : Boots heap) (events : List Event) :
    system.Always (fun _ _ result ↦ ∃ next, result = .ok next) ⟨heap, [], []⟩ events := by
  rw [Transition.System.always_iff_forall_run]
  intro before event after reached _ hrun henabled
  obtain ⟨zones, hinv⟩ := h.run_inv hrun
  obtain ⟨next, _, hstep, _⟩ := hinv.step henabled
  exact ⟨next, hstep⟩

theorem heap_never_faults_freshHeap :
    system.Always (fun _ _ result ↦ ∃ next, result = .ok next) ⟨freshHeap, [], []⟩
      (threeMallocs ++ [.free ⟨0x80107080, 128⟩, .free ⟨0x80102000, 20000⟩]) :=
  heap_never_faults boots_freshHeap _

end Runs

end K210Firmware.Kernel.Slab
