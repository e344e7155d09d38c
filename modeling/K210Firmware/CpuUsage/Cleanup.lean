import K210Firmware.CpuUsage.Hooks

/-!
# Records of exited threads

`clean_up_call` frees the record of an exited thread but leaves its address in `user_data`.
`Kernel.without` shows the kernel as the other threads see it: the exited ones have no user data
there. The hook and the interrupt do the same to both kernels as long as they do not meet such a
thread, so that their specifications carry over (`hook_without` and `timerIrq_without`).
-/

namespace K210Firmware.CpuUsage

open Memory ThreadUsage

/-- `clean_up_call`, with the number of records it has freed. -/
def cleanUpCall (kernel : Kernel) (tid : Tid) : Except Fault (Kernel × ℕ) := do
  let info := (kernel.thread tid).userData
  if info = 0 then return (kernel, 0)
  else
    let record ← kernel.heap.load info
    if record.magic = magicNum then
      let heap ← kernel.heap.free info
      return ({ kernel with heap }, 1)
    else return (kernel, 0)

/-- `if (thread->cleanup != RT_NULL) thread->cleanup(thread)`. -/
def cleanup (kernel : Kernel) (tid : Tid) : Except Fault (Kernel × ℕ) :=
  match (kernel.thread tid).cleanup with
  | .null => return (kernel, 0)
  | .cleanUpCall => cleanUpCall kernel tid

/-- The removal of a thread from the object list. -/
def detach (kernel : Kernel) (tid : Tid) : Kernel :=
  { kernel with objects := kernel.objects.erase tid }

/-- `rt_thread_init` clears `user_data` and `cleanup`, and the object is inserted at the head of
the list. -/
def createThread (kernel : Kernel) (tid : Tid) : Kernel :=
  { kernel with
    thread := Function.update kernel.thread tid ⟨0, .null⟩
    objects := tid :: kernel.objects }

/-- The kernel as seen by the threads that are not in the list. -/
def Kernel.without (kernel : Kernel) (reaped : List Tid) : Kernel :=
  { kernel with thread := fun tid ↦ if tid ∈ reaped then ⟨0, .null⟩ else kernel.thread tid }

variable {kernel : Kernel} {reaped : List Tid} {tid : Tid}

theorem without_thread (htid : tid ∉ reaped) :
    (kernel.without reaped).thread tid = kernel.thread tid :=
  if_neg htid

/-- Creating a thread changes no user data if the thread had none. -/
theorem userData_createThread (hnull : (kernel.thread tid).userData = 0) (other : Tid) :
    ((createThread kernel tid).thread other).userData = (kernel.thread other).userData := by
  by_cases hone : other = tid
  · simp [createThread, hone, hnull]
  · simp [createThread, hone]

/-- The exited threads have no record in the view of the others. -/
theorem recordOf_without_of_mem (htid : tid ∈ reaped) :
    recordOf (kernel.without reaped) tid = none := by
  have hthread : (kernel.without reaped).thread tid = ⟨0, .null⟩ := if_pos htid
  rw [recordOf, hthread]
  rfl

theorem recordOf_without_of_null (hnull : (kernel.thread tid).userData = 0) :
    recordOf (kernel.without reaped) tid = none := by
  by_cases htid : tid ∈ reaped
  · exact recordOf_without_of_mem htid
  · rw [recordOf, without_thread htid]
    exact if_pos hnull

theorem recordOf_without (htid : tid ∉ reaped) :
    recordOf (kernel.without reaped) tid = recordOf kernel tid := by
  rw [recordOf, without_thread htid]
  rfl

theorem attach_without (htid : tid ∉ reaped) (block : Allocation)
    (init : ThreadUsage → ThreadUsage) :
    attach (kernel.without reaped) tid block init =
      ((attach kernel tid block init).1, (attach kernel tid block init).2.without reaped) := by
  simp only [attach, without_thread htid]
  split_ifs with hnull
  · cases block with
    | none => rfl
    | some found =>
      have hthread : Function.update (kernel.without reaped).thread tid ⟨found.1, .cleanUpCall⟩ =
          fun other ↦ if other ∈ reaped then ⟨0, .null⟩
            else Function.update kernel.thread tid ⟨found.1, .cleanUpCall⟩ other := by
        funext other
        by_cases hone : other = tid
        · subst hone
          simp [htid]
        · simp [hone, Kernel.without]
      simp only [hthread]
      rfl
  · rfl

theorem modify_without (info : Address) (change : ThreadUsage → ThreadUsage) :
    modify (kernel.without reaped) info change =
      (modify kernel info change).map (Kernel.without · reaped) := by
  have hheap : (kernel.without reaped).heap = kernel.heap := rfl
  simp only [modify, hheap]
  cases kernel.heap.load info with
  | error fault => rfl
  | ok record =>
    simp only [ok_bind]
    split_ifs <;> rfl

theorem scheduleHook_without (core : Core) (tick : UInt64) {fromThread toThread : Tid}
    (hfrom : fromThread ∉ reaped) (hto : toThread ∉ reaped) (fromBlock toBlock : Allocation) :
    scheduleHook (kernel.without reaped) core tick fromThread toThread fromBlock toBlock =
      (scheduleHook kernel core tick fromThread toThread fromBlock toBlock).map
        (Kernel.without · reaped) := by
  simp only [scheduleHook, attach_without hfrom, modify_without]
  cases modify (attach kernel fromThread fromBlock (initFrom · core tick)).2
      (attach kernel fromThread fromBlock (initFrom · core tick)).1 (leave · core tick) with
  | error fault => rfl
  | ok middle =>
    simp only [Except.map, ok_bind, attach_without hto, modify_without]

/-! ## What the hook leaves alone -/

theorem modify_frame {info : Address} {change : ThreadUsage → ThreadUsage} {after : Kernel}
    (hrun : modify kernel info change = .ok after) :
    after.thread = kernel.thread ∧ after.objects = kernel.objects := by
  cases hload : kernel.heap.load info with
  | error fault =>
    simp only [modify, hload] at hrun
    cases hrun
  | ok record =>
    simp only [modify, hload, ok_bind] at hrun
    split_ifs at hrun <;> cases hrun <;> exact ⟨rfl, rfl⟩

/-- An allocation changes no thread but its own, and that one only if it has no user data. -/
theorem attach_frame (kernel : Kernel) (tid : Tid) (block : Allocation)
    (init : ThreadUsage → ThreadUsage) {other : Tid}
    (hother : other ≠ tid ∨ (kernel.thread other).userData ≠ 0) :
    (attach kernel tid block init).2.thread other = kernel.thread other := by
  simp only [attach]
  split_ifs with hnull
  · cases block with
    | none => rfl
    | some found =>
      refine Function.update_of_ne ?_ ..
      intro hsame
      subst hsame
      exact hother.elim (absurd rfl) (absurd hnull.1)
  · rfl

theorem scheduleHook_frame {core : Core} {tick : UInt64} {fromThread toThread : Tid}
    {fromBlock toBlock : Allocation} {after : Kernel}
    (hrun : scheduleHook kernel core tick fromThread toThread fromBlock toBlock = .ok after)
    {other : Tid} (hother : other ≠ fromThread ∧ other ≠ toThread ∨
      (kernel.thread other).userData ≠ 0) :
    after.thread other = kernel.thread other := by
  have hfirst := attach_frame kernel fromThread fromBlock (initFrom · core tick)
    (hother.imp_left And.left)
  cases hmiddle : modify (attach kernel fromThread fromBlock (initFrom · core tick)).2
      (attach kernel fromThread fromBlock (initFrom · core tick)).1 (leave · core tick) with
  | error fault =>
    simp only [scheduleHook, hmiddle] at hrun
    cases hrun
  | ok middle =>
    simp only [scheduleHook, hmiddle, ok_bind] at hrun
    have hkept : middle.thread other = kernel.thread other := by
      rw [(modify_frame hmiddle).1, hfirst]
    calc after.thread other = (attach middle toThread toBlock initTo).2.thread other := by
          rw [(modify_frame hrun).1]
      _ = middle.thread other := attach_frame middle toThread toBlock initTo
          (hkept ▸ hother.imp_left And.right)
      _ = kernel.thread other := hkept

/-- **The hook between threads that are not reaped.** It stamps their records in the view of the
others, or runs out of memory. -/
theorem hook_without (h : Installed (kernel.without reaped)) (core : Core) (tick : UInt64)
    {fromThread toThread : Tid} (hfrom : fromThread ∉ reaped) (hto : toThread ∉ reaped)
    (hne : fromThread ≠ toThread) {fromBlock toBlock : Allocation}
    (hblocks : Allocatable kernel fromBlock toBlock) :
    scheduleHook kernel core tick fromThread toThread fromBlock toBlock = .error .nullPointer ∨
    ∃ after fromRecord toRecord,
      scheduleHook kernel core tick fromThread toThread fromBlock toBlock = .ok after ∧
      recordOrNew (kernel.without reaped) fromThread fromBlock (initFrom · core tick) =
        some fromRecord ∧
      recordOrNew (kernel.without reaped) toThread toBlock initTo = some toRecord ∧
      Installed (after.without reaped) ∧ after.objects = kernel.objects ∧
      recordOf (after.without reaped) = Function.update
        (Function.update (recordOf (kernel.without reaped)) fromThread
          (some (fromRecord.leave core tick)))
        toThread (some (toRecord.enter core tick)) := by
  have hblocks : Allocatable (kernel.without reaped) fromBlock toBlock :=
    ⟨hblocks.from_fresh, hblocks.to_fresh, hblocks.ne⟩
  have hspec := scheduleHook_spec h core tick hne hblocks
  rw [scheduleHook_without core tick hfrom hto] at hspec
  cases hrun : scheduleHook kernel core tick fromThread toThread fromBlock toBlock with
  | error fault =>
    rw [hrun] at hspec
    rcases hspec with hfault | ⟨_, _, _, hok, _⟩
    · cases hfault
      exact .inl rfl
    · cases hok
  | ok after =>
    rw [hrun] at hspec
    rcases hspec with hfault | ⟨_, fromRecord, toRecord, hok, hrest⟩
    · cases hfault
    · cases hok
      exact .inr ⟨after, fromRecord, toRecord, rfl, hrest⟩

/-! ## The interrupt -/

/-- A thread whose record has been freed and that still has its address. -/
def Dangling (kernel : Kernel) (reaped : List Tid) (tid : Tid) : Prop :=
  tid ∈ reaped ∧ (kernel.thread tid).userData ≠ 0

/-- Any other thread has a live record or no user data. -/
theorem record_cases (h : Installed (kernel.without reaped)) (htid : ¬ Dangling kernel reaped tid) :
    (kernel.thread tid).userData = 0 ∨
    ∃ record, recordOf (kernel.without reaped) tid = some record ∧ tid ∉ reaped ∧
      (kernel.thread tid).userData ≠ 0 ∧
      kernel.heap.cell (kernel.thread tid).userData = some record ∧ record.magic = magicNum := by
  by_cases hdata : (kernel.thread tid).userData = 0
  · exact .inl hdata
  · have hunreaped : tid ∉ reaped := fun hreaped ↦ htid ⟨hreaped, hdata⟩
    have hlive := h.live tid
    rw [without_thread hunreaped] at hlive
    obtain ⟨record, hcell, hmagic⟩ := hlive hdata
    have hrecord : recordOf kernel tid = some record := (if_neg hdata).trans hcell
    exact .inr ⟨record, (recordOf_without hunreaped).trans hrecord, hunreaped, hdata, hcell, hmagic⟩

theorem settleThread_frame {tick reload : UInt64} {after : Kernel}
    (hrun : settleThread tick reload kernel tid = .ok after) :
    after.thread = kernel.thread ∧ after.objects = kernel.objects := by
  simp only [settleThread] at hrun
  split_ifs at hrun with hnull
  · cases hrun
    exact ⟨rfl, rfl⟩
  · exact modify_frame hrun

theorem settleThreads_frame {tick reload : UInt64} {tids : List Tid} {after : Kernel}
    (hrun : tids.foldlM (settleThread tick reload) kernel = .ok after) :
    after.thread = kernel.thread := by
  induction tids generalizing kernel with
  | nil =>
    cases hrun
    rfl
  | cons head tids ih =>
    rw [List.foldlM_cons] at hrun
    cases hhead : settleThread tick reload kernel head with
    | error fault =>
      rw [hhead] at hrun
      cases hrun
    | ok middle =>
      rw [hhead] at hrun
      exact (ih hrun).trans (settleThread_frame hhead).1

theorem settleThread_without (tick reload : UInt64) (htid : ¬ Dangling kernel reaped tid) :
    settleThread tick reload (kernel.without reaped) tid =
      (settleThread tick reload kernel tid).map (Kernel.without · reaped) := by
  have hdata : ((kernel.without reaped).thread tid).userData = (kernel.thread tid).userData := by
    by_cases hreaped : tid ∈ reaped
    · have hnull : (kernel.thread tid).userData = 0 := not_not.mp fun h ↦ htid ⟨hreaped, h⟩
      simp [Kernel.without, hreaped, hnull]
    · rw [without_thread hreaped]
  simp only [settleThread, hdata]
  split_ifs
  · rfl
  · exact modify_without ..

theorem settleThreads_without (tick reload : UInt64) {tids : List Tid}
    (htids : ∀ tid ∈ tids, ¬ Dangling kernel reaped tid) :
    tids.foldlM (settleThread tick reload) (kernel.without reaped) =
      (tids.foldlM (settleThread tick reload) kernel).map (Kernel.without · reaped) := by
  induction tids generalizing kernel with
  | nil => rfl
  | cons head tids ih =>
    rw [List.foldlM_cons, List.foldlM_cons,
      settleThread_without tick reload (htids head (List.mem_cons_self ..))]
    cases hhead : settleThread tick reload kernel head with
    | error fault => rfl
    | ok middle =>
      have htail : ∀ tid ∈ tids, ¬ Dangling middle reaped tid := by
        intro tid hmem
        rw [Dangling, (settleThread_frame hhead).1]
        exact htids tid (List.mem_cons_of_mem _ hmem)
      exact ih htail

/-- **The interrupt**, as long as no listed thread has lost its record. -/
theorem timerIrq_without (h : Installed (kernel.without reaped)) (hobjects : kernel.objects.Nodup)
    (tick reload : UInt64) (hlisted : ∀ tid ∈ kernel.objects, ¬ Dangling kernel reaped tid) :
    ∃ after, timerIrq kernel tick reload = .ok after ∧ Installed (after.without reaped) ∧
      after.objects = kernel.objects ∧ after.thread = kernel.thread := by
  obtain ⟨view, hview, hinstalled, hlast, _⟩ := timerIrq_spec h hobjects tick reload
  have hmap := settleThreads_without tick reload hlisted
  cases hrun : timerIrq kernel tick reload with
  | error fault =>
    have hfault : timerIrq (kernel.without reaped) tick reload = .error fault :=
      hmap.trans (congrArg _ hrun)
    rw [hview] at hfault
    cases hfault
  | ok after =>
    have hok : timerIrq (kernel.without reaped) tick reload = .ok (after.without reaped) :=
      hmap.trans (congrArg _ hrun)
    obtain rfl : view = after.without reaped := Except.ok.inj (hview.symm.trans hok)
    exact ⟨after, rfl, hinstalled, hlast, settleThreads_frame hrun⟩

/-! ## The cleanup -/

/-- The view stays installed when one more thread leaves it and the records of the others stay. -/
theorem installed_cons (h : Installed (kernel.without reaped)) {heap : Heap ThreadUsage}
    (hheap : ∀ other, other ∉ tid :: reaped → (kernel.thread other).userData ≠ 0 →
      heap.cell (kernel.thread other).userData =
        kernel.heap.cell (kernel.thread other).userData) :
    Installed (Kernel.without { kernel with heap } (tid :: reaped)) := by
  let view := Kernel.without { kernel with heap } (tid :: reaped)
  have hgone {other : Tid} (hother : other ∈ tid :: reaped) : view.thread other = ⟨0, .null⟩ :=
    if_pos hother
  have hkept {other : Tid} (hother : other ∉ tid :: reaped) :
      view.thread other = kernel.thread other ∧
        (kernel.without reaped).thread other = kernel.thread other :=
    ⟨if_neg hother, if_neg fun hmem ↦ hother (List.mem_cons_of_mem _ hmem)⟩
  have hmember {other : Tid} (hdata : (view.thread other).userData ≠ 0) :
      other ∉ tid :: reaped := by
    intro hother
    rw [hgone hother] at hdata
    exact hdata rfl
  refine ⟨fun other ↦ ?_, fun other hdata ↦ ?_, fun other another hsame hdata ↦ ?_⟩
  · change (view.thread other).cleanup = .null ↔ (view.thread other).userData = 0
    by_cases hother : other ∈ tid :: reaped
    · simp [hgone hother]
    · rw [(hkept hother).1, ← (hkept hother).2]
      exact h.cleanup other
  · have hother := hmember hdata
    have hdata : (view.thread other).userData ≠ 0 := hdata
    rw [(hkept hother).1] at hdata
    have hlive := h.live other
    rw [(hkept hother).2] at hlive
    change ∃ record, heap.cell (view.thread other).userData = some record ∧ _
    rw [(hkept hother).1, hheap other hother hdata]
    exact hlive hdata
  · have hother := hmember hdata
    have hsame : (view.thread other).userData = (view.thread another).userData := hsame
    have hanother : another ∉ tid :: reaped := by
      apply hmember
      rw [← hsame]
      exact hdata
    have hdata : (view.thread other).userData ≠ 0 := hdata
    rw [(hkept hother).1, (hkept hanother).1, ← (hkept hother).2, ← (hkept hanother).2] at hsame
    rw [(hkept hother).1, ← (hkept hother).2] at hdata
    exact h.separate other another hsame hdata

/-- A new thread has no record, whatever the memory of its object held. -/
theorem installed_createThread (h : Installed (kernel.without reaped)) (tid : Tid) :
    Installed ((createThread kernel tid).without reaped) := by
  have hthread : ((createThread kernel tid).without reaped).thread =
      (kernel.without (tid :: reaped)).thread := by
    funext other
    by_cases hone : other = tid
    · simp [createThread, Kernel.without, hone]
    · simp [createThread, Kernel.without, hone]
  exact (installed_cons h fun _ _ _ ↦ rfl).congr hthread rfl

/-- **The cleanup.** It frees the record of its thread, if there is one, and no other. -/
theorem cleanup_without (h : Installed (kernel.without reaped)) (htid : tid ∉ reaped) :
    ∃ after, cleanup kernel tid =
        .ok (after, if (kernel.thread tid).userData = 0 then 0 else 1) ∧
      Installed (after.without (tid :: reaped)) ∧ after.thread = kernel.thread ∧
      after.objects = kernel.objects ∧
      ∀ other, other ∉ tid :: reaped → recordOf after other = recordOf kernel other := by
  have hsame : (kernel.without reaped).thread tid = kernel.thread tid := without_thread htid
  have hcleanup := h.cleanup tid
  rw [hsame] at hcleanup
  by_cases hnull : (kernel.thread tid).userData = 0
  · refine ⟨kernel, ?_, installed_cons h fun _ _ _ ↦ rfl, rfl, rfl, fun _ _ ↦ rfl⟩
    rw [cleanup, hcleanup.mpr hnull, if_pos hnull]
    rfl
  · have hlive := h.live tid
    rw [hsame] at hlive
    obtain ⟨record, hcell, hmagic⟩ := hlive hnull
    have hcell : kernel.heap.cell (kernel.thread tid).userData = some record := hcell
    have hkept (other : Tid) (hother : other ∉ tid :: reaped)
        (hdata : (kernel.thread other).userData ≠ 0) :
        (kernel.heap.set (kernel.thread tid).userData none).cell (kernel.thread other).userData =
          kernel.heap.cell (kernel.thread other).userData := by
      apply Heap.cell_set_of_ne
      intro hshared
      have hother : other ≠ tid ∧ other ∉ reaped := by simpa using hother
      have hview := h.separate other tid
      rw [hsame, without_thread hother.2] at hview
      exact hother.1 (hview hshared hdata)
    refine ⟨{ kernel with heap := kernel.heap.set (kernel.thread tid).userData none }, ?_,
      installed_cons h hkept, rfl, rfl, fun other hother ↦ ?_⟩
    · have hcall : (kernel.thread tid).cleanup = .cleanUpCall := by
        cases hvalue : (kernel.thread tid).cleanup with
        | null => exact absurd (hcleanup.mp hvalue) hnull
        | cleanUpCall => rfl
      simp only [cleanup, hcall, cleanUpCall, if_neg hnull, Heap.load_eq_ok hnull hcell, ok_bind,
        if_pos hmagic, Heap.free_eq_ok hnull hcell]
      rfl
    · rw [recordOf, recordOf]
      split_ifs with hdata
      · rfl
      · exact hkept other hother hdata

end K210Firmware.CpuUsage
