import K210Firmware.CpuUsage.Record
import Mathlib.Data.List.Nodup

/-!
# The scheduler hook and the timer interrupt

A thread carries its usage record behind `user_data`. The hook allocates the record when the
thread is first switched out or in, and the interrupt walks the list of thread objects. Records
live in a heap, so that a load through a null or dangling pointer is a fault of the step.

`recordOf` forgets the addresses. Under `Installed` the hook and the interrupt act on it like
plain updates of a table of records: `scheduleHook_spec` and `timerIrq_spec`.
-/

namespace K210Firmware.CpuUsage

open Memory ThreadUsage

abbrev Tid := ℕ

/-- The values of a thread's `cleanup` field. -/
inductive Cleanup
  | null
  | cleanUpCall
  deriving DecidableEq, Repr

/-- The two fields of `struct rt_thread` that the module uses. -/
structure Thread where
  userData : Address
  cleanup : Cleanup
  deriving DecidableEq, Repr

/-- The threads, the records, and the list `info->object_list`. -/
structure Kernel where
  thread : Tid → Thread
  heap : Heap ThreadUsage
  objects : List Tid

/-- What `rt_malloc` returns: no block, or an address and the contents found there. -/
abbrev Allocation := Option (Address × ThreadUsage)

/-- The pointer that `schedule_hook` works with, after the allocation for a thread that has
neither user data nor a cleanup function. -/
def attach (kernel : Kernel) (tid : Tid) (block : Allocation) (init : ThreadUsage → ThreadUsage) :
    Address × Kernel :=
  let thread := kernel.thread tid
  if thread.userData = 0 ∧ thread.cleanup = .null then
    match block with
    | none => (0, kernel)
    | some (address, content) =>
        (address,
          { kernel with
            thread := Function.update kernel.thread tid ⟨address, .cleanUpCall⟩
            heap := kernel.heap.set address (some (init content)) })
  else (thread.userData, kernel)

/-- `if (info->magic == MAGIC_NUM)` and the update it guards. -/
def modify (kernel : Kernel) (info : Address) (change : ThreadUsage → ThreadUsage) :
    Except Fault Kernel := do
  let record ← kernel.heap.load info
  if record.magic = magicNum then
    return { kernel with heap := kernel.heap.set info (some (change record)) }
  else return kernel

def scheduleHook (kernel : Kernel) (core : Core) (tick : UInt64) (fromThread toThread : Tid)
    (fromBlock toBlock : Allocation) : Except Fault Kernel := do
  let (fromInfo, kernel) := attach kernel fromThread fromBlock (initFrom · core tick)
  let kernel ← modify kernel fromInfo (leave · core tick)
  let (toInfo, kernel) := attach kernel toThread toBlock initTo
  modify kernel toInfo (enter · core tick)

/-- The loop body of `timer_irq` for one thread object. -/
def settleThread (tick reload : UInt64) (kernel : Kernel) (tid : Tid) : Except Fault Kernel :=
  let data := (kernel.thread tid).userData
  if data = 0 then return kernel else modify kernel data (settle · tick reload)

/-- `timer_irq` after it has read the time. -/
def timerIrq (kernel : Kernel) (tick reload : UInt64) : Except Fault Kernel :=
  kernel.objects.foldlM (settleThread tick reload) kernel

/-! ## The table of records -/

def recordOf (kernel : Kernel) (tid : Tid) : Option ThreadUsage :=
  if (kernel.thread tid).userData = 0 then none
  else kernel.heap.cell (kernel.thread tid).userData

/-- User data and cleanup functions are installed together, records are live and marked, and no
two threads share one. -/
structure Installed (kernel : Kernel) : Prop where
  cleanup : ∀ tid, (kernel.thread tid).cleanup = .null ↔ (kernel.thread tid).userData = 0
  live : ∀ tid, (kernel.thread tid).userData ≠ 0 →
    ∃ record, kernel.heap.cell (kernel.thread tid).userData = some record ∧
      record.magic = magicNum
  separate : ∀ tid other, (kernel.thread tid).userData = (kernel.thread other).userData →
    (kernel.thread tid).userData ≠ 0 → tid = other

/-- Only the threads and the heap matter. -/
theorem Installed.congr {kernel after : Kernel} (h : Installed kernel)
    (hthread : after.thread = kernel.thread) (hheap : after.heap = kernel.heap) :
    Installed after := by
  constructor
  · rw [hthread]
    exact h.cleanup
  · rw [hthread, hheap]
    exact h.live
  · rw [hthread]
    exact h.separate

/-- The step from `kernel` to `after` writes `record` for one thread, in its own block or in the
new one, and nothing else. -/
structure Writes (kernel after : Kernel) (tid : Tid) (block : Allocation) (record : ThreadUsage) :
    Prop where
  installed : Installed after
  objects : after.objects = kernel.objects
  table : recordOf after = Function.update (recordOf kernel) tid (some record)
  dead : ∀ address, kernel.heap.cell address = none → (∀ found ∈ block, found.1 ≠ address) →
    after.heap.cell address = none

variable {kernel : Kernel} {tid : Tid}

theorem recordOf_eq_none (h : Installed kernel) :
    recordOf kernel tid = none ↔ (kernel.thread tid).userData = 0 := by
  rw [recordOf]
  split_ifs with huser
  · simp [huser]
  · obtain ⟨record, hcell, _⟩ := h.live tid huser
    simp [hcell, huser]

theorem userData_ne_zero (h : Installed kernel) {record : ThreadUsage}
    (hrecord : recordOf kernel tid = some record) : (kernel.thread tid).userData ≠ 0 := by
  intro hzero
  rw [(recordOf_eq_none h).mpr hzero] at hrecord
  cases hrecord

theorem magic_of_recordOf (h : Installed kernel) {record : ThreadUsage}
    (hrecord : recordOf kernel tid = some record) : record.magic = magicNum := by
  have huser := userData_ne_zero h hrecord
  obtain ⟨other, hcell, hmagic⟩ := h.live tid huser
  rw [recordOf, if_neg huser, hcell] at hrecord
  exact Option.some.inj hrecord ▸ hmagic

theorem attach_of_record (h : Installed kernel) {record : ThreadUsage}
    (hrecord : recordOf kernel tid = some record) (block : Allocation)
    (init : ThreadUsage → ThreadUsage) :
    attach kernel tid block init = ((kernel.thread tid).userData, kernel) := by
  have huser := userData_ne_zero h hrecord
  exact if_neg fun hboth ↦ huser hboth.1

theorem attach_of_no_memory (h : Installed kernel) (hrecord : recordOf kernel tid = none)
    (init : ThreadUsage → ThreadUsage) : attach kernel tid none init = (0, kernel) := by
  have huser := (recordOf_eq_none h).mp hrecord
  exact if_pos ⟨huser, (h.cleanup tid).mpr huser⟩

/-- A new record is installed at a fresh address. -/
theorem attach_of_block (h : Installed kernel) (hrecord : recordOf kernel tid = none)
    {address : Address} (hfresh : kernel.heap.Fresh address) (content : ThreadUsage)
    {init : ThreadUsage → ThreadUsage} (hinit : (init content).magic = magicNum) :
    ∃ after, attach kernel tid (some (address, content)) init = (address, after) ∧
      (after.thread tid).userData = address ∧
        Writes kernel after tid (some (address, content)) (init content) := by
  have huser := (recordOf_eq_none h).mp hrecord
  obtain ⟨hnonnull, hdead⟩ := hfresh
  have hother (other : Tid) : (kernel.thread other).userData ≠ address := by
    intro hsame
    obtain ⟨record, hcell, _⟩ := h.live other (hsame ▸ hnonnull)
    rw [hsame, hdead] at hcell
    cases hcell
  refine ⟨{ kernel with
    thread := Function.update kernel.thread tid ⟨address, .cleanUpCall⟩
    heap := kernel.heap.set address (some (init content)) }, ?_, by simp, ?_, rfl, ?_,
    fun other hnone hne ↦ ?_⟩
  · exact if_pos ⟨huser, (h.cleanup tid).mpr huser⟩
  · refine ⟨fun other ↦ ?_, fun other hlive ↦ ?_, fun first second hsame hlive ↦ ?_⟩
    · by_cases hone : other = tid
      · simp [hone, hnonnull]
      · simpa [hone] using h.cleanup other
    · by_cases hone : other = tid
      · exact ⟨init content, by simp [hone], hinit⟩
      · simp only [Function.update_of_ne hone] at hlive ⊢
        rw [Heap.cell_set_of_ne (hother other)]
        exact h.live other hlive
    · by_cases hfirst : first = tid
      · by_cases hsecond : second = tid
        · rw [hfirst, hsecond]
        · simp only [hfirst, Function.update_self, Function.update_of_ne hsecond] at hsame
          exact absurd hsame.symm (hother second)
      · by_cases hsecond : second = tid
        · simp only [hsecond, Function.update_self, Function.update_of_ne hfirst] at hsame
          exact absurd hsame (hother first)
        · simp only [Function.update_of_ne hfirst, Function.update_of_ne hsecond] at hsame hlive
          exact h.separate first second hsame hlive
  · funext other
    by_cases hone : other = tid
    · simp [recordOf, hone, hnonnull]
    · simp only [recordOf, Function.update_of_ne hone, Heap.cell_set_of_ne (hother other)]
  · exact (Heap.cell_set_of_ne (hne _ rfl).symm _).trans hnone

theorem modify_of_cell {info : Address} (hinfo : info ≠ 0) {record : ThreadUsage}
    (hcell : kernel.heap.cell info = some record) (hmagic : record.magic = magicNum)
    (change : ThreadUsage → ThreadUsage) :
    modify kernel info change =
      .ok { kernel with heap := kernel.heap.set info (some (change record)) } := by
  rw [modify, Heap.load_eq_ok hinfo hcell, ok_bind, if_pos hmagic]
  rfl

/-- An update of a marked record changes the record of its thread only. -/
theorem modify_spec (h : Installed kernel) {record : ThreadUsage}
    (hrecord : recordOf kernel tid = some record) (change : ThreadUsage → ThreadUsage)
    (hchange : (change record).magic = record.magic) :
    ∃ after, modify kernel (kernel.thread tid).userData change = .ok after ∧
      after.thread = kernel.thread ∧ Writes kernel after tid none (change record) := by
  have huser := userData_ne_zero h hrecord
  have hmagic := magic_of_recordOf h hrecord
  have hcell : kernel.heap.cell (kernel.thread tid).userData = some record := by
    rwa [recordOf, if_neg huser] at hrecord
  have hother (other : Tid) (hne : other ≠ tid) (hlive : (kernel.thread other).userData ≠ 0) :
      (kernel.thread other).userData ≠ (kernel.thread tid).userData :=
    fun hsame ↦ hne (h.separate other tid hsame hlive)
  refine ⟨{ kernel with
    heap := kernel.heap.set (kernel.thread tid).userData (some (change record)) },
    modify_of_cell huser hcell hmagic change, rfl, ?_, rfl, ?_, fun other hnone _ ↦ ?_⟩
  · refine ⟨h.cleanup, fun other hlive ↦ ?_, h.separate⟩
    by_cases hone : other = tid
    · exact ⟨change record, by simp [hone], hchange.trans hmagic⟩
    · simp only [Heap.cell_set_of_ne (hother other hone hlive)]
      exact h.live other hlive
  · funext other
    by_cases hone : other = tid
    · simp [recordOf, hone, huser]
    · rw [Function.update_of_ne hone, recordOf, recordOf]
      split_ifs with hnull
      · rfl
      · exact Heap.cell_set_of_ne (hother other hone hnull) _
  · refine (Heap.cell_set_of_ne ?_ _).trans hnone
    intro hsame
    subst hsame
    rw [hcell] at hnone
    cases hnone

theorem modify_null (kernel : Kernel) (change : ThreadUsage → ThreadUsage) :
    modify kernel 0 change = .error .nullPointer := rfl

/-! ## The hook -/

/-- The record a thread has before the update: its own, or the one installed in a new block. -/
def recordOrNew (kernel : Kernel) (tid : Tid) (block : Allocation)
    (init : ThreadUsage → ThreadUsage) : Option ThreadUsage :=
  (recordOf kernel tid).or (block.map fun found ↦ init found.2)

/-- The two allocations of a call return different fresh addresses, if they return one. -/
structure Allocatable (kernel : Kernel) (fromBlock toBlock : Allocation) : Prop where
  from_fresh : ∀ found ∈ fromBlock, kernel.heap.Fresh found.1
  to_fresh : ∀ found ∈ toBlock, kernel.heap.Fresh found.1
  ne : ∀ found ∈ fromBlock, ∀ other ∈ toBlock, found.1 ≠ other.1

/-- The allocator may fail twice. -/
theorem allocatable_none (kernel : Kernel) : Allocatable kernel none none := by
  constructor <;> simp

/-- One half of the hook: allocate if necessary, then update. -/
theorem attach_modify (h : Installed kernel) (tid : Tid) {block : Allocation}
    (hblock : ∀ found ∈ block, kernel.heap.Fresh found.1) (init change : ThreadUsage → ThreadUsage)
    (hinit : ∀ content, (init content).magic = magicNum)
    (hchange : ∀ record, (change record).magic = record.magic) :
    match recordOrNew kernel tid block init with
    | none => modify (attach kernel tid block init).2 (attach kernel tid block init).1 change =
        .error .nullPointer
    | some record => ∃ after,
        modify (attach kernel tid block init).2 (attach kernel tid block init).1 change =
            .ok after ∧
          Writes kernel after tid block (change record) := by
  cases hrecord : recordOf kernel tid with
  | some record =>
    obtain ⟨after, hrun, _, hwrites⟩ := modify_spec h hrecord change (hchange record)
    simp only [recordOrNew, hrecord, Option.some_or, attach_of_record h hrecord]
    exact ⟨after, hrun, hwrites.installed, hwrites.objects, hwrites.table,
      fun address hnone _ ↦ hwrites.dead address hnone (by simp)⟩
  | none =>
    cases block with
    | none =>
      simp only [recordOrNew, hrecord, Option.map_none, Option.or_none,
        attach_of_no_memory h hrecord]
      exact modify_null kernel change
    | some found =>
      obtain ⟨address, content⟩ := found
      have hfresh : kernel.heap.Fresh address := hblock _ rfl
      obtain ⟨middle, hattach, haddress, hnew⟩ :=
        attach_of_block h hrecord hfresh content (hinit content)
      have hmiddle : recordOf middle tid = some (init content) := by
        rw [hnew.table, Function.update_self]
      obtain ⟨after, hrun, _, hwrites⟩ := modify_spec hnew.installed hmiddle change (hchange _)
      simp only [recordOrNew, hrecord, Option.map_some, Option.none_or, hattach]
      refine ⟨after, haddress ▸ hrun, hwrites.installed, hwrites.objects.trans hnew.objects, ?_,
        fun other hnone hne ↦ hwrites.dead other (hnew.dead other hnone hne) (by simp)⟩
      rw [hwrites.table, hnew.table, Function.update_idem]

/-- **The hook.** With a record or a new block for both threads it stamps their records;
without memory for one of them it follows a null pointer. -/
theorem scheduleHook_spec (h : Installed kernel) (core : Core) (tick : UInt64)
    {fromThread toThread : Tid} (hne : fromThread ≠ toThread) {fromBlock toBlock : Allocation}
    (hblocks : Allocatable kernel fromBlock toBlock) :
    scheduleHook kernel core tick fromThread toThread fromBlock toBlock = .error .nullPointer ∨
    ∃ after fromRecord toRecord,
      scheduleHook kernel core tick fromThread toThread fromBlock toBlock = .ok after ∧
      recordOrNew kernel fromThread fromBlock (initFrom · core tick) = some fromRecord ∧
      recordOrNew kernel toThread toBlock initTo = some toRecord ∧
      Installed after ∧ after.objects = kernel.objects ∧
      recordOf after = Function.update
        (Function.update (recordOf kernel) fromThread (some (fromRecord.leave core tick)))
        toThread (some (toRecord.enter core tick)) := by
  have hfirst := attach_modify h fromThread hblocks.from_fresh (initFrom · core tick)
    (leave · core tick) (fun _ ↦ rfl) (fun _ ↦ rfl)
  rcases hfrom : recordOrNew kernel fromThread fromBlock (initFrom · core tick) with _ | fromRecord
  · rw [hfrom] at hfirst
    refine .inl ?_
    simp only [scheduleHook, hfirst]
    rfl
  rw [hfrom] at hfirst
  obtain ⟨middle, hmiddle, hwrites⟩ := hfirst
  have hfresh : ∀ found ∈ toBlock, middle.heap.Fresh found.1 := fun found hfound ↦
    ⟨(hblocks.to_fresh found hfound).1, hwrites.dead _ (hblocks.to_fresh found hfound).2
      fun other hother ↦ hblocks.ne other hother found hfound⟩
  have hsecond := attach_modify hwrites.installed toThread hfresh initTo
    (enter · core tick) (fun _ ↦ rfl) (fun _ ↦ rfl)
  have hkeep : recordOrNew middle toThread toBlock initTo =
      recordOrNew kernel toThread toBlock initTo := by
    rw [recordOrNew, recordOrNew, hwrites.table, Function.update_of_ne hne.symm]
  rw [hkeep] at hsecond
  rcases hto : recordOrNew kernel toThread toBlock initTo with _ | toRecord
  · rw [hto] at hsecond
    refine .inl ?_
    simp only [scheduleHook, hmiddle, ok_bind]
    exact hsecond
  · rw [hto] at hsecond
    obtain ⟨after, hafter, hlast⟩ := hsecond
    refine .inr ⟨after, fromRecord, toRecord, ?_, rfl, rfl, hlast.installed,
      hlast.objects.trans hwrites.objects, ?_⟩
    · simp only [scheduleHook, hmiddle, ok_bind]
      exact hafter
    · rw [hlast.table, hwrites.table]

/-- Whose record one finds in the table after a switch. -/
theorem switched_cases {fromThread toThread : Tid} (hne : fromThread ≠ toThread)
    {table : Tid → Option ThreadUsage} {left entered record : ThreadUsage}
    (hrecord : Function.update (Function.update table fromThread (some left)) toThread
      (some entered) tid = some record) :
    tid = toThread ∧ entered = record ∨ tid = fromThread ∧ left = record ∨
      tid ≠ toThread ∧ tid ≠ fromThread ∧ table tid = some record := by
  by_cases htone : tid = toThread
  · rw [htone, Function.update_self, Option.some.injEq] at hrecord
    exact .inl ⟨htone, hrecord⟩
  · by_cases hfromne : tid = fromThread
    · rw [hfromne, Function.update_of_ne hne, Function.update_self, Option.some.injEq] at hrecord
      exact .inr (.inl ⟨hfromne, hrecord⟩)
    · rw [Function.update_of_ne htone, Function.update_of_ne hfromne] at hrecord
      exact .inr (.inr ⟨htone, hfromne, hrecord⟩)

/-- A thread without a record after a switch had none before. -/
theorem switched_eq_none {fromThread toThread : Tid} {table : Tid → Option ThreadUsage}
    {left entered : ThreadUsage}
    (hnone : Function.update (Function.update table fromThread (some left)) toThread
      (some entered) tid = none) : table tid = none := by
  have htone : tid ≠ toThread := by
    rintro rfl
    rw [Function.update_self] at hnone
    cases hnone
  rw [Function.update_of_ne htone] at hnone
  have hfromne : tid ≠ fromThread := by
    rintro rfl
    rw [Function.update_self] at hnone
    cases hnone
  rwa [Function.update_of_ne hfromne] at hnone

/-! ## The interrupt -/

theorem settleThread_spec (h : Installed kernel) (tick reload : UInt64) (tid : Tid) :
    ∃ after, settleThread tick reload kernel tid = .ok after ∧ Installed after ∧
      after.objects = kernel.objects ∧
      recordOf after = Function.update (recordOf kernel) tid
        ((recordOf kernel tid).map (settle · tick reload)) := by
  cases hrecord : recordOf kernel tid with
  | none =>
    refine ⟨kernel, ?_, h, rfl, ?_⟩
    · exact if_pos ((recordOf_eq_none h).mp hrecord)
    · rw [Option.map_none, ← hrecord, Function.update_eq_self]
  | some record =>
    have huser := userData_ne_zero h hrecord
    obtain ⟨after, hrun, _, hwrites⟩ := modify_spec h hrecord (settle · tick reload)
      magic_settle
    refine ⟨after, ?_, hwrites.installed, hwrites.objects, hwrites.table⟩
    exact (if_neg huser).trans hrun

/-- Walking a list of different threads settles the record of each. -/
theorem settleThreads_spec (h : Installed kernel) (tick reload : UInt64) {tids : List Tid}
    (htids : tids.Nodup) :
    ∃ after, tids.foldlM (settleThread tick reload) kernel = .ok after ∧ Installed after ∧
      after.objects = kernel.objects ∧
      ∀ tid, recordOf after tid =
        if tid ∈ tids then (recordOf kernel tid).map (settle · tick reload)
        else recordOf kernel tid := by
  induction tids generalizing kernel with
  | nil => exact ⟨kernel, rfl, h, rfl, fun tid ↦ by simp⟩
  | cons head tids ih =>
    obtain ⟨hhead, htail⟩ := List.nodup_cons.mp htids
    obtain ⟨middle, hmiddle, hinstalled, hobjects, htable⟩ := settleThread_spec h tick reload head
    obtain ⟨after, hafter, hlast, hlastObjects, hrecords⟩ := ih hinstalled htail
    refine ⟨after, ?_, hlast, hlastObjects.trans hobjects, fun tid ↦ ?_⟩
    · rw [List.foldlM_cons, hmiddle, ok_bind, hafter]
    · rw [hrecords, htable]
      by_cases hone : tid = head
      · subst hone
        rw [if_neg hhead, Function.update_self, if_pos (List.mem_cons_self ..)]
      · rw [Function.update_of_ne hone]
        simp [hone]

/-- **The interrupt** settles the record of every thread in the object list. -/
theorem timerIrq_spec (h : Installed kernel) (hobjects : kernel.objects.Nodup)
    (tick reload : UInt64) :
    ∃ after, timerIrq kernel tick reload = .ok after ∧ Installed after ∧
      after.objects = kernel.objects ∧
      ∀ tid, recordOf after tid =
        if tid ∈ kernel.objects then (recordOf kernel tid).map (settle · tick reload)
        else recordOf kernel tid :=
  settleThreads_spec h tick reload hobjects

end K210Firmware.CpuUsage
