import K210Firmware.CpuUsage.Hooks

/-!
# The hook beside other users of a thread

`user_data` and `cleanup` are fields that every component may use. Here a thread says who stored
them, the record of the hook is live as long as `user_data` points to it, and a history variable
lists what the hook dereferences. `scheduleHook_safe_iff` is the exact condition for a call that
follows only its own records and keeps to its own threads: the null checks of the two halves
cover a thread that both fields leave to the hook, and only if the allocator returns a block.

`scheduleHook_forget` is the connection with the kernel in which all threads are the hook's own.
-/

namespace K210Firmware.CpuUsage.Foreign

open Memory ThreadUsage

abbrev Pointer := { address : Address // address ≠ 0 }

/-- A value of `user_data` by the component that stored it. -/
inductive UserData
  | null
  | record (address : Pointer)
  | foreign (address : Pointer)
  deriving DecidableEq

/-- A value of `cleanup`. -/
inductive CleanupFn
  | null
  | cleanUpCall
  | foreign (function : ℕ)
  deriving DecidableEq

/-- The two fields of `struct rt_thread` that components share. -/
structure Thread where
  userData : UserData
  cleanup : CleanupFn
  deriving DecidableEq

/-- The value of the pointer. -/
def UserData.address : UserData → Address
  | .null => 0
  | .record address => address
  | .foreign address => address

def UserData.Installed (data : UserData) : Prop := ∃ address, data = .record address

/-- The threads and the memory. Wherever `user_data` points to a record of the hook, the record
is live; under a foreign pointer there may be anything. -/
structure Kernel where
  thread : Tid → Thread
  heap : Heap ThreadUsage
  dereferenced : List UserData
  live : ∀ tid address, (thread tid).userData = .record address →
    (heap.cell address).isSome

abbrev Allocation := Option (Pointer × ThreadUsage)

theorem isSome_set {heap : Heap ThreadUsage} {address : Address}
    (h : (heap.cell address).isSome) (other : Address) (record : ThreadUsage) :
    ((heap.set other (some record)).cell address).isSome := by
  by_cases hone : address = other
  · simp [hone]
  · rwa [Heap.cell_set_of_ne hone]

/-- `info->magic` and the later fields are read and written through this pointer. -/
def Kernel.dereference (kernel : Kernel) (info : UserData) : Kernel :=
  { kernel with dereferenced := kernel.dereferenced ++ [info] }

def Kernel.store (kernel : Kernel) (address : Address) (record : ThreadUsage) : Kernel :=
  { kernel with
    heap := kernel.heap.set address (some record)
    live := fun tid found hfound ↦ isSome_set (kernel.live tid found hfound) address record }

/-- A new block becomes the user data of a thread. -/
def Kernel.install (kernel : Kernel) (tid : Tid) (address : Pointer) (record : ThreadUsage) :
    Kernel where
  thread := Function.update kernel.thread tid ⟨.record address, .cleanUpCall⟩
  heap := kernel.heap.set address (some record)
  dereferenced := kernel.dereferenced
  live := by
    intro other found hfound
    by_cases hone : other = tid
    · obtain rfl : address = found := by simpa [hone] using hfound
      simp
    · rw [Function.update_of_ne hone] at hfound
      exact isSome_set (kernel.live other found hfound) address record

/-- The pointer that `schedule_hook` works with, after the allocation for a thread that has
neither user data nor a cleanup function. -/
def attach (kernel : Kernel) (tid : Tid) (block : Allocation) (init : ThreadUsage → ThreadUsage) :
    UserData × Kernel :=
  let thread := kernel.thread tid
  if thread.userData = .null ∧ thread.cleanup = .null then
    match block with
    | none => (.null, kernel)
    | some (address, content) =>
        (.record address, kernel.install tid address (init content))
  else (thread.userData, kernel)

/-- `if (info->magic == MAGIC_NUM)` and the update it guards. -/
def modify (kernel : Kernel) (info : UserData) (change : ThreadUsage → ThreadUsage) :
    Except Fault Kernel := do
  let record ← kernel.heap.load info.address
  let kernel := kernel.dereference info
  if record.magic = magicNum then return kernel.store info.address (change record)
  else return kernel

def scheduleHook (kernel : Kernel) (core : Core) (tick : UInt64) (fromThread toThread : Tid)
    (fromBlock toBlock : Allocation) : Except Fault Kernel := do
  let (fromInfo, kernel) := attach kernel fromThread fromBlock (initFrom · core tick)
  let kernel ← modify kernel fromInfo (leave · core tick)
  let (toInfo, kernel) := attach kernel toThread toBlock initTo
  modify kernel toInfo (enter · core tick)

/-! ## What a call may do -/

/-- The call returns, it has followed pointers to its own records only, and a thread that it
changed had both fields null and holds a block that was allocated for it. -/
def Safe (kernel : Kernel) (fromThread toThread : Tid) (fromBlock toBlock : Allocation)
    (outcome : Except Fault Kernel) : Prop :=
  ∃ after, outcome = .ok after ∧
    (∃ accesses, after.dereferenced = kernel.dereferenced ++ accesses ∧
      ∀ data ∈ accesses, data.Installed) ∧
    ∀ tid, after.thread tid ≠ kernel.thread tid →
      kernel.thread tid = ⟨.null, .null⟩ ∧
        ∃ found, after.thread tid = ⟨.record found.1, .cleanUpCall⟩ ∧
          (tid = fromThread ∧ found ∈ fromBlock ∨ tid = toThread ∧ found ∈ toBlock)

/-- The thread holds a record of the hook, or the hook may install one and gets a block. -/
def Handled (thread : Thread) (block : Allocation) : Prop :=
  thread.userData.Installed ∨ thread = ⟨.null, .null⟩ ∧ block.isSome

/-! ## One half of the hook -/

variable {kernel : Kernel} {tid : Tid} {block : Allocation} {change : ThreadUsage → ThreadUsage}

/-- An allocation in one half changes nothing, or installs the block in a thread that has
neither field set. -/
theorem attach_cases (kernel : Kernel) (tid : Tid) (block : Allocation)
    (init : ThreadUsage → ThreadUsage) :
    (attach kernel tid block init = ((kernel.thread tid).userData, kernel) ∧
        ¬ (kernel.thread tid = ⟨.null, .null⟩ ∧ block.isSome)) ∨
      ∃ found ∈ block, kernel.thread tid = ⟨.null, .null⟩ ∧
        attach kernel tid block init =
          (.record found.1, kernel.install tid found.1 (init found.2)) := by
  rcases hthread : kernel.thread tid with ⟨userData, cleanup⟩
  by_cases hnull : userData = .null ∧ cleanup = .null
  · obtain ⟨rfl, rfl⟩ := hnull
    cases block with
    | none => exact .inl ⟨by simp [attach, hthread], by simp⟩
    | some found => exact .inr ⟨found, rfl, rfl, by simp [attach, hthread]⟩
  · refine .inl ⟨by simp [attach, hthread, hnull], ?_⟩
    rintro ⟨hfields, _⟩
    cases hfields
    exact hnull ⟨rfl, rfl⟩

/-- An access that returns is recorded and touches no thread. -/
theorem modify_frame {info : UserData} {after : Kernel}
    (hrun : modify kernel info change = .ok after) :
    after.thread = kernel.thread ∧ after.dereferenced = kernel.dereferenced ++ [info] := by
  obtain ⟨record, _, hrest⟩ := bind_eq_ok.mp hrun
  by_cases hmagic : record.magic = magicNum
  · rw [if_pos hmagic] at hrest
    cases hrest
    exact ⟨rfl, rfl⟩
  · rw [if_neg hmagic] at hrest
    cases hrest
    exact ⟨rfl, rfl⟩

/-- The hook may follow a pointer to a live record. -/
theorem modify_of_installed (h : (kernel.thread tid).userData.Installed)
    (change : ThreadUsage → ThreadUsage) :
    ∃ after, modify kernel (kernel.thread tid).userData change = .ok after := by
  obtain ⟨address, hdata⟩ := h
  obtain ⟨record, hcell⟩ := Option.isSome_iff_exists.mp (kernel.live tid address hdata)
  rw [hdata, modify, UserData.address, Heap.load_eq_ok address.2 hcell, ok_bind]
  by_cases hmagic : record.magic = magicNum
  · rw [if_pos hmagic]
    exact ⟨_, rfl⟩
  · rw [if_neg hmagic]
    exact ⟨_, rfl⟩

/-- The change that one half of a call makes to the threads. -/
def Changes (kernel after : Kernel) (tid : Tid) (block : Allocation) : Prop :=
  ∀ other, after.thread other ≠ kernel.thread other →
    other = tid ∧ kernel.thread other = ⟨.null, .null⟩ ∧
      ∃ found ∈ block, after.thread other = ⟨.record found.1, .cleanUpCall⟩

/-- **One half.** For a thread that is handled it returns and has followed a pointer to a record,
which the thread holds from now on; otherwise it faults or has followed another pointer. -/
theorem half_spec (kernel : Kernel) (tid : Tid) (block : Allocation)
    (init change : ThreadUsage → ThreadUsage) :
    (Handled (kernel.thread tid) block → ∃ after,
      modify (attach kernel tid block init).2 (attach kernel tid block init).1 change =
        .ok after) ∧
    ∀ after,
      modify (attach kernel tid block init).2 (attach kernel tid block init).1 change =
          .ok after →
        Changes kernel after tid block ∧
        ∃ data, after.dereferenced = kernel.dereferenced ++ [data] ∧
          (data.Installed ↔ Handled (kernel.thread tid) block) ∧
          (data.Installed → (after.thread tid).userData = data) := by
  rcases attach_cases kernel tid block init with
    ⟨hattach, hblock⟩ | ⟨found, hfound, hnull, hattach⟩
  · rw [hattach]
    refine ⟨fun hhandled ↦ ?_, fun after hrun ↦ ?_⟩
    · exact modify_of_installed (hhandled.resolve_right hblock) change
    · obtain ⟨hthread, hlog⟩ := modify_frame hrun
      refine ⟨fun other hother ↦ absurd (congrFun hthread other) hother, _, hlog, ?_, ?_⟩
      · exact (or_iff_left hblock).symm
      · intro _
        rw [hthread]
  · rw [hattach]
    have hself : ((kernel.install tid found.1 (init found.2)).thread tid).userData =
        .record found.1 := by
      simp [Kernel.install]
    refine ⟨fun _ ↦ ?_, fun after hrun ↦ ?_⟩
    · have hheld : ((kernel.install tid found.1 (init found.2)).thread tid).userData.Installed :=
        ⟨found.1, hself⟩
      have hrun := modify_of_installed hheld change
      rwa [hself] at hrun
    · obtain ⟨hthread, hlog⟩ := modify_frame hrun
      refine ⟨fun other hother ↦ ?_, .record found.1, hlog, ?_, fun _ ↦ hthread ▸ hself⟩
      · rw [hthread] at hother ⊢
        by_cases hone : other = tid
        · subst hone
          exact ⟨rfl, hnull, found, hfound, Function.update_self ..⟩
        · exact absurd (Function.update_of_ne hone ..) hother
      · exact iff_of_true ⟨_, rfl⟩ (.inr ⟨hnull, Option.isSome_of_mem hfound⟩)

/-- A half leaves the other threads alone. -/
theorem Changes.thread_eq {after : Kernel} (h : Changes kernel after tid block) {other : Tid}
    (hother : other ≠ tid) : after.thread other = kernel.thread other := by
  by_contra hchanged
  exact hother (h other hchanged).1

/-- What two halves change is what one of them changes: the first installs a record, after which
the second finds a field set. -/
theorem Changes.followed {middle after : Kernel} {fromThread toThread : Tid}
    {fromBlock toBlock : Allocation} (hfirst : Changes kernel middle fromThread fromBlock)
    (hsecond : Changes middle after toThread toBlock) {tid : Tid}
    (hchanged : after.thread tid ≠ kernel.thread tid) :
    kernel.thread tid = ⟨.null, .null⟩ ∧
      ∃ found, after.thread tid = ⟨.record found.1, .cleanUpCall⟩ ∧
        (tid = fromThread ∧ found ∈ fromBlock ∨ tid = toThread ∧ found ∈ toBlock) := by
  by_cases hmiddle : middle.thread tid = kernel.thread tid
  · obtain ⟨rfl, hnull, found, hfound, hnew⟩ := hsecond tid (hmiddle.symm ▸ hchanged)
    exact ⟨hmiddle ▸ hnull, found, hnew, .inr ⟨rfl, hfound⟩⟩
  · obtain ⟨rfl, hnull, found, hfound, hnew⟩ := hfirst tid hmiddle
    have hkept : after.thread tid = middle.thread tid := by
      by_contra hlast
      obtain ⟨_, hnullAgain, _⟩ := hsecond tid hlast
      cases hnew.symm.trans hnullAgain
    exact ⟨hnull, found, hkept.trans hnew, .inl ⟨rfl, hfound⟩⟩

/-! ## The whole hook -/

/-- **Exact condition.** A call is safe if and only if each of its threads holds a record, or has
neither field set and gets a block. -/
theorem scheduleHook_safe_iff (kernel : Kernel) (core : Core) (tick : UInt64)
    (fromThread toThread : Tid) (fromBlock toBlock : Allocation) :
    Safe kernel fromThread toThread fromBlock toBlock
        (scheduleHook kernel core tick fromThread toThread fromBlock toBlock) ↔
      Handled (kernel.thread fromThread) fromBlock ∧
        (toThread = fromThread ∨ Handled (kernel.thread toThread) toBlock) := by
  obtain ⟨hfirst, hfirstRun⟩ :=
    half_spec kernel fromThread fromBlock (initFrom · core tick) (leave · core tick)
  constructor
  · rintro ⟨after, hrun, ⟨accesses, hlog, haccesses⟩, _⟩
    obtain ⟨middle, hmiddle, hafter⟩ := bind_eq_ok.mp hrun
    obtain ⟨hchanges, left, hleft, hleftHandled, _⟩ := hfirstRun middle hmiddle
    obtain ⟨_, entered, hentered, henteredHandled, _⟩ :=
      (half_spec middle toThread toBlock initTo (enter · core tick)).2 after hafter
    have hboth : accesses = [left, entered] := by
      rw [hentered, hleft, List.append_assoc, List.append_right_inj] at hlog
      exact hlog.symm
    refine ⟨hleftHandled.mp (haccesses left (by simp [hboth])), ?_⟩
    by_cases hsame : toThread = fromThread
    · exact .inl hsame
    · rw [← hchanges.thread_eq hsame]
      exact .inr (henteredHandled.mp (haccesses entered (by simp [hboth])))
  · rintro ⟨hfrom, hto⟩
    obtain ⟨middle, hmiddle⟩ := hfirst hfrom
    obtain ⟨hchanges, left, hleft, hleftHandled, hheld⟩ := hfirstRun middle hmiddle
    have hleftInstalled := hleftHandled.mpr hfrom
    have hsecondHandled : Handled (middle.thread toThread) toBlock := by
      by_cases hsame : toThread = fromThread
      · rw [hsame]
        exact .inl (hheld hleftInstalled ▸ hleftInstalled)
      · rw [hchanges.thread_eq hsame]
        exact hto.resolve_left hsame
    obtain ⟨hsecond, hsecondRun⟩ :=
      half_spec middle toThread toBlock initTo (enter · core tick)
    obtain ⟨after, hafter⟩ := hsecond hsecondHandled
    obtain ⟨hlastChanges, entered, hentered, henteredHandled, _⟩ := hsecondRun after hafter
    refine ⟨after, ?_, ⟨[left, entered], ?_, ?_⟩, fun tid hchanged ↦ ?_⟩
    · simp only [scheduleHook, hmiddle, ok_bind]
      exact hafter
    · rw [hentered, hleft, List.append_assoc]
      rfl
    · intro data hdata
      rcases List.mem_pair.mp hdata with rfl | rfl
      · exact hleftInstalled
      · exact henteredHandled.mpr hsecondHandled
    · exact hchanges.followed hlastChanges hchanged

/-- Two threads that were never switched, with the memory exhausted. -/
def exhausted : Kernel where
  thread _ := ⟨.null, .null⟩
  heap := Heap.empty
  dereferenced := []
  live := by
    intro tid address hdata
    cases hdata

/-- The hook tests the block and then reads through the null pointer all the same. -/
theorem unallocated_record_is_read :
    scheduleHook exhausted 0 0 1 2 none none = .error .nullPointer ∧
      ¬ Safe exhausted 1 2 none none (scheduleHook exhausted 0 0 1 2 none none) := by
  refine ⟨rfl, ?_⟩
  rintro ⟨after, hrun, _⟩
  cases hrun

/-! ## Kernels without other users -/

def CleanupFn.forget : CleanupFn → Cleanup
  | .null => .null
  | .cleanUpCall => .cleanUpCall
  | .foreign _ => .cleanUpCall

/-- The kernel as the hook sees it: pointers are values, and a cleanup function is null or not. -/
def Kernel.forget (kernel : Kernel) (objects : List Tid) : CpuUsage.Kernel where
  thread tid := ⟨(kernel.thread tid).userData.address, (kernel.thread tid).cleanup.forget⟩
  heap := kernel.heap
  objects := objects

def Allocation.forget (block : Allocation) : CpuUsage.Allocation :=
  block.map fun found ↦ (found.1.1, found.2)

theorem userData_address_eq_zero {data : UserData} : data.address = 0 ↔ data = .null := by
  cases data with
  | null => simp [UserData.address]
  | record address => simp [UserData.address, address.2]
  | foreign address => simp [UserData.address, address.2]

theorem cleanupFn_forget_eq_null {cleanup : CleanupFn} :
    cleanup.forget = .null ↔ cleanup = .null := by
  cases cleanup <;> simp [CleanupFn.forget]

theorem install_forget (kernel : Kernel) (objects : List Tid) (tid : Tid) (address : Pointer)
    (record : ThreadUsage) :
    (kernel.install tid address record).forget objects =
      { kernel.forget objects with
        thread := Function.update (kernel.forget objects).thread tid ⟨address, .cleanUpCall⟩
        heap := (kernel.forget objects).heap.set address (some record) } := by
  have hthread : ((kernel.install tid address record).forget objects).thread =
      Function.update (kernel.forget objects).thread tid ⟨address, .cleanUpCall⟩ := by
    funext other
    by_cases hone : other = tid
    · subst hone
      simp [Kernel.forget, Kernel.install, UserData.address, CleanupFn.forget]
    · simp [Kernel.forget, Kernel.install, hone]
  rw [← hthread]
  rfl

theorem attach_forget (kernel : Kernel) (objects : List Tid) (tid : Tid) (block : Allocation)
    (init : ThreadUsage → ThreadUsage) :
    CpuUsage.attach (kernel.forget objects) tid block.forget init =
      ((attach kernel tid block init).1.address,
        (attach kernel tid block init).2.forget objects) := by
  have hnull : ((kernel.forget objects).thread tid).userData = 0 ∧
      ((kernel.forget objects).thread tid).cleanup = .null ↔
        (kernel.thread tid).userData = .null ∧ (kernel.thread tid).cleanup = .null :=
    and_congr userData_address_eq_zero cleanupFn_forget_eq_null
  simp only [CpuUsage.attach, attach, hnull]
  split_ifs
  · cases block with
    | none => rfl
    | some found =>
      rw [install_forget]
      rfl
  · rfl

theorem modify_forget (kernel : Kernel) (objects : List Tid) (info : UserData)
    (change : ThreadUsage → ThreadUsage) :
    CpuUsage.modify (kernel.forget objects) info.address change =
      (modify kernel info change).map (Kernel.forget · objects) := by
  have hheap : (kernel.forget objects).heap = kernel.heap := rfl
  simp only [CpuUsage.modify, modify, hheap]
  cases kernel.heap.load info.address with
  | error fault => rfl
  | ok record =>
    simp only [ok_bind]
    split_ifs <;> rfl

/-- **Refinement.** Without the history and the owners, a call is the hook of `Hooks`. -/
theorem scheduleHook_forget (kernel : Kernel) (objects : List Tid) (core : Core) (tick : UInt64)
    (fromThread toThread : Tid) (fromBlock toBlock : Allocation) :
    CpuUsage.scheduleHook (kernel.forget objects) core tick fromThread toThread fromBlock.forget
        toBlock.forget =
      (scheduleHook kernel core tick fromThread toThread fromBlock toBlock).map
        (Kernel.forget · objects) := by
  simp only [CpuUsage.scheduleHook, scheduleHook, attach_forget, modify_forget]
  cases modify (attach kernel fromThread fromBlock (initFrom · core tick)).2
      (attach kernel fromThread fromBlock (initFrom · core tick)).1 (leave · core tick) with
  | error fault => rfl
  | ok middle =>
    simp only [Except.map, ok_bind, attach_forget, modify_forget]

end K210Firmware.CpuUsage.Foreign
