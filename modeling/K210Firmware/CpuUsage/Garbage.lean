import K210Firmware.CpuUsage.Period
import K210Firmware.Library.Lockstep

/-!
# Uncleared records

`rt_malloc` does not clear its blocks, and the hook writes only the mark and, for a thread that is
switched out, one enter stamp. `Independent` compares two runs of a history that differ in what
the blocks held. The relation between the runs is one between the records: any relation that the
hook keeps (`Kept`) holds of two hooks in lockstep. With equal marks this shows that both runs
exist; with counts and costs that are apart by one (`Shifted`) it shows that the first interrupt
after a hook tells the runs apart.
-/

namespace K210Firmware.CpuUsage.Garbage

open Memory ThreadUsage Transition Lockstep

/-- A call of the hook, with the addresses that its two allocations return if it makes them, and a
timer interrupt; both with the time they read. -/
inductive Event
  | hook (core : Core) (tick : UInt64) (fromThread toThread : Tid)
      (fromBlock toBlock : Option Address)
  | timer (tick : UInt64)

def Event.IsTimer (event : Event) : Prop := ∃ tick, event = .timer tick

/-- What every block holds when `rt_malloc` returns it. -/
abbrev Contents := Address → ThreadUsage

def filled (garbage : Contents) (block : Option Address) : Allocation :=
  block.map fun address ↦ (address, garbage address)

def serve (garbage : Contents) (reload : UInt64) (kernel : Kernel) : Event → Except Fault Kernel
  | .hook core tick fromThread toThread fromBlock toBlock =>
      scheduleHook kernel core tick fromThread toThread (filled garbage fromBlock)
        (filled garbage toBlock)
  | .timer tick => timerIrq kernel tick reload

/-- The hook is called for two different threads, and allocations return fresh blocks. -/
def enabled (garbage : Contents) (kernel : Kernel) : Event → Prop
  | .hook _ _ fromThread toThread fromBlock toBlock =>
      fromThread ≠ toThread ∧
        Allocatable kernel (filled garbage fromBlock) (filled garbage toBlock)
  | .timer _ => True

def uncleared (setup : Setup) (garbage : Contents) : System Kernel Event Fault where
  enabled := enabled garbage
  step := serve garbage setup.reload

/-- The three reported fields. -/
def shown (record : ThreadUsage) : (Core → UInt64) × (Core → UInt8) × (Core → UInt8) :=
  (record.costTick, record.major, record.minor)

/-- After every interrupt of the history, two runs show the same for every thread. -/
def Independent (setup : Setup) (events : List Event) : Prop :=
  ∀ garbage other before tick after last twin, events = before ++ .timer tick :: after →
    (uncleared setup garbage).Run (boot setup).kernel (before ++ [.timer tick]) last →
      (uncleared setup other).Run (boot setup).kernel (before ++ [.timer tick]) twin →
        ∀ tid, (recordOf last tid).map shown = (recordOf twin tid).map shown

/-! ## Two kernels in lockstep -/

/-- The kernels differ in the records only, and these are related. -/
structure Related (rel : ThreadUsage → ThreadUsage → Prop) (kernel twin : Kernel) : Prop where
  thread : kernel.thread = twin.thread
  objects : kernel.objects = twin.objects
  heap : HeapAlike rel kernel.heap twin.heap

/-- The relation holds of new records from the two runs and is kept by the updates of the hook,
which follow the mark. -/
structure Kept (rel : ThreadUsage → ThreadUsage → Prop) (garbage other : Contents) : Prop where
  magic : ∀ record twin, rel record twin → record.magic = twin.magic
  initFrom : ∀ address core tick,
    rel ((garbage address).initFrom core tick) ((other address).initFrom core tick)
  initTo : ∀ address, rel (garbage address).initTo (other address).initTo
  leave : ∀ record twin core tick, rel record twin →
    rel (record.leave core tick) (twin.leave core tick)
  enter : ∀ record twin core tick, rel record twin →
    rel (record.enter core tick) (twin.enter core tick)

variable {rel : ThreadUsage → ThreadUsage → Prop} {garbage other : Contents} {kernel twin : Kernel}

theorem attach_related (h : Related rel kernel twin) (tid : Tid) (block : Option Address)
    (init : ThreadUsage → ThreadUsage)
    (hinit : ∀ address, rel (init (garbage address)) (init (other address))) :
    (attach kernel tid (filled garbage block) init).1 =
        (attach twin tid (filled other block) init).1 ∧
      Related rel (attach kernel tid (filled garbage block) init).2
        (attach twin tid (filled other block) init).2 := by
  simp only [attach, h.thread]
  split_ifs
  · cases block with
    | none => exact ⟨rfl, h⟩
    | some address => exact ⟨rfl, rfl, h.objects, h.heap.set address (hinit address)⟩
  · exact ⟨rfl, h⟩

theorem modify_alike (hmagic : ∀ record twin, rel record twin → record.magic = twin.magic)
    (h : Related rel kernel twin) (info : Address) {change : ThreadUsage → ThreadUsage}
    (hchange : ∀ record twin, rel record twin → rel (change record) (change twin)) :
    Alike (Related rel) (modify kernel info change) (modify twin info change) := by
  refine (h.heap.load info).bind fun record found hrel ↦ ?_
  rw [hmagic record found hrel]
  split_ifs
  · exact .ok ⟨h.thread, h.objects, h.heap.set info (hchange record found hrel)⟩
  · exact .ok h

/-- **Two hooks in lockstep.** -/
theorem scheduleHook_alike (hkept : Kept rel garbage other) (h : Related rel kernel twin)
    (core : Core) (tick : UInt64) (fromThread toThread : Tid) (fromBlock toBlock : Option Address) :
    Alike (Related rel)
      (scheduleHook kernel core tick fromThread toThread (filled garbage fromBlock)
        (filled garbage toBlock))
      (scheduleHook twin core tick fromThread toThread (filled other fromBlock)
        (filled other toBlock)) := by
  obtain ⟨hfrom, hattached⟩ := attach_related h fromThread fromBlock (initFrom · core tick)
    fun address ↦ hkept.initFrom address core tick
  simp only [scheduleHook, hfrom]
  refine (modify_alike hkept.magic hattached _ fun _ _ ↦ hkept.leave _ _ core tick).bind
    fun middle follower hmiddle ↦ ?_
  obtain ⟨hto, hlast⟩ := attach_related hmiddle toThread toBlock initTo hkept.initTo
  rw [hto]
  exact modify_alike hkept.magic hlast _ fun _ _ ↦ hkept.enter _ _ core tick

/-- Two interrupts in lockstep, for a relation that a settlement keeps. -/
theorem timerIrq_alike (hmagic : ∀ record twin, rel record twin → record.magic = twin.magic)
    (h : Related rel kernel twin) (tick reload : UInt64)
    (hsettle : ∀ record twin, rel record twin → rel (record.settle tick reload)
      (twin.settle tick reload)) :
    Alike (Related rel) (timerIrq kernel tick reload) (timerIrq twin tick reload) := by
  rw [timerIrq, timerIrq, h.objects]
  refine Alike.foldlM (fun state follower tid hstate ↦ ?_) _ h
  rw [settleThread, settleThread, hstate.thread]
  split_ifs
  · exact .ok hstate
  · exact modify_alike hmagic hstate _ hsettle

theorem Related.recordOf (h : Related rel kernel twin) (tid : Tid) :
    Option.Rel rel (recordOf kernel tid) (recordOf twin tid) := by
  rw [CpuUsage.recordOf, CpuUsage.recordOf, h.thread]
  split_ifs
  · exact .none
  · exact h.heap _

theorem mem_filled {block : Option Address} {found : Address × ThreadUsage} :
    found ∈ filled garbage block ↔ ∃ address ∈ block, (address, garbage address) = found :=
  Option.mem_map

/-- Related kernels let the allocator return the same blocks. -/
theorem Related.allocatable (h : Related rel kernel twin) {fromBlock toBlock : Option Address}
    (hblocks : Allocatable kernel (filled garbage fromBlock) (filled garbage toBlock)) :
    Allocatable twin (filled other fromBlock) (filled other toBlock) := by
  constructor
  · intro found hfound
    obtain ⟨address, haddress, rfl⟩ := mem_filled.mp hfound
    exact (h.heap.fresh_iff address).mp
      (hblocks.from_fresh _ (mem_filled.mpr ⟨address, haddress, rfl⟩))
  · intro found hfound
    obtain ⟨address, haddress, rfl⟩ := mem_filled.mp hfound
    exact (h.heap.fresh_iff address).mp
      (hblocks.to_fresh _ (mem_filled.mpr ⟨address, haddress, rfl⟩))
  · intro found hfound second hsecond
    obtain ⟨address, haddress, rfl⟩ := mem_filled.mp hfound
    obtain ⟨place, hplace, rfl⟩ := mem_filled.mp hsecond
    exact hblocks.ne (address, garbage address) (mem_filled.mpr ⟨address, haddress, rfl⟩)
      (place, garbage place) (mem_filled.mpr ⟨place, hplace, rfl⟩)

theorem Related.enabled (h : Related rel kernel twin) {event : Event}
    (henabled : enabled garbage kernel event) : Garbage.enabled other twin event := by
  cases event with
  | hook core tick fromThread toThread fromBlock toBlock =>
    exact ⟨henabled.1, h.allocatable henabled.2⟩
  | timer tick => trivial

/-! ## The runs of a history -/

variable {setup : Setup}

/-- The boot state has no records that could differ. -/
theorem boot_related (rel : ThreadUsage → ThreadUsage → Prop) (setup : Setup) :
    Related rel (boot setup).kernel (boot setup).kernel where
  thread := rfl
  objects := rfl
  heap _ := .none

theorem kept_magic (garbage other : Contents) :
    Kept (fun record twin ↦ record.magic = twin.magic) garbage other where
  magic _ _ h := h
  initFrom _ _ _ := rfl
  initTo _ := rfl
  leave _ _ _ _ h := h
  enter _ _ _ _ h := h

/-- **Transfer.** Whether a history runs does not depend on the contents of the blocks. -/
theorem run_transfer {events : List Event} {last : Kernel}
    (hrun : (uncleared setup garbage).Run (boot setup).kernel events last) (other : Contents) :
    ∃ twin, (uncleared setup other).Run (boot setup).kernel events twin := by
  have hkept := kept_magic garbage other
  have hstep (state follower : Kernel) (event : Event)
      (h : Related (fun record twin ↦ record.magic = twin.magic) state follower) :
      Alike (Related fun record twin ↦ record.magic = twin.magic)
        ((uncleared setup garbage).step state event)
        ((uncleared setup other).step follower event) := by
    cases event with
    | hook core tick fromThread toThread fromBlock toBlock =>
      exact scheduleHook_alike hkept h core tick fromThread toThread fromBlock toBlock
    | timer tick =>
      refine timerIrq_alike hkept.magic h tick setup.reload fun record found hmagic ↦ ?_
      rw [magic_settle, magic_settle]
      exact hmagic
  obtain ⟨twin, htwin, _⟩ := Run.lockstep (fun _ _ _ h henabled ↦ h.enabled henabled) hstep hrun
    (boot_related _ setup)
  exact ⟨twin, htwin⟩

/-- What both kinds of events keep. -/
theorem serve_installed (h : Installed kernel) (hnodup : kernel.objects.Nodup) {event : Event}
    (henabled : (uncleared setup garbage).enabled kernel event) {next : Kernel}
    (hstep : (uncleared setup garbage).step kernel event = .ok next) :
    Installed next ∧ next.objects.Nodup := by
  cases event with
  | hook core tick fromThread toThread fromBlock toBlock =>
    rcases scheduleHook_spec h core tick henabled.1 henabled.2 with hfault |
      ⟨after, _, _, hrun, _, _, hinstalled, hobjects, _⟩
    · cases hfault.symm.trans hstep
    · obtain rfl : after = next := Except.ok.inj (hrun.symm.trans hstep)
      exact ⟨hinstalled, hobjects ▸ hnodup⟩
  | timer tick =>
    obtain ⟨after, hrun, hinstalled, hobjects, _⟩ := timerIrq_spec h hnodup tick setup.reload
    obtain rfl : after = next := Except.ok.inj (hrun.symm.trans hstep)
    exact ⟨hinstalled, hobjects ▸ hnodup⟩

/-! ## Counts apart by one -/

/-- The stamps agree; the count and the cost of the second run are greater by one. -/
structure Shifted (record twin : ThreadUsage) : Prop where
  magic : record.magic = twin.magic
  enterTick : record.enterTick = twin.enterTick
  leaveTick : record.leaveTick = twin.leaveTick
  countTick : ∀ core, twin.countTick core = record.countTick core + 1
  costTick : ∀ core, twin.costTick core = record.costTick core + 1

def cleared : Contents := fun _ ↦ zero

/-- Blocks that hold a one in every count and every cost. -/
def ones : Contents := fun _ ↦ { zero with countTick := fun _ ↦ 1, costTick := fun _ ↦ 1 }

theorem Shifted.leave {record twin : ThreadUsage} (h : Shifted record twin) (core : Core)
    (tick : UInt64) : Shifted (record.leave core tick) (twin.leave core tick) where
  magic := h.magic
  enterTick := h.enterTick
  leaveTick := by simp only [ThreadUsage.leave, stampLeave, h.leaveTick]
  countTick i := by
    by_cases hone : i = core
    · subst hone
      rw [(leave_self ..).2.2, (leave_self ..).2.2, h.countTick, h.enterTick]
      ac_rfl
    · rw [(leave_of_ne hone).2.2, (leave_of_ne hone).2.2]
      exact h.countTick i
  costTick := h.costTick

theorem Shifted.enter {record twin : ThreadUsage} (h : Shifted record twin) (core : Core)
    (tick : UInt64) : Shifted (record.enter core tick) (twin.enter core tick) where
  magic := h.magic
  enterTick := by simp only [ThreadUsage.enter, h.enterTick]
  leaveTick := h.leaveTick
  countTick := h.countTick
  costTick := h.costTick

theorem kept_shifted : Kept Shifted cleared ones where
  magic _ _ h := h.magic
  initFrom _ _ _ := ⟨rfl, rfl, rfl, fun _ ↦ rfl, fun _ ↦ rfl⟩
  initTo _ := ⟨rfl, rfl, rfl, fun _ ↦ rfl, fun _ ↦ rfl⟩
  leave _ _ core tick h := h.leave core tick
  enter _ _ core tick h := h.enter core tick

/-- The interrupt reports the difference. -/
theorem Shifted.costTick_settle {record twin : ThreadUsage} (h : Shifted record twin)
    (tick reload : UInt64) (core : Core) :
    (twin.settle tick reload).costTick core = (record.settle tick reload).costTick core + 1 := by
  by_cases hrunning : record.leaveTick core < record.enterTick core
  · rw [(settle_of_lt hrunning tick reload).2.2.2,
      (settle_of_lt (h.enterTick ▸ h.leaveTick ▸ hrunning) tick reload).2.2.2, h.countTick,
      h.enterTick]
    ac_rfl
  · rw [(settle_of_not_lt hrunning tick reload).2.2.2,
      (settle_of_not_lt (h.enterTick ▸ h.leaveTick ▸ hrunning) tick reload).2.2.2]
    exact h.countTick core

/-- An interrupt tells two runs apart that have a record. -/
theorem timer_tells (h : Related Shifted kernel twin) (hinstalled : Installed kernel)
    (htwin : Installed twin) (hnodup : kernel.objects.Nodup) {tid : Tid}
    (hrecord : recordOf kernel tid ≠ none) {tick reload : UInt64} {last final : Kernel}
    (hlast : timerIrq kernel tick reload = .ok last)
    (hfinal : timerIrq twin tick reload = .ok final) :
    (recordOf last tid).map shown ≠ (recordOf final tid).map shown := by
  obtain ⟨after, hafter, _, _, htable⟩ := timerIrq_spec hinstalled hnodup tick reload
  obtain rfl : after = last := Except.ok.inj (hafter.symm.trans hlast)
  obtain ⟨follow, hfollow, _, _, htwinTable⟩ :=
    timerIrq_spec htwin (h.objects ▸ hnodup) tick reload
  obtain rfl : follow = final := Except.ok.inj (hfollow.symm.trans hfinal)
  rw [htable, htwinTable, ← h.objects]
  have hrel := h.recordOf tid
  generalize recordOf kernel tid = left at hrel hrecord
  generalize recordOf twin tid = right at hrel
  cases hrel with
  | none => exact absurd rfl hrecord
  | @some record found hshifted =>
    intro hsame
    have hcost : (if tid ∈ kernel.objects then record.settle tick reload else record).costTick 0 =
        (if tid ∈ kernel.objects then found.settle tick reload else found).costTick 0 := by
      split_ifs at hsame ⊢ with hmem
      · exact congrFun (congrArg Prod.fst (Option.some.inj hsame)) 0
      · exact congrFun (congrArg Prod.fst (Option.some.inj hsame)) 0
    split_ifs at hcost
    · rw [hshifted.costTick_settle] at hcost
      exact absurd hcost (by simp)
    · rw [hshifted.costTick] at hcost
      exact absurd hcost (by simp)

/-- A hook that returns leaves a record behind. -/
theorem hook_records (h : Installed kernel) {core : Core} {tick : UInt64}
    {fromThread toThread : Tid} {fromBlock toBlock : Option Address}
    (henabled : enabled garbage kernel (.hook core tick fromThread toThread fromBlock toBlock))
    {next : Kernel}
    (hstep : scheduleHook kernel core tick fromThread toThread (filled garbage fromBlock)
      (filled garbage toBlock) = .ok next) : recordOf next toThread ≠ none := by
  rcases scheduleHook_spec h core tick henabled.1 henabled.2 with hfault |
    ⟨after, _, _, hrun, _, _, _, _, htable⟩
  · cases hfault.symm.trans hstep
  · obtain rfl : after = next := Except.ok.inj (hrun.symm.trans hstep)
    rw [htable, Function.update_self]
    nofun

/-- Two hooks that return keep the counts apart by one. -/
theorem hook_related (h : Related Shifted kernel twin) {core : Core} {tick : UInt64}
    {fromThread toThread : Tid} {fromBlock toBlock : Option Address} {next follow : Kernel}
    (hnext : scheduleHook kernel core tick fromThread toThread (filled cleared fromBlock)
      (filled cleared toBlock) = .ok next)
    (hfollow : scheduleHook twin core tick fromThread toThread (filled ones fromBlock)
      (filled ones toBlock) = .ok follow) : Related Shifted next follow := by
  have halike :=
    scheduleHook_alike kept_shifted h core tick fromThread toThread fromBlock toBlock
  rw [hnext, hfollow] at halike
  exact halike.related

/-- Without records an interrupt does nothing. -/
theorem timerIrq_of_null (h : ∀ tid, (kernel.thread tid).userData = 0) {tick reload : UInt64}
    {next : Kernel} (hstep : timerIrq kernel tick reload = .ok next) : next = kernel := by
  have hwalk (tids : List Tid) : tids.foldlM (settleThread tick reload) kernel = .ok kernel := by
    induction tids with
    | nil => rfl
    | cons tid tids ih =>
      have hhead : settleThread tick reload kernel tid = .ok kernel := if_pos (h tid)
      rw [List.foldlM_cons, hhead, ok_bind, ih]
  exact Except.ok.inj (hstep.symm.trans (hwalk kernel.objects))

/-- Some interrupt of the history shows different things in a run with cleared blocks and a run
with ones. -/
def Differ (setup : Setup) (kernel twin : Kernel) (events : List Event) : Prop :=
  ∃ before tick after last final, events = before ++ .timer tick :: after ∧
    (uncleared setup cleared).Run kernel (before ++ [.timer tick]) last ∧
    (uncleared setup ones).Run twin (before ++ [.timer tick]) final ∧
    ∃ tid, (recordOf last tid).map shown ≠ (recordOf final tid).map shown

theorem Differ.cons {event : Event} {events : List Event} {next follow : Kernel}
    (henabled : enabled cleared kernel event) (htwin : enabled ones twin event)
    (hnext : serve cleared setup.reload kernel event = .ok next)
    (hfollow : serve ones setup.reload twin event = .ok follow)
    (h : Differ setup next follow events) : Differ setup kernel twin (event :: events) := by
  obtain ⟨before, tick, after, last, final, rfl, hlast, hfinal, htid⟩ := h
  exact ⟨event :: before, tick, after, last, final, rfl, .cons henabled hnext hlast,
    .cons htwin hfollow hfinal, htid⟩

/-- **The first interrupt after a hook.** Two runs that have a record, or get one before the last
interrupt, are told apart by one of their interrupts. -/
theorem differ_of_record {before : List Event} {tick : UInt64} {last final : Kernel}
    (hrelated : Related Shifted kernel twin) (hinstalled : Installed kernel)
    (htwin : Installed twin) (hnodup : kernel.objects.Nodup)
    (hrun : (uncleared setup cleared).Run kernel (before ++ [.timer tick]) last)
    (htwinRun : (uncleared setup ones).Run twin (before ++ [.timer tick]) final)
    (hrecords : (∃ tid, recordOf kernel tid ≠ none) ∨ ∃ event ∈ before, ¬ event.IsTimer) :
    Differ setup kernel twin (before ++ [.timer tick]) := by
  induction before generalizing kernel twin with
  | nil =>
    obtain ⟨tid, hrecord⟩ := hrecords.resolve_right (by simp)
    refine ⟨[], tick, [], last, final, rfl, hrun, htwinRun, tid, ?_⟩
    cases hrun with
    | cons _ hnext hrest => cases htwinRun with
      | cons _ hfollow htwinRest =>
        cases hrest
        cases htwinRest
        exact timer_tells hrelated hinstalled htwin hnodup hrecord hnext hfollow
  | cons event before ih =>
    cases hrun with
    | @cons _ next _ _ _ henabled hnext hrest => cases htwinRun with
      | @cons _ follow _ _ _ htwinEnabled hfollow htwinRest =>
        cases event with
        | timer time =>
          by_cases hrecord : ∃ tid, recordOf kernel tid ≠ none
          · obtain ⟨tid, hrecord⟩ := hrecord
            exact ⟨[], time, before ++ [.timer tick], next, follow, rfl,
              .cons trivial hnext (.nil next), .cons trivial hfollow (.nil follow), tid,
              timer_tells hrelated hinstalled htwin hnodup hrecord hnext hfollow⟩
          · -- without a record both interrupts leave their kernels as they are
            have hnull (tid : Tid) : (kernel.thread tid).userData = 0 :=
              (recordOf_eq_none hinstalled).mp (not_not.mp (not_exists.mp hrecord tid))
            obtain rfl : next = kernel := timerIrq_of_null hnull hnext
            obtain rfl : follow = twin := timerIrq_of_null (hrelated.thread ▸ hnull) hfollow
            obtain ⟨hook, hhook, hkind⟩ := hrecords.resolve_left hrecord
            have hlater : hook ∈ before :=
              (List.mem_cons.mp hhook).resolve_left fun hsame ↦ hkind ⟨time, hsame⟩
            exact (ih hrelated hinstalled htwin hnodup hrest htwinRest
              (.inr ⟨hook, hlater, hkind⟩)).cons trivial trivial hnext hfollow
        | hook core time fromThread toThread fromBlock toBlock =>
          obtain ⟨hnextInstalled, hnextNodup⟩ := serve_installed hinstalled hnodup henabled hnext
          obtain ⟨hfollowInstalled, _⟩ :=
            serve_installed htwin (hrelated.objects ▸ hnodup) htwinEnabled hfollow
          have hmiddle : Related Shifted next follow := hook_related hrelated hnext hfollow
          exact (ih hmiddle hnextInstalled hfollowInstalled hnextNodup hrest htwinRest
            (.inl ⟨toThread, hook_records hinstalled henabled hnext⟩)).cons
              henabled htwinEnabled hnext hfollow

/-- A history of interrupts alone leaves the kernel as it was started. -/
theorem run_timers {events : List Event} {last : Kernel}
    (hnull : ∀ tid, (kernel.thread tid).userData = 0)
    (htimers : ∀ event ∈ events, event.IsTimer)
    (hrun : (uncleared setup garbage).Run kernel events last) : last = kernel := by
  induction hrun with
  | nil kernel => rfl
  | @cons kernel next last event events _ hstep _ ih =>
    obtain ⟨tick, rfl⟩ := htimers event (List.mem_cons_self ..)
    obtain rfl : next = kernel := timerIrq_of_null hnull hstep
    exact ih hnull fun other hother ↦ htimers other (List.mem_cons_of_mem _ hother)

/-! ## Exactly when the reports are independent -/

/-- **Exact condition.** The reports do not depend on the contents of new blocks if and only if no
interrupt that the history reaches comes after a call of the hook. -/
theorem independent_iff (setup : Setup) (events : List Event) :
    Independent setup events ↔
      ∀ before tick after, events = before ++ .timer tick :: after →
        (∃ garbage last,
          (uncleared setup garbage).Run (boot setup).kernel (before ++ [.timer tick]) last) →
        ∀ event ∈ before, event.IsTimer := by
  constructor
  · intro hindependent before tick after hevents ⟨garbage, last, hrun⟩
    by_contra hhook
    obtain ⟨first, hfirst⟩ := run_transfer hrun cleared
    obtain ⟨second, hsecond⟩ := run_transfer hrun ones
    obtain ⟨early, time, late, state, follower, hsplit, hstate, hfollower, tid, hdiffer⟩ :=
      differ_of_record (boot_related Shifted setup) (boot_installed setup) (boot_installed setup)
        setup.nodup hfirst hsecond (.inr (by simpa using hhook))
    refine hdiffer (hindependent cleared ones early time (late ++ after) state follower ?_ hstate
      hfollower tid)
    calc events = (before ++ [.timer tick]) ++ after := by rw [hevents, List.append_assoc]; rfl
      _ = early ++ .timer time :: (late ++ after) := by rw [hsplit, List.append_assoc]; rfl
  · intro htimers garbage other before tick after last twin hevents hlast htwin tid
    have hall : ∀ event ∈ before ++ [.timer tick], event.IsTimer := by
      intro event hevent
      rcases List.mem_append.mp hevent with hbefore | hend
      · exact htimers before tick after hevents ⟨garbage, last, hlast⟩ event hbefore
      · exact ⟨tick, List.mem_singleton.mp hend⟩
    rw [run_timers (fun _ ↦ rfl) hall hlast, run_timers (fun _ ↦ rfl) hall htwin]

/-- Core 0 switches from thread 0 to thread 2 at tick 10, and the period ends at tick 100. -/
def firstPeriod : List Event := [.hook 0 10 0 2 (some 16) (some 32), .timer 100]

/-- Thread 2 has run 90 ticks; if its block held a one, the interrupt reports 91. -/
theorem old_contents_are_reported :
    ∃ last twin,
      (uncleared threeThreads cleared).Run (boot threeThreads).kernel firstPeriod last ∧
      (uncleared threeThreads ones).Run (boot threeThreads).kernel firstPeriod twin ∧
      ((recordOf last 2).map fun record ↦ record.costTick 0) = some 90 ∧
      ((recordOf twin 2).map fun record ↦ record.costTick 0) = some 91 ∧
      ¬ Independent threeThreads firstPeriod := by
  have henabled (garbage : Contents) : enabled garbage (boot threeThreads).kernel
      (.hook 0 10 0 2 (some 16) (some 32)) := by
    refine ⟨by decide, ⟨?_, ?_, ?_⟩⟩ <;> simp [boot, Heap.Fresh, Heap.empty, filled]
  have hfirst : (uncleared threeThreads cleared).Run (boot threeThreads).kernel firstPeriod _ :=
    .cons (henabled cleared) rfl (.cons trivial rfl (.nil _))
  have hsecond : (uncleared threeThreads ones).Run (boot threeThreads).kernel firstPeriod _ :=
    .cons (henabled ones) rfl (.cons trivial rfl (.nil _))
  refine ⟨_, _, hfirst, hsecond, by decide, by decide, fun hindependent ↦ ?_⟩
  have hsame := hindependent cleared ones [.hook 0 10 0 2 (some 16) (some 32)] 100 [] _ _ rfl
    hfirst hsecond 2
  exact absurd (congrArg (Option.map fun report ↦ report.1 0) hsame) (by decide)

end K210Firmware.CpuUsage.Garbage
