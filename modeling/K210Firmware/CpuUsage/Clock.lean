import K210Firmware.CpuUsage.Hooks
import K210Firmware.CpuUsage.Period

/-!
# The clock behind the stamps

`get_timer_value` puts the time together from `timer_tick`, which the interrupt handler counts up,
and the current value of a down-counter. Between the reload of the counter and the served
interrupt the two do not belong together, and the clock reads one period less. Evaluations outside
this window never run back, and with them no `get_count_time` underflows.
-/

namespace K210Firmware.CpuUsage

open Memory ThreadUsage Transition

/-- The software half and the hardware half of the clock. `pending` is the interrupt a reload
leaves behind, and `ticked` says that `timer_irq` has counted but not yet read the time. -/
structure Timer where
  timerTick : UInt64
  currentValue : UInt32
  pending : Bool
  ticked : Bool
  deriving DecidableEq, Repr

def Timer.getTimerValue (timer : Timer) (reload : UInt64) : UInt64 :=
  (timer.timerTick + 1) * reload - timer.currentValue.toUInt64

/-- The kernel, the thread on each core, the clock, and the value it returned last. -/
structure Clocked where
  kernel : Kernel
  running : Core → Tid
  timer : Timer
  last : UInt64

namespace Clock

/-- The channel counts down or reloads, the interrupt handler counts and later does its work, and a
core switches to another thread. -/
inductive Event
  | countDown
  | reload
  | irqTick
  | irqBody
  | switch (core : Core) (toThread : Tid) (fromBlock toBlock : Allocation)

/-- The state when `timer_set_enable` starts the channel. -/
def start (setup : Setup) : Clocked where
  kernel := (boot setup).kernel
  running := setup.running
  timer := ⟨0, setup.loadCount, false, false⟩
  last := 0

def serve (setup : Setup) (state : Clocked) : Event → Except Fault Clocked
  | .countDown =>
    return { state with
      timer := { state.timer with currentValue := state.timer.currentValue - 1 } }
  | .reload =>
    return { state with
      timer := { state.timer with currentValue := setup.loadCount, pending := true } }
  | .irqTick =>
    return { state with
      timer := { state.timer with
        timerTick := state.timer.timerTick + 1
        pending := false
        ticked := true } }
  | .irqBody => do
    let tick := state.timer.getTimerValue setup.reload
    let kernel ← timerIrq state.kernel tick setup.reload
    return { state with kernel, timer := { state.timer with ticked := false }, last := tick }
  | .switch core toThread fromBlock toBlock => do
    let tick := state.timer.getTimerValue setup.reload
    let kernel ← scheduleHook state.kernel core tick (state.running core) toThread fromBlock toBlock
    return { state with
      kernel
      running := Function.update state.running core toThread
      last := tick }

def enabled (state : Clocked) : Event → Prop
  | .countDown => state.timer.currentValue ≠ 0
  | .reload => state.timer.currentValue = 0
  | .irqTick => state.timer.pending = true ∧ state.timer.ticked = false
  | .irqBody => state.timer.ticked = true
  | .switch _ toThread fromBlock toBlock =>
      toThread ∈ state.kernel.objects ∧ (∀ core, state.running core ≠ toThread) ∧
        Allocatable state.kernel fromBlock toBlock

def clocked (setup : Setup) : System Clocked Event Fault where
  enabled := enabled
  step := serve setup

/-- `get_count_time` is evaluated on a record whose entry is not after its leave. -/
def NoUnderflow (record : ThreadUsage) (core : Core) : Prop :=
  record.enterTick core ≤ record.leaveTick core

/-- The evaluation of the clock returns no less than the one before, and neither does any
subtraction of stamps that follows from it underflow. -/
def Forward (setup : Setup) (state : Clocked) (event : Event) : Prop :=
  let tick := state.timer.getTimerValue setup.reload
  match event with
  | .countDown | .reload | .irqTick => True
  | .irqBody => state.last ≤ tick ∧
      ∀ tid record, recordOf state.kernel tid = some record → ∀ core,
        record.leaveTick core < record.enterTick core →
          NoUnderflow (record.stampLeave core tick) core
  | .switch core _ fromBlock _ => state.last ≤ tick ∧
      ∀ record, recordOrNew state.kernel (state.running core) fromBlock (initFrom · core tick) =
        some record → NoUnderflow (record.stampLeave core tick) core

/-- If the stamps say that the thread runs on the core, it entered by `tick`. -/
def EnteredBy (record : ThreadUsage) (core : Core) (tick : UInt64) : Prop :=
  record.leaveTick core < record.enterTick core → record.enterTick core ≤ tick

/-- If the hook uses the block for a record, what the allocator left there does not look like a
thread that entered another core in the future. -/
def NotAhead (kernel : Kernel) (tid : Tid) (block : Allocation) (core : Core) (tick : UInt64) :
    Prop :=
  (kernel.thread tid).userData = 0 → ∀ found ∈ block, ∀ i, i ≠ core → EnteredBy found.2 i tick

theorem notAhead_none (kernel : Kernel) (tid : Tid) (core : Core) (tick : UInt64) :
    NotAhead kernel tid none core tick := by
  simp [NotAhead]

/-- The clock is not evaluated between a reload and its interrupt, its 64 bits do not overflow, and
no new block pretends to a running thread. -/
def InOrder (setup : Setup) (state : Clocked) : Event → Prop
  | .countDown | .reload => True
  | .irqTick => (state.timer.timerTick.toNat + 2) * setup.reload.toNat < 2 ^ 64
  | .irqBody => state.timer.pending = false
  | .switch core toThread fromBlock toBlock => state.timer.pending = false ∧
      NotAhead state.kernel (state.running core) fromBlock core
        (state.timer.getTimerValue setup.reload) ∧
      NotAhead state.kernel toThread toBlock core (state.timer.getTimerValue setup.reload)

/-! ## The invariant -/

/-- The last value lies before the end of the period that `timer_tick` counts, and before the
current value unless an interrupt is pending. -/
structure Timely (setup : Setup) (timer : Timer) (last : ℕ) : Prop where
  value_le : timer.currentValue.toNat ≤ setup.reload.toNat
  fits : (timer.timerTick.toNat + 1) * setup.reload.toNat < 2 ^ 64
  period : last ≤ (timer.timerTick.toNat + 1) * setup.reload.toNat
  settled : timer.pending = false →
    last + timer.currentValue.toNat ≤ (timer.timerTick.toNat + 1) * setup.reload.toNat

/-- No record says that its thread entered a core after the last evaluation. -/
structure Stamped (state : Clocked) : Prop where
  open_le : ∀ tid record, recordOf state.kernel tid = some record → ∀ core,
    EnteredBy record core state.last
  running_le : ∀ core record, recordOf state.kernel (state.running core) = some record →
    record.enterTick core ≤ state.last

structure InStep (setup : Setup) (state : Clocked) : Prop where
  installed : Installed state.kernel
  objects : state.kernel.objects = setup.objects
  separate : Function.Injective state.running
  timely : Timely setup state.timer state.last.toNat
  stamped : Stamped state

variable {setup : Setup} {state : Clocked}

theorem start_inStep (setup : Setup) : InStep setup (start setup) where
  installed := boot_installed setup
  objects := rfl
  separate := setup.separate
  timely := by
    have hreload : setup.reload.toNat = setup.loadCount.toNat := UInt32.toNat_toUInt64 _
    have hbound := setup.reload_toNat.2
    have hone : (start setup).timer.timerTick.toNat + 1 = 1 := rfl
    have hvalue : (start setup).timer.currentValue.toNat = setup.reload.toNat := hreload.symm
    have hlast : (start setup).last.toNat = 0 := rfl
    constructor <;> rw [hone] at * <;> omega
  stamped := ⟨nofun, nofun⟩

/-- The value of the clock, when it fits. -/
theorem getTimerValue_toNat {timer : Timer} {last : ℕ} (h : Timely setup timer last) :
    (timer.getTimerValue setup.reload).toNat =
      (timer.timerTick.toNat + 1) * setup.reload.toNat - timer.currentValue.toNat := by
  obtain ⟨hpos, _⟩ := setup.reload_toNat
  have hfits := h.fits
  have hle := h.value_le
  have hgrow : timer.timerTick.toNat + 1 ≤
      (timer.timerTick.toNat + 1) * setup.reload.toNat := Nat.le_mul_of_pos_right _ hpos
  have hnext : (timer.timerTick + 1).toNat = timer.timerTick.toNat + 1 := by
    rw [UInt64.toNat_add]
    exact Nat.mod_eq_of_lt (show timer.timerTick.toNat + 1 < 2 ^ 64 by omega)
  have hproduct : ((timer.timerTick + 1) * setup.reload).toNat =
      (timer.timerTick.toNat + 1) * setup.reload.toNat := by
    rw [UInt64.toNat_mul, hnext]
    exact Nat.mod_eq_of_lt hfits
  have hone : setup.reload.toNat ≤ (timer.timerTick.toNat + 1) * setup.reload.toNat :=
    Nat.le_mul_of_pos_left _ (Nat.succ_pos _)
  rw [Timer.getTimerValue, UInt64.toNat_sub_of_le, hproduct, UInt32.toNat_toUInt64]
  rw [UInt64.le_iff_toNat_le, hproduct, UInt32.toNat_toUInt64]
  omega

/-- Outside the window between a reload and its interrupt the clock does not run back. -/
theorem Timely.last_le {last : UInt64} {timer : Timer} (h : Timely setup timer last.toNat)
    (hpending : timer.pending = false) : last ≤ timer.getTimerValue setup.reload := by
  have hsettled := h.settled hpending
  rw [UInt64.le_iff_toNat_le, getTimerValue_toNat h]
  omega

/-- The clock after an evaluation. -/
theorem Timely.evaluate {last : ℕ} {timer : Timer} (h : Timely setup timer last) :
    Timely setup timer (timer.getTimerValue setup.reload).toNat := by
  have hle := h.value_le
  have hone : setup.reload.toNat ≤ (timer.timerTick.toNat + 1) * setup.reload.toNat :=
    Nat.le_mul_of_pos_left _ (Nat.succ_pos _)
  rw [getTimerValue_toNat h]
  exact ⟨hle, h.fits, Nat.sub_le .., fun _ ↦ by omega⟩

theorem Timely.countDown {last : ℕ} {timer : Timer} (h : Timely setup timer last)
    (hvalue : timer.currentValue ≠ 0) :
    Timely setup { timer with currentValue := timer.currentValue - 1 } last := by
  have hpos : 0 < timer.currentValue.toNat := by
    rw [Nat.pos_iff_ne_zero]
    exact fun hzero ↦ hvalue (UInt32.toNat_inj.mp hzero)
  have hminus : (timer.currentValue - 1).toNat = timer.currentValue.toNat - 1 :=
    UInt32.toNat_sub_of_le _ _ (UInt32.le_iff_toNat_le.mpr hpos)
  have hle := h.value_le
  refine ⟨by simp only [hminus]; omega, h.fits, h.period, fun hpending ↦ ?_⟩
  have hsettled := h.settled hpending
  simp only [hminus]
  omega

theorem Timely.reload {last : ℕ} {timer : Timer} (h : Timely setup timer last) :
    Timely setup { timer with currentValue := setup.loadCount, pending := true } last :=
  ⟨(UInt32.toNat_toUInt64 setup.loadCount).ge, h.fits, h.period, nofun⟩

/-- The interrupt closes the window: the counter has gone once around. -/
theorem Timely.irqTick {last : ℕ} {timer : Timer} (h : Timely setup timer last)
    (hfits : (timer.timerTick.toNat + 2) * setup.reload.toNat < 2 ^ 64) :
    Timely setup { timer with
      timerTick := timer.timerTick + 1
      pending := false
      ticked := true } last := by
  obtain ⟨hpos, _⟩ := setup.reload_toNat
  have hgrow : timer.timerTick.toNat + 2 ≤
      (timer.timerTick.toNat + 2) * setup.reload.toNat := Nat.le_mul_of_pos_right _ hpos
  have hnext : (timer.timerTick + 1).toNat = timer.timerTick.toNat + 1 := by
    rw [UInt64.toNat_add]
    exact Nat.mod_eq_of_lt (show timer.timerTick.toNat + 1 < 2 ^ 64 by omega)
  have hsplit : (timer.timerTick.toNat + 2) * setup.reload.toNat =
      (timer.timerTick.toNat + 1) * setup.reload.toNat + setup.reload.toNat := by ring
  have hperiod := h.period
  have hle := h.value_le
  refine ⟨hle, ?_, ?_, fun _ ↦ ?_⟩
  · simpa only [hnext] using hfits
  · simp only [hnext, Nat.add_assoc, Nat.reduceAdd]
    omega
  · simp only [hnext, Nat.add_assoc, Nat.reduceAdd]
    omega

/-! ## The stamps -/

section Stamps

variable {record : ThreadUsage} {core : Core} {tick reload : UInt64}

theorem EnteredBy.mono {last : UInt64} (h : EnteredBy record core last) (hle : last ≤ tick) :
    EnteredBy record core tick :=
  fun hopen ↦ UInt64.le_trans (h hopen) hle

theorem EnteredBy.leave (h : ∀ i, i ≠ core → EnteredBy record i tick)
    (henter : record.enterTick core ≤ tick) (i : Core) :
    EnteredBy (record.leave core tick) i tick := by
  intro hopen
  by_cases hone : i = core
  · subst hone
    rwa [(leave_self record i tick).1]
  · rw [(leave_of_ne hone).1, (leave_of_ne hone).2.1] at hopen
    rw [(leave_of_ne hone).1]
    exact h i hone hopen

theorem EnteredBy.enter (h : ∀ i, i ≠ core → EnteredBy record i tick) (i : Core) :
    EnteredBy (record.enter core tick) i tick := by
  intro hopen
  by_cases hone : i = core
  · subst hone
    rw [(enter_self record i tick).1]
    exact UInt64.le_refl tick
  · rw [(enter_of_ne hone).1, (enter_of_ne hone).2.1] at hopen
    rw [(enter_of_ne hone).1]
    exact h i hone hopen

theorem enterTick_settle_le (h : record.enterTick core ≤ tick) :
    (record.settle tick reload).enterTick core ≤ tick := by
  by_cases hopen : record.leaveTick core < record.enterTick core
  · rw [(settle_of_lt hopen tick reload).1]
    exact UInt64.le_refl tick
  · rwa [(settle_of_not_lt hopen tick reload).1]

theorem EnteredBy.settle (h : EnteredBy record core tick) :
    EnteredBy (record.settle tick reload) core tick := by
  intro hopen
  by_cases hbefore : record.leaveTick core < record.enterTick core
  · exact enterTick_settle_le (h hbefore)
  · obtain ⟨henter, hleave, _⟩ := settle_of_not_lt hbefore tick reload
    rw [henter, hleave] at hopen
    exact absurd hopen hbefore

/-- The stamps of a thread that is switched out, before the update. -/
theorem Stamped.from (h : Stamped state) (hinstalled : Installed state.kernel)
    (hlast : state.last ≤ tick) {block : Allocation}
    (hblock : NotAhead state.kernel (state.running core) block core tick)
    (hrecord : recordOrNew state.kernel (state.running core) block (initFrom · core tick) =
      some record) :
    record.enterTick core ≤ tick ∧ ∀ i, i ≠ core → EnteredBy record i tick := by
  cases hown : recordOf state.kernel (state.running core) with
  | some own =>
    obtain rfl : own = record := by simpa [recordOrNew, hown] using hrecord
    exact ⟨UInt64.le_trans (h.running_le core own hown) hlast,
      fun i _ ↦ (h.open_le _ own hown i).mono hlast⟩
  | none =>
    obtain ⟨found, hfound, rfl⟩ : ∃ found ∈ block, initFrom found.2 core tick = record := by
      simpa [recordOrNew, hown] using hrecord
    have hself : (initFrom found.2 core tick).enterTick core = tick := by simp [initFrom]
    have hother (i : Core) (hne : i ≠ core) :
        (initFrom found.2 core tick).enterTick i = found.2.enterTick i := by simp [initFrom, hne]
    refine ⟨UInt64.le_of_eq hself, fun i hne hopen ↦ ?_⟩
    rw [hother i hne] at hopen ⊢
    exact hblock ((recordOf_eq_none hinstalled).mp hown) found hfound i hne hopen

/-- The stamps of a thread that is switched in, before the update. -/
theorem Stamped.to (h : Stamped state) (hinstalled : Installed state.kernel)
    (hlast : state.last ≤ tick) {toThread : Tid} {block : Allocation}
    (hblock : NotAhead state.kernel toThread block core tick)
    (hrecord : recordOrNew state.kernel toThread block initTo = some record) :
    ∀ i, i ≠ core → EnteredBy record i tick := by
  cases hown : recordOf state.kernel toThread with
  | some own =>
    obtain rfl : own = record := by simpa [recordOrNew, hown] using hrecord
    exact fun i _ ↦ (h.open_le _ own hown i).mono hlast
  | none =>
    obtain ⟨found, hfound, rfl⟩ : ∃ found ∈ block, initTo found.2 = record := by
      simpa [recordOrNew, hown] using hrecord
    exact hblock ((recordOf_eq_none hinstalled).mp hown) found hfound

end Stamps

/-! ## One step -/

/-- The interrupt handler reads the time and settles the records. -/
theorem InStep.irqBody (h : InStep setup state) (hpending : state.timer.pending = false) :
    ∃ kernel, timerIrq state.kernel (state.timer.getTimerValue setup.reload) setup.reload =
        .ok kernel ∧
      InStep setup { state with
        kernel
        timer := { state.timer with ticked := false }
        last := state.timer.getTimerValue setup.reload } := by
  have hlast := h.timely.last_le hpending
  obtain ⟨kernel, hrun, hinstalled, hobjects, htable⟩ := timerIrq_spec h.installed
    (h.objects ▸ setup.nodup) (state.timer.getTimerValue setup.reload) setup.reload
  refine ⟨kernel, hrun, hinstalled, hobjects.trans h.objects, h.separate, ?_, ?_, ?_⟩
  · exact ⟨h.timely.value_le, h.timely.fits, h.timely.evaluate.period, h.timely.evaluate.settled⟩
  · intro tid record hrecord core
    have hrecord : recordOf kernel tid = some record := hrecord
    rw [htable] at hrecord
    split_ifs at hrecord with hlisted
    · obtain ⟨own, hown, rfl⟩ := Option.map_eq_some_iff.mp hrecord
      exact ((h.stamped.open_le tid own hown core).mono hlast).settle
    · exact (h.stamped.open_le tid record hrecord core).mono hlast
  · intro core record hrecord
    have hrecord : recordOf kernel (state.running core) = some record := hrecord
    rw [htable] at hrecord
    split_ifs at hrecord with hlisted
    · obtain ⟨own, hown, rfl⟩ := Option.map_eq_some_iff.mp hrecord
      exact enterTick_settle_le (UInt64.le_trans (h.stamped.running_le core own hown) hlast)
    · exact UInt64.le_trans (h.stamped.running_le core record hrecord) hlast

/-- A switch after which no record is ahead of the clock. -/
theorem Stamped.switch (h : Stamped state) (hinstalled : Installed state.kernel) {core : Core}
    {tick : UInt64} (hlast : state.last ≤ tick) (hseparate : Function.Injective state.running)
    {toThread : Tid}
    (hidle : ∀ core, state.running core ≠ toThread) {fromBlock toBlock : Allocation}
    (hfromBlock : NotAhead state.kernel (state.running core) fromBlock core tick)
    (htoBlock : NotAhead state.kernel toThread toBlock core tick)
    {kernel : Kernel} {fromRecord toRecord : ThreadUsage}
    (hfrom : recordOrNew state.kernel (state.running core) fromBlock (initFrom · core tick) =
      some fromRecord)
    (hto : recordOrNew state.kernel toThread toBlock initTo = some toRecord)
    (htable : recordOf kernel = Function.update (Function.update (recordOf state.kernel)
      (state.running core) (some (fromRecord.leave core tick)))
      toThread (some (toRecord.enter core tick))) :
    Stamped { state with
      kernel
      running := Function.update state.running core toThread
      last := tick } := by
  have hne : state.running core ≠ toThread := hidle core
  obtain ⟨henter, hbefore⟩ := h.from hinstalled hlast hfromBlock hfrom
  constructor
  · intro tid record hrecord i
    have hrecord : recordOf kernel tid = some record := hrecord
    rw [htable] at hrecord
    rcases switched_cases hne hrecord with ⟨_, rfl⟩ | ⟨_, rfl⟩ | ⟨_, _, hown⟩
    · exact EnteredBy.enter (h.to hinstalled hlast htoBlock hto) i
    · exact EnteredBy.leave hbefore henter i
    · exact (h.open_le tid record hown i).mono hlast
  · intro i record hrecord
    have hrecord : recordOf kernel (Function.update state.running core toThread i) =
        some record := hrecord
    by_cases hone : i = core
    · subst hone
      rw [Function.update_self, htable, Function.update_self, Option.some.injEq] at hrecord
      rw [← hrecord, (enter_self toRecord i tick).1]
      exact UInt64.le_refl tick
    · rw [Function.update_of_ne hone, htable] at hrecord
      rcases switched_cases hne hrecord with ⟨hto, _⟩ | ⟨hfrom, _⟩ | ⟨_, _, hown⟩
      · exact absurd hto (hidle i)
      · exact absurd (hseparate hfrom) hone
      · exact UInt64.le_trans (h.running_le i record hown) hlast

/-- **One step.** Served in order, an event keeps everything in step with the clock. -/
theorem serve_inStep (h : InStep setup state) {event : Event} (henabled : enabled state event)
    (horder : InOrder setup state event) {next : Clocked}
    (hstep : serve setup state event = .ok next) : InStep setup next := by
  cases event with
  | countDown =>
    cases hstep
    exact ⟨h.installed, h.objects, h.separate, h.timely.countDown henabled,
      h.stamped.open_le, h.stamped.running_le⟩
  | reload =>
    cases hstep
    exact ⟨h.installed, h.objects, h.separate, h.timely.reload,
      h.stamped.open_le, h.stamped.running_le⟩
  | irqTick =>
    cases hstep
    exact ⟨h.installed, h.objects, h.separate, h.timely.irqTick horder,
      h.stamped.open_le, h.stamped.running_le⟩
  | irqBody =>
    obtain ⟨kernel, hrun, hnext⟩ := h.irqBody horder
    simp only [serve, hrun, ok_bind] at hstep
    cases hstep
    exact hnext
  | switch core toThread fromBlock toBlock =>
    obtain ⟨_, hidle, hblocks⟩ := henabled
    obtain ⟨hpending, hfromBlock, htoBlock⟩ := horder
    have hlast := h.timely.last_le hpending
    rcases scheduleHook_spec h.installed core (state.timer.getTimerValue setup.reload)
      (hidle core) hblocks with hfault |
      ⟨kernel, fromRecord, toRecord, hrun, hfrom, hto, hinstalled, hobjects, htable⟩
    · simp only [serve, hfault] at hstep
      cases hstep
    · simp only [serve, hrun, ok_bind] at hstep
      cases hstep
      exact ⟨hinstalled, hobjects.trans h.objects, Ledger.injective_update h.separate hidle core,
        h.timely.evaluate,
        h.stamped.switch h.installed hlast h.separate hidle hfromBlock htoBlock hfrom hto htable⟩

/-- Served in order, an evaluation goes forward. -/
theorem forward_of_inOrder (h : InStep setup state) {event : Event}
    (horder : InOrder setup state event) : Forward setup state event := by
  cases event with
  | countDown => trivial
  | reload => trivial
  | irqTick => trivial
  | irqBody =>
    have hlast := h.timely.last_le horder
    refine ⟨hlast, fun tid record hrecord core hopen ↦ ?_⟩
    have hentered : record.enterTick core ≤ state.timer.getTimerValue setup.reload :=
      UInt64.le_trans (h.stamped.open_le tid record hrecord core hopen) hlast
    simpa [NoUnderflow, stampLeave] using hentered
  | switch core toThread fromBlock toBlock =>
    obtain ⟨hpending, hfromBlock, _⟩ := horder
    have hlast := h.timely.last_le hpending
    refine ⟨hlast, fun record hrecord ↦ ?_⟩
    have hentered := (h.stamped.from h.installed hlast hfromBlock hrecord).1
    simpa [NoUnderflow, stampLeave] using hentered

/-- **The clock goes forward.** In every history that evaluates the clock only in order, no
evaluation returns less than the one before, and no difference of stamps underflows. -/
theorem forward_always (setup : Setup) (events : List Event)
    (horder : (clocked setup).Guarded (InOrder setup) (start setup) events) :
    (clocked setup).Always (fun state event _ ↦ Forward setup state event) (start setup) events :=
  System.Always.of_invariant
    (fun state event (h : InStep setup state) _ (horder : InOrder setup state event) ↦
      forward_of_inOrder h horder)
    (fun _ _ _ h henabled horder hstep ↦ serve_inStep h henabled horder hstep)
    (start_inStep setup) horder

/-- `threeThreads` with a period of one tick. -/
def oneTick : Setup := { threeThreads with loadCount := 1, loadCount_pos := by decide }

/-- A switch, one full period of the clock, and a switch back after the interrupt. -/
def wholePeriod : List Event :=
  [.switch 0 2 (some (16, zero)) (some (32, zero)), .countDown, .reload, .irqTick, .irqBody,
    .switch 0 0 none none]

theorem whole_period_goes_forward :
    (∃ last, (clocked oneTick).Run (start oneTick) wholePeriod last) ∧
      (clocked oneTick).Always (fun state event _ ↦ Forward oneTick state event) (start oneTick)
        wholePeriod := by
  constructor
  · have hfirst : (clocked oneTick).enabled (start oneTick)
        (.switch 0 2 (some (16, zero)) (some (32, zero))) := by
      refine ⟨by decide, by decide, ?_, ?_, ?_⟩ <;> simp [start, boot, Heap.Fresh, Heap.empty]
    have hcountDown : (1 : UInt32) ≠ 0 := by decide
    exact ⟨_, .cons hfirst rfl (.cons hcountDown rfl (.cons (Eq.refl (0 : UInt32)) rfl
      (.cons ⟨rfl, rfl⟩ rfl (.cons (Eq.refl true) rfl
        (.cons ⟨by decide, by decide, allocatable_none _⟩ rfl (.nil _))))))⟩
  · have hcleared (kernel : Kernel) (tid : Tid) (address : Address) (core : Core) (tick : UInt64) :
        NotAhead kernel tid (some (address, zero)) core tick := by
      simp [NotAhead, EnteredBy, zero]
    have hfits : (0 + 2) * oneTick.reload.toNat < 2 ^ 64 := by decide
    exact forward_always oneTick wholePeriod
      (System.Always.cons rfl ⟨rfl, hcleared _ _ _ _ _, hcleared _ _ _ _ _⟩
        (System.Always.cons rfl trivial (System.Always.cons rfl trivial
          (System.Always.cons rfl hfits (System.Always.cons rfl (Eq.refl false)
            (System.Always.cons rfl ⟨rfl, notAhead_none _ _ _ _, notAhead_none _ _ _ _⟩
              trivial))))))

/-! ## A switch in the window -/

/-- The counter runs down while nothing else happens. -/
theorem countDown_run (setup : Setup) (n : ℕ) (state : Clocked)
    (hvalue : n ≤ state.timer.currentValue.toNat) :
    (clocked setup).Run state (List.replicate n .countDown)
      { state with timer := { state.timer with
          currentValue := state.timer.currentValue - UInt32.ofNat n } } := by
  induction n generalizing state with
  | zero =>
    have hsame : state.timer.currentValue - UInt32.ofNat 0 = state.timer.currentValue := by simp
    rw [hsame]
    exact .nil state
  | succ n ih =>
    have hone : (1 : UInt32) ≤ state.timer.currentValue :=
      UInt32.le_iff_toNat_le.mpr ((Nat.succ_pos n).trans_le hvalue)
    have hminus : (state.timer.currentValue - 1).toNat = state.timer.currentValue.toNat - 1 :=
      UInt32.toNat_sub_of_le _ _ hone
    have hne : state.timer.currentValue ≠ 0 := by
      intro hzero
      rw [hzero] at hvalue
      exact Nat.not_succ_le_zero n hvalue
    have hrest := ih { state with timer := { state.timer with
      currentValue := state.timer.currentValue - 1 } } (by simp only [hminus]; omega)
    have hsplit : state.timer.currentValue - UInt32.ofNat (n + 1) =
        state.timer.currentValue - 1 - UInt32.ofNat n := by
      rw [UInt32.ofNat_add]
      grind
    rw [hsplit]
    exact .cons hne rfl hrest

/-- Core 0 switches to thread 2 when the counter is at zero, and the counter is reloaded. -/
def intoWindow : List Event :=
  List.replicate 100 .countDown ++ [.switch 0 2 (some (16, zero)) (some (32, zero)), .reload]

/-- A switch back to thread 0 before the interrupt is served reads an earlier time. -/
theorem switch_in_window_runs_back :
    ¬ (clocked threeThreads).Always (fun state event _ ↦ Forward threeThreads state event)
      (start threeThreads) (intoWindow ++ [.switch 0 0 none none]) := by
  intro h
  have hdown : (clocked threeThreads).Run (start threeThreads) (List.replicate 100 .countDown)
      { start threeThreads with timer := ⟨0, 0, false, false⟩ } :=
    countDown_run threeThreads 100 (start threeThreads) le_rfl
  have hfirst : (clocked threeThreads).enabled
      { start threeThreads with timer := ⟨0, 0, false, false⟩ }
      (.switch 0 2 (some (16, zero)) (some (32, zero))) := by
    refine ⟨by decide, by decide, ?_, ?_, ?_⟩ <;> simp [start, boot, Heap.Fresh, Heap.empty]
  have hreload {state : Clocked} (hvalue : state.timer.currentValue = 0) :
      (clocked threeThreads).enabled state .reload := hvalue
  have hsecond := System.always_iff_forall_run.mp h intoWindow (.switch 0 0 none none) [] _ rfl
    (hdown.append (.cons hfirst rfl (.cons (hreload rfl) rfl (.nil _))))
    ⟨by decide, by decide, allocatable_none _⟩
  exact absurd hsecond.1 (by decide)

end Clock

end K210Firmware.CpuUsage
