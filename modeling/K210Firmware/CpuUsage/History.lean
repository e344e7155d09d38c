import K210Firmware.CpuUsage.Account
import K210Firmware.CpuUsage.Hooks
import K210Firmware.Library.Transition

/-!
# Histories of switches and interrupts

Two cores switch between the threads of the object list, and the timer interrupt ends one period
after the other. Beside the kernel the state keeps books: what each thread has really run on each
core, what it had run when the period began and when its record was created, and what the
interrupts have reported so far. Every history balances (`conserved_always`).
-/

namespace K210Firmware.CpuUsage

open Memory ThreadUsage Transition

/-- The threads at start-up, the one running on each core, and the period in ticks that
`timer_set_interval` leaves in `load_count`. -/
structure Setup where
  objects : List Tid
  nodup : objects.Nodup
  running : Core → Tid
  separate : Function.Injective running
  listed : ∀ core, running core ∈ objects
  loadCount : UInt32
  loadCount_pos : 0 < loadCount.toNat

/-- `timer_reload_num`. -/
def Setup.reload (setup : Setup) : UInt64 := setup.loadCount.toUInt64

/-- The kernel, the time each thread has run, and three marks in that time: at the start of the
period, at the creation of the record, and the total of all reported costs. -/
structure Books where
  kernel : Kernel
  ledger : Ledger Core Tid
  periodStart : Tid → Core → ℕ
  born : Tid → Core → ℕ
  reported : Tid → Core → ℕ

/-- A switch of a core to another thread, with the results of the two allocations the hook may
make, and a timer interrupt; both with the time they read. -/
inductive Event
  | switch (core : Core) (tick : UInt64) (toThread : Tid) (fromBlock toBlock : Allocation)
  | timer (tick : UInt64)

def Event.tick : Event → UInt64
  | switch _ tick _ _ _ => tick
  | timer tick => tick

/-- No hook has run: no thread has user data or a cleanup function. -/
def boot (setup : Setup) : Books where
  kernel := ⟨fun _ ↦ ⟨0, .null⟩, Heap.empty, setup.objects⟩
  ledger := Ledger.start setup.running
  periodStart _ _ := 0
  born _ _ := 0
  reported _ _ := 0

/-- Time passes; a thread without a record goes on running unrecorded. -/
def Books.advance (books : Books) (tick : UInt64) : Books :=
  { books with
    ledger := books.ledger.advance tick.toNat
    born := fun tid core ↦
      if (recordOf books.kernel tid).isSome then books.born tid core
      else books.ledger.ranUpTo tick.toNat tid core }

/-- The cost that the record of a thread shows. -/
def costOf (kernel : Kernel) (tid : Tid) (core : Core) : ℕ :=
  (recordOf kernel tid).elim 0 fun record ↦ (record.costTick core).toNat

def serve (reload : UInt64) (books : Books) : Event → Except Fault Books
  | .switch core tick toThread fromBlock toBlock => do
    let kernel ← scheduleHook books.kernel core tick (books.ledger.running core) toThread
      fromBlock toBlock
    let books := books.advance tick
    return { books with kernel, ledger := books.ledger.dispatch core toThread }
  | .timer tick => do
    let kernel ← timerIrq books.kernel tick reload
    let books := books.advance tick
    return { books with
      kernel
      periodStart := books.ledger.ran
      reported := fun tid core ↦ books.reported tid core + costOf kernel tid core }

/-- Blocks start cleared. -/
def Cleared (block : Allocation) : Prop := ∀ found ∈ block, found.2 = zero

theorem cleared_none : Cleared none := fun _ hfound ↦ by cases hfound

/-- Time does not run back, a core switches to a listed thread that runs nowhere, and
allocations return fresh cleared blocks. -/
def enabled (books : Books) (event : Event) : Prop :=
  books.ledger.now ≤ event.tick.toNat ∧
    match event with
    | .switch _ _ toThread fromBlock toBlock =>
        toThread ∈ books.kernel.objects ∧ (∀ core, books.ledger.running core ≠ toThread) ∧
          Allocatable books.kernel fromBlock toBlock ∧ Cleared fromBlock ∧ Cleared toBlock
    | .timer _ => True

def usage (setup : Setup) : System Books Event Fault where
  enabled := enabled
  step := serve setup.reload

/-! ## The invariant -/

/-- Every record is an account of its thread, and a thread without a record has nothing reported. -/
structure Balanced (setup : Setup) (books : Books) : Prop where
  installed : Installed books.kernel
  objects : books.kernel.objects = setup.objects
  exclusive : books.ledger.Exclusive
  listed : ∀ core, books.ledger.running core ∈ setup.objects
  recorded : ∀ tid, recordOf books.kernel tid ≠ none → tid ∈ setup.objects
  unreported : ∀ tid core, recordOf books.kernel tid = none → books.reported tid core = 0
  unborn : ∀ tid core, recordOf books.kernel tid = none →
    books.born tid core = books.ledger.ran tid core
  account : ∀ tid record, recordOf books.kernel tid = some record → ∀ core,
    Account record core (books.ledger.running core = tid) books.ledger.now
      (books.reported tid core) (books.born tid core) (books.ledger.ran tid core)

variable {setup : Setup} {books : Books}

theorem boot_installed (setup : Setup) : Installed (boot setup).kernel where
  cleanup _ := by simp [boot]
  live _ h := absurd rfl h
  separate _ _ _ h := absurd rfl h

theorem boot_balanced (setup : Setup) : Balanced setup (boot setup) where
  installed := boot_installed setup
  objects := rfl
  exclusive := setup.separate
  listed := setup.listed
  recorded _ h := absurd rfl h
  unreported _ _ _ := rfl
  unborn _ _ _ := rfl
  account _ _ h := by cases h

/-- Waiting keeps the balance. -/
theorem Balanced.advance (h : Balanced setup books) {tick : UInt64}
    (htick : books.ledger.now ≤ tick.toNat) : Balanced setup (books.advance tick) := by
  refine ⟨h.installed, h.objects, h.exclusive, h.listed, h.recorded, h.unreported, ?_, ?_⟩
  · intro tid core hnone
    have hnone : recordOf books.kernel tid = none := hnone
    simp only [Books.advance, hnone]
    rfl
  · intro tid record hrecord core
    have hrecord : recordOf books.kernel tid = some record := hrecord
    have haccount := (h.account tid record hrecord core).advance htick
    simp only [Books.advance, hrecord, Ledger.advance, Option.isSome_some, if_true]
    rwa [Nat.add_sub_cancel' htick]

theorem advance_now {tick : UInt64} (htick : books.ledger.now ≤ tick.toNat) :
    (books.advance tick).ledger.now = tick.toNat :=
  Ledger.advance_now htick

/-! ## The switch -/

/-- The account of a thread that is switched out, with its own record or a cleared new one. -/
theorem Balanced.account_from (h : Balanced setup books) {core : Core} {tick : UInt64}
    (hnow : books.ledger.now = tick.toNat) {block : Allocation} (hblock : Cleared block)
    {record : ThreadUsage}
    (hrecord : recordOrNew books.kernel (books.ledger.running core) block (initFrom · core tick) =
      some record) (i : Core) :
    Account record i (i = core) tick.toNat (books.reported (books.ledger.running core) i)
      (books.born (books.ledger.running core) i)
      (books.ledger.ran (books.ledger.running core) i) := by
  have hrunning : books.ledger.running i = books.ledger.running core ↔ i = core :=
    h.exclusive.eq_iff
  rcases hown : recordOf books.kernel (books.ledger.running core) with _ | own
  · rw [h.unreported _ i hown, h.unborn _ i hown]
    obtain ⟨found, hfound, rfl⟩ : ∃ found ∈ block, initFrom found.2 core tick = record := by
      simpa [recordOrNew, hown] using hrecord
    rw [hblock found hfound]
    by_cases hone : i = core
    · subst hone
      exact (Account.initFrom_self i tick _).of_iff (by simp)
    · exact (Account.initFrom_of_ne hone _ _).of_iff (by simp [hone])
  · obtain rfl : own = record := by simpa [recordOrNew, hown] using hrecord
    rw [← hnow]
    exact (h.account _ own hown i).of_iff hrunning

/-- The account of a thread that is switched in. -/
theorem Balanced.account_to (h : Balanced setup books) {tick : UInt64} {toThread : Tid}
    (hnow : books.ledger.now = tick.toNat) (hidle : ∀ core, books.ledger.running core ≠ toThread)
    {block : Allocation} (hblock : Cleared block) {record : ThreadUsage}
    (hrecord : recordOrNew books.kernel toThread block initTo = some record) (i : Core) :
    Account record i False tick.toNat (books.reported toThread i) (books.born toThread i)
      (books.ledger.ran toThread i) := by
  rcases hown : recordOf books.kernel toThread with _ | own
  · rw [h.unreported _ i hown, h.unborn _ i hown]
    obtain ⟨found, hfound, rfl⟩ : ∃ found ∈ block, initTo found.2 = record := by
      simpa [recordOrNew, hown] using hrecord
    rw [hblock found hfound]
    exact Account.initTo i _ _
  · obtain rfl : own = record := by simpa [recordOrNew, hown] using hrecord
    rw [← hnow]
    exact (h.account _ own hown i).of_iff (by simp [hidle i])

/-- The kernel after a hook that found memory where it needed it. -/
theorem Balanced.switch (h : Balanced setup books) {core : Core} {tick : UInt64} {toThread : Tid}
    (hnow : books.ledger.now = tick.toNat) (hlisted : toThread ∈ setup.objects)
    (hidle : ∀ core, books.ledger.running core ≠ toThread) {fromBlock toBlock : Allocation}
    (hfromBlock : Cleared fromBlock) (htoBlock : Cleared toBlock)
    {kernel : Kernel} {fromRecord toRecord : ThreadUsage}
    (hfrom : recordOrNew books.kernel (books.ledger.running core) fromBlock
      (initFrom · core tick) = some fromRecord)
    (hto : recordOrNew books.kernel toThread toBlock initTo = some toRecord)
    (hinstalled : Installed kernel) (hobjects : kernel.objects = books.kernel.objects)
    (htable : recordOf kernel = Function.update (Function.update (recordOf books.kernel)
      (books.ledger.running core) (some (fromRecord.leave core tick)))
      toThread (some (toRecord.enter core tick))) :
    Balanced setup { books with kernel, ledger := books.ledger.dispatch core toThread } := by
  have hne : books.ledger.running core ≠ toThread := hidle core
  have hold (tid : Tid) (hnone : recordOf kernel tid = none) :
      recordOf books.kernel tid = none :=
    switched_eq_none (htable ▸ hnone)
  refine ⟨hinstalled, hobjects.trans h.objects, h.exclusive.dispatch hidle core, fun i ↦ ?_,
    fun tid hsome ↦ ?_, fun tid i hnone ↦ h.unreported tid i (hold tid hnone),
    fun tid i hnone ↦ h.unborn tid i (hold tid hnone), fun tid record hrecord i ↦ ?_⟩
  · by_cases hone : i = core
    · subst hone
      simpa [Ledger.dispatch] using hlisted
    · simpa [Ledger.dispatch, hone] using h.listed i
  · obtain ⟨record, hrecord⟩ := Option.ne_none_iff_exists'.mp hsome
    have hrecord : recordOf kernel tid = some record := hrecord
    rw [htable] at hrecord
    rcases switched_cases hne hrecord with ⟨rfl, _⟩ | ⟨rfl, _⟩ | ⟨_, _, hown⟩
    · exact hlisted
    · exact h.listed core
    · apply h.recorded tid
      rw [hown]
      nofun
  · have hrecord : recordOf kernel tid = some record := hrecord
    have hran : books.ledger.ran tid i ≤ tick.toNat := hnow ▸ books.ledger.bounded tid i
    change Account record i (Function.update books.ledger.running core toThread i = tid)
      books.ledger.now (books.reported tid i) (books.born tid i) (books.ledger.ran tid i)
    rw [hnow]
    rw [htable] at hrecord
    rcases switched_cases hne hrecord with ⟨rfl, rfl⟩ | ⟨rfl, rfl⟩ | ⟨htone, hfromne, hown⟩
    · have haccount := h.account_to hnow hidle htoBlock hto i
      by_cases hone : i = core
      · subst hone
        exact haccount.enter.of_iff (by simp)
      · exact (haccount.enter_of_ne hone).of_iff (by simp [hone, hidle i])
    · have haccount := h.account_from hnow hfromBlock hfrom i
      by_cases hone : i = core
      · subst hone
        exact ((haccount.of_iff (by simp)).leave hran).of_iff (by simp [hne.symm])
      · have hother : books.ledger.running i ≠ books.ledger.running core :=
          h.exclusive.ne hone
        exact (haccount.leave_of_ne hone).of_iff (by simp [hone, hother])
    · have haccount := hnow ▸ h.account tid record hown i
      by_cases hone : i = core
      · subst hone
        exact haccount.of_iff (by simp [Ne.symm hfromne, Ne.symm htone])
      · exact haccount.of_iff (by simp [hone])

/-! ## The interrupt -/

/-- Every record is found in the object list, so the interrupt settles all of them. -/
theorem Balanced.timerIrq_settles (h : Balanced setup books) (tick reload : UInt64) :
    ∃ kernel, timerIrq books.kernel tick reload = .ok kernel ∧ Installed kernel ∧
      kernel.objects = books.kernel.objects ∧
      ∀ tid, recordOf kernel tid =
        (recordOf books.kernel tid).map (ThreadUsage.settle · tick reload) := by
  obtain ⟨kernel, hrun, hinstalled, hobjects, htable⟩ :=
    timerIrq_spec h.installed (h.objects ▸ setup.nodup) tick reload
  refine ⟨kernel, hrun, hinstalled, hobjects, fun tid ↦ ?_⟩
  rw [htable]
  split_ifs with hmem
  · rfl
  · have hnone : recordOf books.kernel tid = none := by
      by_contra hsome
      exact hmem (h.objects ▸ h.recorded tid hsome)
    rw [hnone]
    rfl

/-- The interrupt reports exactly what it takes out of the accounts. -/
theorem Balanced.timer (h : Balanced setup books) {tick reload : UInt64}
    (hnow : books.ledger.now = tick.toNat) {kernel : Kernel} (hinstalled : Installed kernel)
    (hobjects : kernel.objects = books.kernel.objects)
    (hsettled : ∀ tid, recordOf kernel tid =
      (recordOf books.kernel tid).map (ThreadUsage.settle · tick reload)) :
    Balanced setup { books with
      kernel
      periodStart := books.ledger.ran
      reported := fun tid core ↦ books.reported tid core + costOf kernel tid core } := by
  have hold (tid : Tid) : recordOf kernel tid = none ↔ recordOf books.kernel tid = none := by
    rw [hsettled, Option.map_eq_none_iff]
  refine ⟨hinstalled, hobjects.trans h.objects, h.exclusive, h.listed,
    fun tid hsome ↦ h.recorded tid fun hnone ↦ hsome ((hold tid).mpr hnone), fun tid i hnone ↦ ?_,
    fun tid i hnone ↦ h.unborn tid i ((hold tid).mp hnone), fun tid record hrecord i ↦ ?_⟩
  · have hnone : recordOf kernel tid = none := hnone
    simp only [costOf, hnone, Option.elim_none, add_zero]
    exact h.unreported tid i ((hold tid).mp hnone)
  · have hrecord : recordOf kernel tid = some record := hrecord
    simp only [costOf, hrecord, Option.elim_some]
    rw [hsettled, Option.map_eq_some_iff] at hrecord
    obtain ⟨own, hown, rfl⟩ := hrecord
    have hran : books.ledger.ran tid i ≤ tick.toNat := hnow ▸ books.ledger.bounded tid i
    rw [hnow]
    exact (hnow ▸ h.account tid own hown i).settle reload hran

/-! ## Conservation -/

/-- **One step** keeps the balance. -/
theorem serve_balanced (h : Balanced setup books) {event : Event} (henabled : enabled books event)
    {next : Books} (hstep : serve setup.reload books event = .ok next) : Balanced setup next := by
  obtain ⟨htick, hevent⟩ := henabled
  have hadvanced := h.advance htick
  have hnow := advance_now htick
  cases event with
  | switch core tick toThread fromBlock toBlock =>
    obtain ⟨hlisted, hidle, hblocks, hfromBlock, htoBlock⟩ := hevent
    rcases scheduleHook_spec h.installed core tick (hidle core) hblocks with hfault |
      ⟨kernel, fromRecord, toRecord, hrun, hfrom, hto, hinstalled, hobjects, htable⟩
    · simp only [serve, hfault] at hstep
      cases hstep
    · simp only [serve, hrun, ok_bind] at hstep
      cases hstep
      exact hadvanced.switch hnow (h.objects ▸ hlisted) hidle hfromBlock htoBlock hfrom hto
        hinstalled hobjects htable
  | timer tick =>
    obtain ⟨kernel, hrun, hinstalled, hobjects, hsettled⟩ := h.timerIrq_settles tick setup.reload
    simp only [serve, hrun, ok_bind] at hstep
    cases hstep
    exact hadvanced.timer hnow hinstalled hobjects hsettled

/-- At any time from now on, what was reported, what is counted and what is open add up to what
the thread has run since its record was created. -/
def Conserved (books : Books) : Prop :=
  ∀ tid record, recordOf books.kernel tid = some record → ∀ core tick, books.ledger.now ≤ tick →
    books.born tid core ≤ books.ledger.ranUpTo tick tid core ∧
    books.reported tid core + (record.countTick core).toNat +
        (if books.ledger.running core = tid then tick - (record.enterTick core).toNat else 0) =
      books.ledger.ranUpTo tick tid core - books.born tid core

theorem Balanced.conserved (h : Balanced setup books) : Conserved books := by
  intro tid record hrecord core tick htick
  have hbalance := ((h.account tid record hrecord core).advance htick).balance
  rw [openTime] at hbalance
  rw [Ledger.ranUpTo]
  omega

/-- **Conservation.** In every history of switches and interrupts no time is lost or counted
twice. -/
theorem conserved_always (setup : Setup) (events : List Event) :
    (usage setup).Always (fun _ _ outcome ↦ ∀ next, outcome = .ok next → Conserved next)
      (boot setup) events := by
  refine System.always_iff_forall_run.mpr fun before event _ reached _ hrun henabled next hstep ↦ ?_
  have hreached : Balanced setup reached :=
    hrun.invariant (fun state _ _ (hbalanced : Balanced setup state) henabled hstep ↦
      serve_balanced hbalanced henabled hstep) (boot_balanced setup)
  exact (serve_balanced hreached henabled hstep).conserved

/-- Three threads, the first two running, and a period of 100 ticks. -/
def threeThreads : Setup where
  objects := [0, 1, 2]
  nodup := by decide
  running := ![0, 1]
  separate first second h := by
    revert first second
    decide
  listed := by decide
  loadCount := 100
  loadCount_pos := by decide

/-- Thread 2 has core 0 from one switch to the next, with an interrupt between them. -/
def sharedCore : List Event :=
  [.switch 0 10 2 (some (16, zero)) (some (32, zero)), .timer 100, .switch 0 130 0 none none]

/-- Of its 120 ticks the interrupt has reported 90, and 30 are counted. -/
theorem conserved_always_sharedCore :
    ∃ last record, (usage threeThreads).Run (boot threeThreads) sharedCore last ∧ Conserved last ∧
      recordOf last.kernel 2 = some record ∧ last.reported 2 0 = 90 ∧
        record.countTick 0 = 30 ∧ last.ledger.ran 2 0 = 120 := by
  have hfirst : enabled (boot threeThreads)
      (.switch 0 10 2 (some (16, zero)) (some (32, zero))) := by
    refine ⟨by decide, by decide, by decide, ⟨?_, ?_, ?_⟩, ?_, ?_⟩ <;>
      simp [boot, Heap.Fresh, Heap.empty, Cleared]
  have hconserved := System.always_iff_forall_run.mp (conserved_always threeThreads sharedCore)
    [.switch 0 10 2 (some (16, zero)) (some (32, zero)), .timer 100] (.switch 0 130 0 none none) [] _
    rfl (.cons hfirst rfl (.cons ⟨by decide, trivial⟩ rfl (.nil _)))
    ⟨by decide, by decide, by decide, allocatable_none _, cleared_none, cleared_none⟩ _ rfl
  refine ⟨_, _, .cons hfirst rfl (.cons ⟨by decide, trivial⟩ rfl (.cons ?_ rfl (.nil _))),
    hconserved, rfl, rfl, rfl, rfl⟩
  exact ⟨by decide, by decide, by decide, allocatable_none _, cleared_none, cleared_none⟩

end K210Firmware.CpuUsage
