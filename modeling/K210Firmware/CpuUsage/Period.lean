import K210Firmware.CpuUsage.History

/-!
# The share of a period

At an interrupt the cost of a thread should be the time it has run since the last interrupt. Two
things separate them: time the thread ran in this period before it had a record, and the open time
that the interrupt overlooks because the stamps of a running thread do not say that it runs. The
second is what the rebase of an earlier interrupt leaves behind, with both stamps equal.
`cost_exact_iff` shows that nothing else does.
-/

namespace K210Firmware.CpuUsage

open Memory ThreadUsage Transition

/-- The ticks a thread has run on a core between two states of the books. -/
def share (books next : Books) (tid : Tid) (core : Core) : ℕ :=
  next.ledger.ran tid core - books.periodStart tid core

/-- After an interrupt every record shows the share of its thread on each core and, for a share
of at most one period, its percentage. -/
def CostExact (reload : UInt64) (books : Books) (event : Event) (outcome : Except Fault Books) :
    Prop :=
  match event with
  | .switch .. => True
  | .timer _ => ∃ next, outcome = .ok next ∧
      ∀ tid record, recordOf next.kernel tid = some record → ∀ core,
        (record.costTick core).toNat = share books next tid core ∧
        (share books next tid core ≤ reload.toNat →
          100 * (record.major core).toNat + (record.minor core).toNat =
            10000 * share books next tid core / reload.toNat)

/-- At an interrupt, every thread with a record had it when the period began or has not run before
in this period, and the stamps of a running one say that it runs, or it entered at this tick. -/
def Counted (books : Books) (event : Event) : Prop :=
  match event with
  | .switch .. => True
  | .timer tick => ∀ tid record, recordOf books.kernel tid = some record → ∀ core,
      books.born tid core ≤ books.periodStart tid core ∧
      (books.ledger.running core = tid →
        record.leaveTick core < record.enterTick core ∨ record.enterTick core = tick)

/-- The interrupts so far have reported all that ran between the record and the period. -/
structure UpToDate (setup : Setup) (books : Books) : Prop where
  balanced : Balanced setup books
  started : ∀ tid core, books.periodStart tid core ≤ books.ledger.ran tid core
  reported : ∀ tid, recordOf books.kernel tid ≠ none → ∀ core,
    books.reported tid core + books.born tid core =
      max (books.periodStart tid core) (books.born tid core)

variable {setup : Setup} {books : Books}

theorem boot_upToDate (setup : Setup) : UpToDate setup (boot setup) where
  balanced := boot_balanced setup
  started _ _ := le_rfl
  reported _ h := absurd rfl h

theorem Setup.reload_toNat (setup : Setup) :
    0 < setup.reload.toNat ∧ setup.reload.toNat < 2 ^ 32 := by
  rw [reload, UInt32.toNat_toUInt64]
  exact ⟨setup.loadCount_pos, setup.loadCount.toNat_lt⟩

/-- What an interrupt does to one account: what it reports, what it overlooks and what was reported
before add up to the time run since the record was created. -/
theorem account_at_timer (h : Balanced setup books) {tick : UInt64}
    (htick : books.ledger.now ≤ tick.toNat) {tid : Tid} {own : ThreadUsage}
    (hown : recordOf books.kernel tid = some own) (core : Core) (reload : UInt64) :
    (openTime (own.settle tick reload) core (books.ledger.running core = tid) tick.toNat = 0 ↔
      (books.ledger.running core = tid →
        own.leaveTick core < own.enterTick core ∨ own.enterTick core = tick)) ∧
    openTime (own.settle tick reload) core (books.ledger.running core = tid) tick.toNat +
        ((own.settle tick reload).costTick core).toNat + books.reported tid core +
        books.born tid core =
      books.ledger.ranUpTo tick.toNat tid core := by
  have haccount : Account own core (books.ledger.running core = tid) tick.toNat
      (books.reported tid core) (books.born tid core) (books.ledger.ranUpTo tick.toNat tid core) :=
    (h.account tid own hown core).advance htick
  have hran : books.ledger.ranUpTo tick.toNat tid core ≤ tick.toNat := by
    have hbounded := (books.ledger.advance tick.toNat).bounded tid core
    rwa [Ledger.advance_now htick] at hbounded
  have hbalance := (haccount.settle reload hran).balance
  rw [countTick_settle, UInt64.toNat_zero] at hbalance
  exact ⟨openTime_settle_eq_zero_iff haccount, by omega⟩

/-- **One interrupt** settles every record and opens a period. -/
theorem timer_step (h : Balanced setup books) (tick : UInt64) :
    ∃ next, serve setup.reload books (.timer tick) = .ok next ∧
      next.ledger.ran = books.ledger.ranUpTo tick.toNat ∧ next.periodStart = next.ledger.ran ∧
      (∀ tid, recordOf next.kernel tid =
        (recordOf books.kernel tid).map (ThreadUsage.settle · tick setup.reload)) ∧
      ∀ tid own, recordOf books.kernel tid = some own → ∀ core,
        next.born tid core = books.born tid core ∧
        next.reported tid core = books.reported tid core +
          ((own.settle tick setup.reload).costTick core).toNat := by
  obtain ⟨kernel, hrun, hinstalled, hobjects, hsettled⟩ := h.timerIrq_settles tick setup.reload
  refine ⟨_, by rw [serve, hrun, ok_bind]; rfl, rfl, rfl, hsettled, fun tid own hown core ↦ ?_⟩
  have hnew : recordOf kernel tid = some (own.settle tick setup.reload) := by
    rw [hsettled, hown, Option.map_some]
  exact ⟨by simp [Books.advance, hown], by simp [Books.advance, costOf, hnew]⟩

/-- The cost is the share exactly when no time is open and none was run unrecorded. -/
theorem cost_eq_share_iff {opened cost reported born started ran : ℕ}
    (hbalance : opened + cost + reported + born = ran)
    (hreported : reported + born = max started born) (hstarted : started ≤ ran) :
    cost = ran - started ↔ born ≤ started ∧ opened = 0 := by
  omega

/-- **One step.** The costs are exact after it if and only if everything is counted before it. -/
theorem costExact_serve_iff (h : UpToDate setup books) {event : Event}
    (henabled : enabled books event) :
    CostExact setup.reload books event (serve setup.reload books event) ↔ Counted books event := by
  cases event with
  | switch core tick toThread fromBlock toBlock => exact Iff.rfl
  | timer tick =>
    have htick : books.ledger.now ≤ tick.toNat := henabled.1
    obtain ⟨next, hrun, hran, _, hsettled, _⟩ := timer_step h.balanced tick
    obtain ⟨hpos, hbound⟩ := setup.reload_toNat
    have hshare (tid : Tid) (own : ThreadUsage) (hown : recordOf books.kernel tid = some own)
        (core : Core) :
        ((own.settle tick setup.reload).costTick core).toNat = share books next tid core ↔
          books.born tid core ≤ books.periodStart tid core ∧
          (books.ledger.running core = tid →
            own.leaveTick core < own.enterTick core ∨ own.enterTick core = tick) := by
      obtain ⟨hopen, hbalance⟩ := account_at_timer h.balanced htick hown core setup.reload
      rw [← hopen, share, hran]
      exact cost_eq_share_iff hbalance (h.reported tid (by simp [hown]) core)
        ((h.started tid core).trans Ledger.ran_le_ranUpTo)
    constructor
    · rintro ⟨after, hafter, hexact⟩ tid own hown core
      obtain rfl : next = after := Except.ok.inj (hrun.symm.trans hafter)
      have hrecord : recordOf next.kernel tid = some (own.settle tick setup.reload) := by
        rw [hsettled, hown, Option.map_some]
      exact (hshare tid own hown core).mp (hexact tid _ hrecord core).1
    · intro hcounted
      refine ⟨next, hrun, fun tid record hrecord core ↦ ?_⟩
      rw [hsettled, Option.map_eq_some_iff] at hrecord
      obtain ⟨own, hown, rfl⟩ := hrecord
      have hcost := (hshare tid own hown core).mpr (hcounted tid own hown core)
      refine ⟨hcost, fun hle ↦ ?_⟩
      obtain ⟨hmajor, hminor⟩ := settle_report own tick setup.reload core
      rw [hmajor, hminor, ← hcost]
      exact report_eq hpos hbound (UInt64.le_iff_toNat_le.mpr (hcost ▸ hle))

/-! ## Histories -/

/-- The marks after a switch. -/
theorem switch_step {reload : UInt64} {core : Core} {tick : UInt64} {toThread : Tid}
    {fromBlock toBlock : Allocation} {next : Books}
    (hstep : serve reload books (.switch core tick toThread fromBlock toBlock) = .ok next) :
    next.ledger.ran = books.ledger.ranUpTo tick.toNat ∧ next.periodStart = books.periodStart ∧
      next.reported = books.reported ∧ next.born = (books.advance tick).born := by
  cases hrun : scheduleHook books.kernel core tick (books.ledger.running core) toThread
      fromBlock toBlock with
  | error fault =>
    simp only [serve, hrun] at hstep
    cases hstep
  | ok kernel =>
    simp only [serve, hrun, ok_bind] at hstep
    cases hstep
    exact ⟨rfl, rfl, rfl, rfl⟩

/-- Steps at which everything is counted keep the reports up to date. -/
theorem serve_upToDate (h : UpToDate setup books) {event : Event} (henabled : enabled books event)
    (hcounted : Counted books event) {next : Books}
    (hstep : serve setup.reload books event = .ok next) : UpToDate setup next := by
  refine ⟨serve_balanced h.balanced henabled hstep, ?_, ?_⟩
  · cases event with
    | switch core tick toThread fromBlock toBlock =>
      obtain ⟨hran, hstart, _⟩ := switch_step hstep
      intro tid core
      rw [hran, hstart]
      exact (h.started tid core).trans Ledger.ran_le_ranUpTo
    | timer tick =>
      obtain ⟨after, hrun, _, hstart, _⟩ := timer_step h.balanced tick
      obtain rfl : after = next := Except.ok.inj (hrun.symm.trans hstep)
      intro tid core
      rw [hstart]
  · cases event with
    | switch core tick toThread fromBlock toBlock =>
      obtain ⟨_, hstart, hreported, hborn⟩ := switch_step hstep
      intro tid _ i
      rw [hstart, hreported, hborn]
      cases hown : recordOf books.kernel tid with
      | none =>
        have hle : books.periodStart tid i ≤ books.ledger.ranUpTo tick.toNat tid i :=
          (h.started tid i).trans Ledger.ran_le_ranUpTo
        simp only [Books.advance, hown, Option.isSome_none, h.balanced.unreported tid i hown]
        simpa using hle
      | some own =>
        simp only [Books.advance, hown, Option.isSome_some, if_true]
        exact h.reported tid (by simp [hown]) i
    | timer tick =>
      have htick : books.ledger.now ≤ tick.toNat := henabled.1
      obtain ⟨after, hrun, hran, hstart, hsettled, hmarks⟩ := timer_step h.balanced tick
      obtain rfl : after = next := Except.ok.inj (hrun.symm.trans hstep)
      intro tid hrecorded core
      rw [hsettled, ne_eq, Option.map_eq_none_iff] at hrecorded
      obtain ⟨own, hown⟩ := Option.ne_none_iff_exists'.mp hrecorded
      obtain ⟨hborn, hreported⟩ := hmarks tid own hown core
      obtain ⟨hopen, hbalance⟩ := account_at_timer h.balanced htick hown core setup.reload
      have hnone := hopen.mpr (hcounted tid own hown core).2
      rw [hstart, hran, hborn, hreported]
      omega

/-- **Exact shares.** Over a history of switches and interrupts every reported cost is the share of
the period, and its percentage with it, exactly when every interrupt finds everything counted. -/
theorem cost_exact_iff (setup : Setup) (events : List Event) :
    (usage setup).Always (CostExact setup.reload) (boot setup) events ↔
      (usage setup).Guarded Counted (boot setup) events :=
  System.always_iff_guarded (fun books _ (h : UpToDate setup books) henabled ↦
      costExact_serve_iff h henabled)
    (fun _ _ _ h henabled hcounted hstep ↦ serve_upToDate h henabled hcounted hstep)
    (boot_upToDate setup)

/-! ## A thread that keeps running -/

/-- Thread 2 is switched in on core 0 and runs through two interrupts. -/
def longRun : List Event :=
  [.switch 0 10 2 (some (16, zero)) (some (32, zero)), .timer 100, .timer 200]

/-- The second interrupt reports nothing for a thread that had its core for the whole period. -/
theorem long_run_is_reported_as_idle :
    ¬ (usage threeThreads).Always (CostExact threeThreads.reload) (boot threeThreads) longRun := by
  intro h
  have hswitch : enabled (boot threeThreads)
      (.switch 0 10 2 (some (16, zero)) (some (32, zero))) := by
    refine ⟨by decide, by decide, by decide, ⟨?_, ?_, ?_⟩, ?_, ?_⟩ <;>
      simp [boot, Heap.Fresh, Heap.empty, Cleared]
  have hsecond := System.always_iff_forall_run.mp h
    [.switch 0 10 2 (some (16, zero)) (some (32, zero)), .timer 100] (.timer 200) [] _ rfl
    (.cons hswitch rfl (.cons ⟨by decide, trivial⟩ rfl (.nil _))) ⟨by decide, trivial⟩
  obtain ⟨_, ⟨⟩, hexact⟩ := hsecond
  exact absurd (hexact 2 _ rfl 0).1 (by decide)

end K210Firmware.CpuUsage
