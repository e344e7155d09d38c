import K210Firmware.Touch.FailedSample

/-!
# The buffer of a touch device read

`drv_touchscreen_read` fills its buffer with one status and one position for each poll. The status
of an empty event is never stored, so that the caller finds there what the buffer held before. Two
reads that differ in the contents of their buffers therefore agree exactly when no poll of the
read leaves an empty event record: when no pressure transfer fails, and the first poll pushes an
event if the record was empty.
-/

namespace K210Firmware.Touch.ReadBuffer

open Memory Touch.Filter Ns2009 Input FailedSample

/-- `touchscreen_read(&ptr[3 * i], &ptr[3 * i + 1], &ptr[3 * i + 2])`. -/
def readInto (pdata : Pdata) (readings : Readings) (i : ℤ) (ptr : Block ℤ) :
    Except Fault (Pdata × Block ℤ) := do
  let (pdata, status, point) ← touchscreenRead pdata readings (← ptr.read (3 * i))
  let ptr ← ptr.write (3 * i) status
  let ptr ← ptr.write (3 * i + 1) point.x
  let ptr ← ptr.write (3 * i + 2) point.y
  return (pdata, ptr)

/-- The loop of `drv_touchscreen_read` from pass `i` on, with its return value. -/
def readLoop : List Readings → ℤ → Pdata → Block ℤ → Except Fault (ℤ × Pdata × Block ℤ)
  | [], i, pdata, ptr => return (i, pdata, ptr)
  | readings :: polls, i, pdata, ptr => do
    let (pdata, ptr) ← readInto pdata readings i ptr
    readLoop polls (i + 1) pdata ptr

/-- A read of as many statuses as polls are given. -/
def drvTouchscreenRead (pdata : Pdata) (polls : List Readings) (buffer : Block ℤ) :
    Except Fault (ℤ × Pdata × Block ℤ) :=
  readLoop polls 0 pdata buffer

/-- Two reads with the same transfers leave the same ints, whatever their buffers held. -/
def SameInts (pdata : Pdata) (polls : List Readings) : Prop :=
  ∀ contents other : ℤ → ℤ, ∃ count pdata' filled count' pdata'' filled',
    drvTouchscreenRead pdata polls ⟨3 * polls.length, contents⟩ = .ok (count, pdata', filled) ∧
      drvTouchscreenRead pdata polls ⟨3 * polls.length, other⟩ = .ok (count', pdata'', filled') ∧
      ∀ place : ℤ, 0 ≤ place → place < 3 * polls.length → filled.cell place = filled'.cell place

/-- The filter moves the position of a contact. -/
def Moves (pdata : Pdata) (readings : Readings) : Prop :=
  ∃ point filter, tsfilterUpdate pdata.filter (raw readings.x) (raw readings.y) =
    .ok (point, filter) ∧ point ≠ pdata.point

/-- A poll whose pressure was received pushes an event: a contact begins, moves or ends. -/
def Pushes (pdata : Pdata) (readings : Readings) : Prop :=
  (pdata.press = 0 ∧ InRange readings) ∨ (pdata.press ≠ 0 ∧ ¬ InRange readings) ∨
    (pdata.press ≠ 0 ∧ InRange readings ∧ Moves pdata readings)

/-- Every pressure transfer succeeds, and an empty event record does not outlast the first poll. -/
def EventsKnown (pdata : Pdata) (polls : List Readings) : Prop :=
  (∀ readings ∈ polls, ¬ readings.pressureFailed) ∧
    ∀ readings ∈ polls.head?, pdata.event.type = .touchNone → Pushes pdata readings

/-! ## The event record after a poll -/

variable {cal : Fin 7 → ℤ} {pdata after : Pdata} {readings : Readings} {log : PollLog}

theorem pushed_of_contact (hrange : InRange readings)
    (hrun : contactPoll pdata readings = .ok (after, log)) :
    after.event = log.pushed.getD pdata.event ∧ (log.pushed.isSome ↔ Pushes pdata readings) ∧
      ∀ event ∈ log.pushed, event.type ≠ .touchNone := by
  obtain ⟨⟨point, filter⟩, hupdate, hrun⟩ := bind_eq_ok.mp hrun
  have hmoves : Moves pdata readings ↔ pdata.x ≠ point.x ∨ pdata.y ≠ point.y := by
    have hpoint : pdata.point = point ↔ pdata.x = point.x ∧ pdata.y = point.y := by
      rw [Pdata.point, Point.mk.injEq]
    constructor
    · rintro ⟨other, _, hother, hne⟩
      rw [hupdate] at hother
      cases hother
      by_contra hsame
      push Not at hsame
      exact hne (hpoint.mpr hsame).symm
    · intro hne
      refine ⟨point, filter, hupdate, fun hsame ↦ ?_⟩
      obtain ⟨hx, hy⟩ := hpoint.mp hsame.symm
      exact hne.elim (absurd hx) (absurd hy)
  cases hrun
  by_cases hpress : pdata.press = 0
  · simp [Pdata.withEvent, Pushes, hpress, hrange, pushEventBegin]
  · by_cases hne : pdata.x ≠ point.x ∨ pdata.y ≠ point.y
    · simp [Pdata.withEvent, Pushes, hpress, hrange, hmoves, hne, pushEventMove]
    · simp [Pdata.withEvent, Pushes, hpress, hrange, hmoves, hne]

theorem pushed_of_release (pdata : Pdata) (hrange : ¬ InRange readings) :
    (releasePoll pdata).1.event = (releasePoll pdata).2.pushed.getD pdata.event ∧
      ((releasePoll pdata).2.pushed.isSome ↔ Pushes pdata readings) ∧
      ∀ event ∈ (releasePoll pdata).2.pushed, event.type ≠ .touchNone := by
  by_cases hpress : pdata.press = 0
  · simp [releasePoll, Pushes, hpress, hrange]
  · simp [releasePoll, Pdata.withEvent, Pushes, hpress, hrange, pushEventEnd]

/-- After a poll the event record is empty exactly if the pressure was not received, or the record
was empty and no event was pushed. -/
theorem event_of_poll (hrun : tsNs2009Poll pdata readings = .ok (after, log)) :
    after.event.type = .touchNone ↔ readings.pressureFailed ∨
      (pdata.event.type = .touchNone ∧ ¬ Pushes pdata readings) := by
  by_cases hfailed : readings.pressureFailed
  · simp only [tsNs2009Poll, ns2009Read, show readings.z1 = none from hfailed] at hrun
    cases hrun
    simp [hfailed, Pdata.withEvent, pushEventNone]
  · have hpushed : after.event = log.pushed.getD pdata.event ∧
        (log.pushed.isSome ↔ Pushes pdata readings) ∧
        ∀ event ∈ log.pushed, event.type ≠ .touchNone := by
      rcases hz1 : readings.z1 with _ | ⟨high, low⟩
      · exact absurd hz1 hfailed
      simp only [tsNs2009Poll, ns2009Read, hz1, if_true] at hrun
      split_ifs at hrun with hrange
      · exact pushed_of_contact ⟨by rw [hz1]; rfl, by rw [hz1]; exact hrange⟩ hrun
      · obtain hpair : releasePoll pdata = (after, log) := Except.ok.inj hrun
        have hout : ¬ InRange readings := by
          rintro ⟨_, hin⟩
          rw [hz1] at hin
          exact hrange hin
        have hrelease := pushed_of_release pdata hout
        rwa [hpair] at hrelease
    obtain ⟨hevent, hsome, htype⟩ := hpushed
    rw [hevent, ← hsome]
    rcases hlog : log.pushed with _ | event
    · simp [hfailed]
    · simp [hfailed, htype event (by rw [hlog]; rfl)]

/-! ## One pass of the loop -/

/-- The buffer after pass `i`: the status of an empty event is what its cell held. -/
def stored (ptr : Block ℤ) (i : ℤ) (event : TsEvent) : Block ℤ where
  size := ptr.size
  cell :=
    let (status, point) := readEvent event (ptr.cell (3 * i))
    Function.update (Function.update (Function.update ptr.cell (3 * i) status) (3 * i + 1) point.x)
      (3 * i + 2) point.y

theorem readInto_eq {ptr : Block ℤ} {i : ℤ} (hi : 0 ≤ i) (hsize : 3 * (i + 1) ≤ ptr.size)
    (hrun : tsNs2009Poll pdata readings = .ok (after, log)) :
    readInto pdata readings i ptr = .ok (after, stored ptr i after.event) := by
  have hread : touchscreenRead pdata readings (ptr.cell (3 * i)) =
      .ok (after, readEvent after.event (ptr.cell (3 * i))) := by
    simp only [touchscreenRead, hrun, ok_bind]
    rfl
  rw [readInto, Block.read_eq_ok (by omega) (by omega), ok_bind, hread, ok_bind]
  simp only
  rw [Block.write_eq_ok (by omega) (by omega), ok_bind,
    Block.write_eq_ok (by omega) (by simp only; omega), ok_bind,
    Block.write_eq_ok (by omega) (by simp only; omega), ok_bind]
  rfl

theorem stored_of_ne {ptr : Block ℤ} {i place : ℤ} (hplace : place < 3 * i ∨ 3 * (i + 1) ≤ place)
    (event : TsEvent) : (stored ptr i event).cell place = ptr.cell place := by
  simp only [stored]
  rw [Function.update_of_ne (by omega), Function.update_of_ne (by omega),
    Function.update_of_ne (by omega)]

/-- An empty event leaves the status cell as it was. -/
theorem stored_status {ptr : Block ℤ} {i : ℤ} {event : TsEvent} (htype : event.type = .touchNone) :
    (stored ptr i event).cell (3 * i) = ptr.cell (3 * i) := by
  simp only [stored]
  rw [Function.update_of_ne (by omega), Function.update_of_ne (by omega), Function.update_self,
    readEvent, htype]

/-- The three cells of any other event depend on the event only. -/
theorem stored_congr {ptr other : Block ℤ} {i place : ℤ} {event : TsEvent}
    (htype : event.type ≠ .touchNone) (hplace : 3 * i ≤ place ∧ place < 3 * (i + 1)) :
    (stored ptr i event).cell place = (stored other i event).cell place := by
  have hsame (status status' : ℤ) : readEvent event status = readEvent event status' := by
    rcases hevent : event.type <;> simp only [readEvent, hevent]
    exact absurd hevent htype
  simp only [stored, hsame (ptr.cell (3 * i)) (other.cell (3 * i)), Function.update_apply]
  split_ifs
  · rfl
  · rfl
  · rfl
  · omega

/-! ## The whole read -/

/-- No poll of the read leaves an empty event record. -/
def AllTyped : Pdata → List Readings → Prop
  | _, [] => True
  | pdata, readings :: polls => ∀ after log, tsNs2009Poll pdata readings = .ok (after, log) →
      after.event.type ≠ .touchNone ∧ AllTyped after polls

/-- A record that holds an event is emptied by failed transfers only. -/
theorem allTyped_of_event (h : Ready cal pdata) (htype : pdata.event.type ≠ .touchNone)
    (polls : List Readings) :
    AllTyped pdata polls ↔ ∀ readings ∈ polls, ¬ readings.pressureFailed := by
  induction polls generalizing pdata with
  | nil => simp [AllTyped]
  | cons readings polls ih =>
    obtain ⟨after, log, hrun, hready, _⟩ := poll_cases h readings
    have hevent := event_of_poll hrun
    simp only [htype, false_and, or_false] at hevent
    rw [List.forall_mem_cons, ← hevent]
    constructor
    · intro hall
      obtain ⟨hafter, hrest⟩ := hall after log hrun
      exact ⟨hafter, (ih hready hafter).mp hrest⟩
    · rintro ⟨hafter, hrest⟩ other log' hother
      rw [hrun] at hother
      cases hother
      exact ⟨hafter, (ih hready hafter).mpr hrest⟩

theorem allTyped_iff (h : Ready cal pdata) (polls : List Readings) :
    AllTyped pdata polls ↔ EventsKnown pdata polls := by
  cases polls with
  | nil => simp [AllTyped, EventsKnown]
  | cons readings polls =>
    obtain ⟨after, log, hrun, hready, _⟩ := poll_cases h readings
    have hevent := event_of_poll hrun
    have hfirst : after.event.type ≠ .touchNone ↔ ¬ readings.pressureFailed ∧
        (pdata.event.type = .touchNone → Pushes pdata readings) := by
      rw [ne_eq, hevent, not_or, not_and, not_not]
    have hknown : EventsKnown pdata (readings :: polls) ↔ after.event.type ≠ .touchNone ∧
        ∀ readings ∈ polls, ¬ readings.pressureFailed := by
      simp only [EventsKnown, List.forall_mem_cons, List.head?_cons, Option.mem_some_iff,
        forall_eq', hfirst]
      tauto
    rw [hknown]
    constructor
    · intro hall
      obtain ⟨hafter, hrest⟩ := hall after log hrun
      exact ⟨hafter, (allTyped_of_event hready hafter polls).mp hrest⟩
    · rintro ⟨hafter, hrest⟩ other log' hother
      rw [hrun] at hother
      cases hother
      exact ⟨hafter, (allTyped_of_event hready hafter polls).mpr hrest⟩

/-- The loop returns, and later passes leave the cells of earlier ones alone. -/
theorem readLoop_keeps (h : Ready cal pdata) (polls : List Readings) {i : ℤ} (hi : 0 ≤ i)
    (ptr : Block ℤ) (hsize : 3 * (i + polls.length) ≤ ptr.size) :
    ∃ pdata' filled, readLoop polls i pdata ptr = .ok (i + polls.length, pdata', filled) ∧
      ∀ place, place < 3 * i → filled.cell place = ptr.cell place := by
  induction polls generalizing pdata i ptr with
  | nil => exact ⟨pdata, ptr, by simp [readLoop]; rfl, fun _ _ ↦ rfl⟩
  | cons readings polls ih =>
    rw [List.length_cons] at hsize
    push_cast at hsize
    obtain ⟨after, log, hrun, hready, _⟩ := poll_cases h readings
    obtain ⟨pdata', filled, hrest, hkept⟩ := ih hready
      (show 0 ≤ i + 1 by omega) (stored ptr i after.event)
      (show 3 * (i + 1 + polls.length) ≤ ptr.size by omega)
    refine ⟨pdata', filled, ?_, fun place hplace ↦ ?_⟩
    · rw [readLoop, readInto_eq hi (by omega) hrun, ok_bind]
      simp only [hrest, List.length_cons]
      push_cast
      ring_nf
    · rw [hkept place (by omega), stored_of_ne (.inl hplace)]

/-- Reads that leave no empty event agree wherever they have been. -/
theorem readLoop_same (h : Ready cal pdata) {polls : List Readings} (hall : AllTyped pdata polls)
    {i : ℤ} (hi : 0 ≤ i) (ptr other : Block ℤ) (hsize : 3 * (i + polls.length) ≤ ptr.size)
    (hother : 3 * (i + polls.length) ≤ other.size)
    (hagree : ∀ place, 0 ≤ place → place < 3 * i → ptr.cell place = other.cell place) :
    ∃ count pdata' filled filled', readLoop polls i pdata ptr = .ok (count, pdata', filled) ∧
      readLoop polls i pdata other = .ok (count, pdata', filled') ∧
      ∀ place, 0 ≤ place → place < 3 * (i + polls.length) →
        filled.cell place = filled'.cell place := by
  induction polls generalizing pdata i ptr other with
  | nil => exact ⟨i, pdata, ptr, other, rfl, rfl, by simpa using hagree⟩
  | cons readings polls ih =>
    rw [List.length_cons] at hsize hother ⊢
    push_cast at hsize hother ⊢
    obtain ⟨after, log, hrun, hready, _⟩ := poll_cases h readings
    obtain ⟨htype, hrest⟩ := hall after log hrun
    obtain ⟨count, pdata', filled, filled', hfirst, hsecond, hsame⟩ :=
      ih hready hrest (show 0 ≤ i + 1 by omega) (stored ptr i after.event)
        (stored other i after.event) (show 3 * (i + 1 + polls.length) ≤ ptr.size by omega)
        (show 3 * (i + 1 + polls.length) ≤ other.size by omega) (fun place hnonneg hlt ↦ by
          by_cases hold : place < 3 * i
          · rw [stored_of_ne (.inl hold), stored_of_ne (.inl hold)]
            exact hagree place hnonneg hold
          · exact stored_congr htype ⟨by omega, hlt⟩)
    refine ⟨count, pdata', filled, filled', ?_, ?_, fun place hnonneg hlt ↦
      hsame place hnonneg (by omega)⟩
    · rw [readLoop, readInto_eq hi (by omega) hrun, ok_bind]
      exact hfirst
    · rw [readLoop, readInto_eq hi (by omega) hrun, ok_bind]
      exact hsecond

/-- A read that leaves an empty event keeps some cell of its buffer. -/
theorem exists_kept (h : Ready cal pdata) {polls : List Readings} (hall : ¬ AllTyped pdata polls)
    {i : ℤ} (hi : 0 ≤ i) :
    ∃ place, 3 * i ≤ place ∧ place < 3 * (i + polls.length) ∧ ∀ ptr : Block ℤ,
      3 * (i + polls.length) ≤ ptr.size → ∃ count pdata' filled,
        readLoop polls i pdata ptr = .ok (count, pdata', filled) ∧
          filled.cell place = ptr.cell place := by
  induction polls generalizing pdata i with
  | nil => exact absurd trivial hall
  | cons readings polls ih =>
    rw [List.length_cons]
    push_cast
    obtain ⟨after, log, hrun, hready, _⟩ := poll_cases h readings
    by_cases htype : after.event.type = .touchNone
    · refine ⟨3 * i, le_rfl, by omega, fun ptr hsize ↦ ?_⟩
      obtain ⟨pdata', filled, hrest, hkept⟩ := readLoop_keeps hready polls
        (show 0 ≤ i + 1 by omega) (stored ptr i after.event)
        (show 3 * (i + 1 + polls.length) ≤ ptr.size by omega)
      refine ⟨i + 1 + polls.length, pdata', filled, ?_, ?_⟩
      · rw [readLoop, readInto_eq hi (by omega) hrun, ok_bind]
        exact hrest
      · rw [hkept (3 * i) (by omega), stored_status htype]
    · have hrest : ¬ AllTyped after polls := fun hrest ↦ hall fun other log' hother ↦ by
        rw [hrun] at hother
        cases hother
        exact ⟨htype, hrest⟩
      obtain ⟨place, hlower, hupper, hkept⟩ := ih hready hrest (show 0 ≤ i + 1 by omega)
      refine ⟨place, by omega, by omega, fun ptr hsize ↦ ?_⟩
      obtain ⟨count, pdata', filled, hloop, hcell⟩ := hkept (stored ptr i after.event)
        (show 3 * (i + 1 + polls.length) ≤ ptr.size by omega)
      refine ⟨count, pdata', filled, ?_, ?_⟩
      · rw [readLoop, readInto_eq hi (by omega) hrun, ok_bind]
        exact hloop
      · rw [hcell, stored_of_ne (.inr hlower)]

/-- **The ints a reader gets** do not depend on what its buffer held exactly when every pressure
transfer succeeds and an empty event record does not outlast the first poll. -/
theorem same_ints_iff (driver : Driver cal) (polls : List Readings) :
    SameInts driver.pdata polls ↔ EventsKnown driver.pdata polls := by
  rw [← allTyped_iff driver.ready]
  constructor
  · intro hsame
    by_contra hall
    obtain ⟨place, hlower, hupper, hkept⟩ := exists_kept driver.ready hall le_rfl
    obtain ⟨_, _, filled, _, _, filled', hzero, hone, hagree⟩ := hsame (fun _ ↦ 0) fun _ ↦ 1
    obtain ⟨_, _, _, hzero', hzeroCell⟩ := hkept ⟨3 * polls.length, fun _ ↦ 0⟩ (by simp)
    obtain ⟨_, _, _, hone', honeCell⟩ := hkept ⟨3 * polls.length, fun _ ↦ 1⟩ (by simp)
    rw [drvTouchscreenRead, hzero'] at hzero
    rw [drvTouchscreenRead, hone'] at hone
    cases hzero
    cases hone
    have hcell := hagree place (by omega) (by omega)
    rw [hzeroCell, honeCell] at hcell
    exact zero_ne_one hcell
  · intro hall contents other
    obtain ⟨count, pdata', filled, filled', hfirst, hsecond, hsame⟩ :=
      readLoop_same driver.ready hall le_rfl ⟨3 * polls.length, contents⟩
        ⟨3 * polls.length, other⟩ (by simp) (by simp) (fun place hnonneg hlt ↦ by omega)
    exact ⟨count, pdata', filled, count, pdata', filled', hfirst, hsecond, by simpa using hsame⟩

/-- A pen that is up, at pressure 0. -/
def noContact : Readings := ⟨some (0, 0), none, none⟩

/-- After the probe an idle poll leaves the status cell as it was. -/
theorem idle_status_is_not_stored :
    ¬ SameInts (tsNs2009Probe calibration zeroArrays) [noContact] := by
  intro hsame
  obtain ⟨_, _, _, _, _, _, hzero, hone, hagree⟩ := hsame (fun _ ↦ 0) fun _ ↦ 3
  cases hzero
  cases hone
  exact absurd (hagree 0 (by decide) (by decide)) (by decide)

end K210Firmware.Touch.ReadBuffer
