import K210Firmware.Library.Transition
import K210Firmware.Touch.Ns2009

/-!
# Contacts reported by the touch driver

A session is a driver together with the record of its polls. Forgetting the empty events, the
events pushed in a session are whole contacts, each a begin, some moves and an end, followed by at
most one contact that is still open; the press flag is set exactly while one is open. The positions
in the events come from the filter, and a contact begins with the calibrated image of its own
first reading, so that nothing an earlier contact left in the filter is seen.
-/

namespace K210Firmware.Touch.Contacts

open Memory Touch.Filter Ns2009 Transition

/-- One poll of a session: the replies it met and what it did with them. -/
structure Entry where
  readings : Readings
  log : PollLog

structure Session where
  pdata : Pdata
  history : List Entry

/-- Polling, from whichever replies the bus gives. -/
def polling : System Session Readings Fault where
  enabled _ _ := True
  step session readings := do
    let (pdata, log) ← tsNs2009Poll session.pdata readings
    return ⟨pdata, session.history ++ [⟨readings, log⟩]⟩

/-- The session at the end of `ts_ns2009_probe`. -/
def probed (cal : Fin 7 → ℤ) (stale : StaleArrays) : Session := ⟨tsNs2009Probe cal stale, []⟩

/-! ## The specification of a history -/

/-- The kinds of the events pushed in a history, without the empty ones. -/
def kinds (history : List Entry) : List EventType :=
  ((history.filterMap fun entry ↦ entry.log.pushed).map TsEvent.type).filter (· ≠ .touchNone)

/-- The last position the filter gave out. -/
def lastFiltered (history : List Entry) : Option Point :=
  (history.filterMap fun entry ↦ entry.log.filtered).getLast?

/-- The event that was pushed last; the probe leaves an empty one. -/
def lastPushed (history : List Entry) : TsEvent :=
  (history.filterMap fun entry ↦ entry.log.pushed).getLast?.getD pushEventNone

/-- The events of a contact that is not over. -/
def openContact (moves : ℕ) : List EventType := .touchBegin :: List.replicate moves .touchMove

/-- The events of a whole contact. -/
def contact (moves : ℕ) : List EventType := openContact moves ++ [.touchEnd]

/-- Whole contacts, and one more exactly when the pen is down. -/
def WellFormed (events : List EventType) (down : Prop) : Prop :=
  ∃ done : List ℕ, (¬ down ∧ events = done.flatMap contact) ∨
    (down ∧ ∃ moves, events = done.flatMap contact ++ openContact moves)

/-- The positions a poll may report after a given history. -/
structure Faithful (cal : Fin 7 → ℤ) (before : List Entry) (entry : Entry) : Prop where
  begins : ∀ event, entry.log.pushed = some event → event.type = .touchBegin →
    event.point = calibrate cal (raw entry.readings.x) (raw entry.readings.y)
  moves : ∀ event, entry.log.pushed = some event → event.type = .touchMove →
    entry.log.filtered = some event.point ∧
      ∃ previous, lastFiltered before = some previous ∧ event.point ≠ previous
  ends : ∀ event, entry.log.pushed = some event → event.type = .touchEnd →
    lastFiltered before = some event.point

/-- Every poll of the history reports positions it may report after those before it. -/
def AllFaithful (cal : Fin 7 → ℤ) (history : List Entry) : Prop :=
  ∀ before entry after, history = before ++ entry :: after → Faithful cal before entry

/-! ## Appending one poll -/

theorem kinds_append (history : List Entry) (readings : Readings) (log : PollLog) :
    kinds (history ++ [⟨readings, log⟩]) =
      kinds history ++ (log.pushed.toList.map TsEvent.type).filter (· ≠ .touchNone) := by
  rcases hpushed : log.pushed with _ | event <;> simp [kinds, hpushed]

theorem lastFiltered_append (history : List Entry) (readings : Readings) (log : PollLog) :
    lastFiltered (history ++ [⟨readings, log⟩]) = log.filtered.or (lastFiltered history) := by
  rcases hfiltered : log.filtered with _ | point <;> simp [lastFiltered, hfiltered]

theorem lastPushed_append (history : List Entry) (readings : Readings) (log : PollLog) :
    lastPushed (history ++ [⟨readings, log⟩]) = log.pushed.getD (lastPushed history) := by
  rcases hpushed : log.pushed with _ | event <;> simp [lastPushed, hpushed]

theorem AllFaithful.append {cal : Fin 7 → ℤ} {history : List Entry} {entry : Entry}
    (h : AllFaithful cal history) (hentry : Faithful cal history entry) :
    AllFaithful cal (history ++ [entry]) := by
  intro before other after hsplit
  rcases List.eq_nil_or_concat after with rfl | ⟨rest, last, rfl⟩
  · obtain ⟨rfl, hlast⟩ := List.append_inj' hsplit rfl
    obtain rfl : entry = other := by simpa using hlast
    exact hentry
  · have hconcat : history ++ [entry] = (before ++ other :: rest) ++ [last] := by simpa using hsplit
    obtain ⟨hhistory, _⟩ := List.append_inj' hconcat rfl
    exact h before other rest hhistory

theorem WellFormed.begin {events : List EventType} {before after : Prop}
    (h : WellFormed events before) (hbefore : ¬ before) (hafter : after) :
    WellFormed (events ++ [.touchBegin]) after := by
  obtain ⟨done, ⟨_, rfl⟩ | ⟨hdown, _⟩⟩ := h
  · exact ⟨done, .inr ⟨hafter, 0, rfl⟩⟩
  · exact absurd hdown hbefore

theorem WellFormed.move {events : List EventType} {before after : Prop}
    (h : WellFormed events before) (hbefore : before) (hafter : after) :
    WellFormed (events ++ [.touchMove]) after := by
  obtain ⟨done, ⟨hup, _⟩ | ⟨_, moves, rfl⟩⟩ := h
  · exact absurd hbefore hup
  · refine ⟨done, .inr ⟨hafter, moves + 1, ?_⟩⟩
    simp [openContact, List.replicate_succ']

theorem WellFormed.finish {events : List EventType} {before after : Prop}
    (h : WellFormed events before) (hbefore : before) (hafter : ¬ after) :
    WellFormed (events ++ [.touchEnd]) after := by
  obtain ⟨done, ⟨hup, _⟩ | ⟨_, moves, rfl⟩⟩ := h
  · exact absurd hbefore hup
  · refine ⟨done ++ [moves], .inl ⟨hafter, ?_⟩⟩
    simp [contact]

theorem WellFormed.keep {events : List EventType} {before after : Prop}
    (h : WellFormed events before) (hiff : before ↔ after) : WellFormed (events ++ []) after := by
  rw [List.append_nil]
  simpa only [WellFormed, hiff] using h

/-! ## The session invariant -/

/-- The driver is ready, its history is a faithful record of contacts, and during a contact it
holds the last position the filter gave out. -/
structure Consistent (cal : Fin 7 → ℤ) (session : Session) : Prop where
  ready : Ready cal session.pdata
  wellFormed : WellFormed (kinds session.history) (session.pdata.press = 1)
  faithful : AllFaithful cal session.history
  position : session.pdata.press = 1 → lastFiltered session.history = some session.pdata.point
  event : session.pdata.event = lastPushed session.history

theorem probed_consistent (cal : Fin 7 → ℤ) (stale : StaleArrays) :
    Consistent cal (probed cal stale) where
  ready := tsNs2009Probe_ready cal stale
  wellFormed := ⟨[], .inl ⟨by simp [probed, tsNs2009Probe], rfl⟩⟩
  faithful before entry after hsplit := by simp [probed] at hsplit
  position hpress := by simp [probed, tsNs2009Probe] at hpress
  event := rfl

/-- The order of the events is kept by every poll. -/
theorem PollStep.wellFormed {cal : Fin 7 → ℤ} {session : Session} {readings : Readings}
    {after : Pdata} {log : PollLog} (h : Consistent cal session)
    (hstep : PollStep cal session.pdata readings after log) :
    WellFormed (kinds (session.history ++ [⟨readings, log⟩])) (after.press = 1) := by
  rw [kinds_append]
  cases hstep with
  | failed _ _ hafter => exact h.wellFormed.keep (by rw [hafter]; rfl)
  | begun _ point _ hup hdown => exact h.wellFormed.begin (by omega) hdown
  | moved _ point _ hdown hstill => exact h.wellFormed.move hdown hstill
  | held _ point _ hdown hstill => exact h.wellFormed.keep (by omega)
  | ended _ _ hdown hup => exact h.wellFormed.finish hdown (by omega)
  | idle _ hup => exact h.wellFormed.keep Iff.rfl

/-- Every poll reports positions it may report. -/
theorem PollStep.faithful {cal : Fin 7 → ℤ} {session : Session} {readings : Readings}
    {after : Pdata} {log : PollLog} (h : Consistent cal session)
    (hstep : PollStep cal session.pdata readings after log) :
    Faithful cal session.history ⟨readings, log⟩ := by
  cases hstep with
  | failed _ _ _ =>
    constructor <;> rintro event ⟨⟩ htype <;> cases htype
  | begun _ point _ _ _ _ hpoint _ =>
    refine ⟨?_, ?_, ?_⟩ <;> rintro event ⟨⟩ htype
    · exact hpoint
    · cases htype
    · cases htype
  | moved _ point _ hdown _ _ hne _ =>
    refine ⟨?_, ?_, ?_⟩ <;> rintro event ⟨⟩ htype
    · cases htype
    · exact ⟨rfl, session.pdata.point, h.position hdown, hne.symm⟩
    · cases htype
  | held _ point _ _ _ _ _ _ =>
    constructor <;> rintro event ⟨⟩
  | ended _ _ hdown _ _ =>
    refine ⟨?_, ?_, ?_⟩ <;> rintro event ⟨⟩ htype
    · cases htype
    · cases htype
    · exact h.position hdown
  | idle _ _ =>
    constructor <;> rintro event ⟨⟩

/-- During a contact the driver holds the position it took from the filter last. -/
theorem PollStep.position {cal : Fin 7 → ℤ} {session : Session} {readings : Readings}
    {after : Pdata} {log : PollLog} (h : Consistent cal session)
    (hstep : PollStep cal session.pdata readings after log) (hpress : after.press = 1) :
    lastFiltered (session.history ++ [⟨readings, log⟩]) = some after.point := by
  rw [lastFiltered_append]
  cases hstep with
  | failed _ _ hafter =>
    rw [hafter] at hpress ⊢
    exact h.position hpress
  | begun _ point _ _ _ hpoint _ _ => rw [hpoint]; rfl
  | moved _ point _ _ _ hpoint _ _ => rw [hpoint]; rfl
  | held _ point _ _ _ hpoint _ _ => rw [hpoint]; rfl
  | ended _ _ _ hup _ => omega
  | idle _ hup => omega

/-- The record of the driver is the last event it has pushed. -/
theorem PollStep.event {cal : Fin 7 → ℤ} {session : Session} {readings : Readings}
    {after : Pdata} {log : PollLog} (h : Consistent cal session)
    (hstep : PollStep cal session.pdata readings after log) :
    after.event = lastPushed (session.history ++ [⟨readings, log⟩]) := by
  rw [lastPushed_append]
  cases hstep with
  | failed _ _ hafter => rw [hafter]; rfl
  | begun _ point _ _ _ _ _ hevent => exact hevent
  | moved _ point _ _ _ _ _ hevent => exact hevent
  | held _ point _ _ _ _ _ hevent => exact hevent.trans h.event
  | ended _ _ _ _ hevent => exact hevent
  | idle _ _ => exact h.event

/-- A poll appends itself to the history. -/
theorem polling_readings {session next : Session} {readings : Readings}
    (hstep : polling.step session readings = .ok next) :
    next.history.map Entry.readings = session.history.map Entry.readings ++ [readings] := by
  rcases hpoll : tsNs2009Poll session.pdata readings with fault | ⟨after, log⟩
  · simp only [polling, hpoll] at hstep
    cases hstep
  · simp only [polling, hpoll, ok_bind] at hstep
    cases hstep
    simp

theorem Run.readings {first last : Session} {polls : List Readings}
    (hrun : polling.Run first polls last) :
    last.history.map Entry.readings = first.history.map Entry.readings ++ polls := by
  induction hrun with
  | nil _ => simp
  | cons _ hstep _ ih => rw [ih, polling_readings hstep, List.append_assoc]; rfl

theorem polling_progress {cal : Fin 7 → ℤ} (session : Session) (readings : Readings)
    (h : Consistent cal session) : polling.enabled session readings ∧
      ∃ next, polling.step session readings = .ok next ∧ Consistent cal next := by
  obtain ⟨after, log, hpoll, hready, hstep, _⟩ := poll_cases h.ready readings
  refine ⟨trivial, ⟨after, session.history ++ [⟨readings, log⟩]⟩, ?_, hready,
    PollStep.wellFormed h hstep, h.faithful.append (PollStep.faithful h hstep),
    PollStep.position h hstep, PollStep.event h hstep⟩
  simp only [polling, hpoll, ok_bind]
  rfl

/-- **Contacts are well formed and independent.** Whatever the bus replies, every sequence of polls
of a probed driver returns, its events are whole contacts followed by an open one exactly while the
press flag is set, every event carries the position it should, and the record of the driver is the
last event. -/
theorem contacts_well_formed (cal : Fin 7 → ℤ) (stale : StaleArrays) (polls : List Readings) :
    ∃ session, polling.Run (probed cal stale) polls session ∧
      session.history.map Entry.readings = polls ∧
      (session.pdata.press = 0 ∨ session.pdata.press = 1) ∧
      WellFormed (kinds session.history) (session.pdata.press = 1) ∧
      AllFaithful cal session.history ∧ session.pdata.event = lastPushed session.history := by
  obtain ⟨session, hrun, hconsistent⟩ :=
    System.Run.exists_of_progress polling_progress (probed_consistent cal stale) polls
  refine ⟨session, hrun, ?_, hconsistent.ready.press_bool, hconsistent.wellFormed,
    hconsistent.faithful, hconsistent.event⟩
  simpa [probed] using Run.readings hrun

end K210Firmware.Touch.Contacts
