import K210Firmware.Touch.Contacts
import K210Firmware.Touch.Input

/-!
# Polls with a failed transfer

A failed pressure transfer leaves the filters, the press flag and the position as they were and
empties the event record. The transfers of the coordinates are not checked, although
`ns2009_read` reports them in the same way: a coordinate that could not be read enters the filters
as a zero. So a failed sample leaves the driver alone exactly when the failure is not one of a
coordinate.
-/

namespace K210Firmware.Touch.FailedSample

open Memory Touch.Filter Median Ns2009 Contacts Input Transition

/-- A driver between two polls, with the windows that `ts_ns2009_probe` allocates. -/
structure Driver (cal : Fin 7 → ℤ) where
  pdata : Pdata
  ready : Ready cal pdata
  window : pdata.filter.mx.length = 5

/-- The pressure was received and lies in the contact range. -/
def InRange (readings : Readings) : Prop :=
  (ns2009Read readings.z1 0).1 = true ∧
    ((ns2009Read readings.z1 0).2 > 70 ∧ (ns2009Read readings.z1 0).2 < 2000)

/-- The poll requests the coordinates and does not receive both. -/
def CoordinateFailed (readings : Readings) : Prop :=
  InRange readings ∧ (readings.x = none ∨ readings.y = none)

/-- Some transfer that the poll makes fails. -/
def SampleFailed (readings : Readings) : Prop :=
  readings.pressureFailed ∨ CoordinateFailed readings

/-- Nothing but the event record differs, and that only if it was emptied. -/
structure Alone (before after : Pdata) : Prop where
  filter : after.filter = before.filter
  press : after.press = before.press
  x : after.x = before.x
  y : after.y = before.y
  event : after.event = before.event ∨ after.event.type = .touchNone

/-- The poll returns and leaves the state alone. -/
def LeavesAlone (pdata : Pdata) (readings : Readings) : Prop :=
  ∃ after log, tsNs2009Poll pdata readings = .ok (after, log) ∧ Alone pdata after

/-! ## What a poll does to the filters -/

theorem medianUpdate_of_tsfilterUpdate {filter after : TsFilter} {x y : ℤ} {point : Point}
    (hrun : tsfilterUpdate filter x y = .ok (point, after)) :
    ∃ middle, medianUpdate filter.mx x = .ok (middle, after.mx) := by
  obtain ⟨⟨middle, mx⟩, hmx, hrun⟩ := bind_eq_ok.mp hrun
  obtain ⟨⟨_, my⟩, _, hrun⟩ := bind_eq_ok.mp hrun
  obtain ⟨⟨_, nx⟩, _, hrun⟩ := bind_eq_ok.mp hrun
  obtain ⟨⟨_, ny⟩, _, hrun⟩ := bind_eq_ok.mp hrun
  cases hrun
  exact ⟨middle, hmx⟩

/-- A poll feeds the filters exactly when the pressure lies in the contact range. -/
theorem filter_of_poll {pdata after : Pdata} {readings : Readings} {log : PollLog}
    (hrun : tsNs2009Poll pdata readings = .ok (after, log)) :
    (InRange readings ∧
      ∃ point, tsfilterUpdate pdata.filter (raw readings.x) (raw readings.y) =
        .ok (point, after.filter)) ∨
    (¬ InRange readings ∧
      (after.filter = pdata.filter ∨ after.filter = tsfilterClear pdata.filter)) := by
  rcases hz1 : ns2009Read readings.z1 0 with ⟨received, z1⟩
  simp only [tsNs2009Poll, hz1] at hrun
  simp only [InRange, hz1]
  split_ifs at hrun with hreceived hrange
  · left
    obtain ⟨⟨point, filter⟩, hupdate, hrun⟩ := bind_eq_ok.mp hrun
    cases hrun
    exact ⟨⟨hreceived, hrange⟩, point, hupdate⟩
  · right
    have hafter : after = (releasePoll pdata).1 := congrArg Prod.fst (Except.ok.inj hrun).symm
    refine ⟨fun h ↦ hrange h.2, ?_⟩
    rw [hafter, releasePoll]
    split_ifs
    · exact .inr rfl
    · exact .inl rfl
  · right
    cases hrun
    exact ⟨fun h ↦ hreceived h.1, .inl rfl⟩

/-- The x median after a sample: its ring has moved on. -/
theorem mx_of_update {cal : Fin 7 → ℤ} {pdata : Pdata} (h : Ready cal pdata) {x y : ℤ}
    (hx : 0 ≤ x ∧ x ≤ sampleMax) {point : Point} {after : TsFilter}
    (hrun : tsfilterUpdate pdata.filter x y = .ok (point, after)) :
    after.mx.length = pdata.filter.mx.length ∧ after.mx.position =
      if pdata.filter.mx.position + 1 = pdata.filter.mx.length then 0
      else pdata.filter.mx.position + 1 := by
  obtain ⟨middle, hmx⟩ := medianUpdate_of_tsfilterUpdate hrun
  obtain ⟨_, _, hspec, hupdated, _⟩ := medianUpdate_spec h.valid.mx (by decide) hx
  rw [hmx] at hspec
  cases hspec
  exact ⟨hupdated.length, hupdated.position⟩

/-- The windows keep their lengths. -/
theorem window_of_poll {cal : Fin 7 → ℤ} {pdata after : Pdata} (h : Ready cal pdata)
    {readings : Readings} {log : PollLog} (hrun : tsNs2009Poll pdata readings = .ok (after, log)) :
    after.filter.mx.length = pdata.filter.mx.length := by
  rcases filter_of_poll hrun with ⟨_, point, hupdate⟩ | ⟨_, hsame | hclear⟩
  · exact (mx_of_update h (raw_bounds readings.x) hupdate).1
  · rw [hsame]
  · rw [hclear]
    rfl

/-- Every state that polling reaches is one of a driver. -/
theorem exists_driver {cal : Fin 7 → ℤ} {stale : StaleArrays} {polls : List Readings}
    {session : Session} (hrun : polling.Run (probed cal stale) polls session) :
    ∃ driver : Driver cal, driver.pdata = session.pdata := by
  let kept (session : Session) : Prop :=
    Ready cal session.pdata ∧ session.pdata.filter.mx.length = 5
  suffices hkept : kept session from ⟨⟨session.pdata, hkept.1, hkept.2⟩, rfl⟩
  refine hrun.invariant (fun session readings next ⟨hready, hwindow⟩ _ hstep ↦ ?_)
    ⟨tsNs2009Probe_ready cal stale, rfl⟩
  obtain ⟨after, log, hpoll, hafter, _⟩ := poll_cases hready readings
  simp only [polling, hpoll, ok_bind] at hstep
  cases hstep
  exact ⟨hafter, (window_of_poll hready hpoll).trans hwindow⟩

/-! ## One poll -/

/-- A sample that reaches the filters changes them. -/
theorem not_leavesAlone_of_inRange {cal : Fin 7 → ℤ} (driver : Driver cal) {readings : Readings}
    (hrange : InRange readings) : ¬ LeavesAlone driver.pdata readings := by
  rintro ⟨after, log, hrun, halone⟩
  rcases filter_of_poll hrun with ⟨_, point, hupdate⟩ | ⟨hout, _⟩
  · have hposition := (mx_of_update driver.ready (raw_bounds readings.x) hupdate).2
    have hlower := driver.ready.valid.mx.position_nonneg
    rw [halone.filter, driver.window] at hposition
    split_ifs at hposition <;> omega
  · exact hout hrange

theorem leavesAlone_of_pressureFailed (pdata : Pdata) {readings : Readings}
    (hfailed : readings.pressureFailed) : LeavesAlone pdata readings := by
  refine ⟨pdata.withEvent (some pushEventNone), ⟨none, some pushEventNone⟩, ?_,
    ⟨rfl, rfl, rfl, rfl, .inr rfl⟩⟩
  simp only [tsNs2009Poll, ns2009Read, show readings.z1 = none from hfailed]
  rfl

/-- **A failed sample leaves the touch state alone** exactly when the failed transfer is not one of
a coordinate. -/
theorem failed_sample_iff {cal : Fin 7 → ℤ} (driver : Driver cal) (readings : Readings) :
    (SampleFailed readings → LeavesAlone driver.pdata readings) ↔
      ¬ CoordinateFailed readings := by
  constructor
  · intro h hcoordinate
    exact not_leavesAlone_of_inRange driver hcoordinate.1 (h (.inr hcoordinate))
  · rintro hcoordinate (hpressure | hfailed)
    · exact leavesAlone_of_pressureFailed driver.pdata hpressure
    · exact absurd hfailed hcoordinate

/-- A first contact at pressure 800 whose x transfer fails. -/
def lostCoordinate : Readings := ⟨some (50, 0), none, some (128, 0)⟩

/-- The poll reports a contact and counts the zero as a sample. -/
theorem lost_coordinate_is_sampled :
    SampleFailed lostCoordinate ∧
      ¬ LeavesAlone (tsNs2009Probe calibration zeroArrays) lostCoordinate := by
  refine ⟨.inr ⟨⟨rfl, by decide⟩, .inl rfl⟩, fun h ↦ ?_⟩
  obtain ⟨after, log, hrun, halone⟩ := h
  obtain ⟨sampled, hsampled, hpress⟩ :
      ∃ sampled, tsNs2009Poll (tsNs2009Probe calibration zeroArrays) lostCoordinate = .ok sampled ∧
        sampled.1.press = 1 := ⟨_, rfl, rfl⟩
  rw [hsampled] at hrun
  cases hrun
  exact absurd (hpress.symm.trans halone.press) (by decide)

end K210Firmware.Touch.FailedSample
