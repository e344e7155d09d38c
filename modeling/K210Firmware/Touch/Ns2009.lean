import K210Firmware.Touch.Filter

/-!
# The NS2009 touch driver

One poll reads the pressure and, when it lies in the contact range, the two coordinates; each of
the three I2C transfers may fail. The driver keeps the filtered position, a press flag and the
last event record. `tsNs2009Poll` also returns what the poll did, so that a history of polls can
be compared with the contacts it should report. `poll_cases` lists everything a poll can do.
-/

namespace K210Firmware.Touch.Ns2009

open Memory Touch.Filter

/-- `enum event_type`. -/
inductive EventType
  | touchNone
  | touchBegin
  | touchMove
  | touchEnd
  deriving DecidableEq, Repr

/-- `struct ts_ns2009_event_t`. -/
structure TsEvent where
  type : EventType
  x : ℤ
  y : ℤ
  deriving DecidableEq, Repr

def TsEvent.point (event : TsEvent) : Point := ⟨event.x, event.y⟩

/-- `struct ts_ns2009_pdata_t`, with the two blocks it points to. -/
structure Pdata where
  filter : TsFilter
  event : TsEvent
  x : ℤ
  y : ℤ
  press : ℤ

def Pdata.point (pdata : Pdata) : Point := ⟨pdata.x, pdata.y⟩

/-- The two bytes of `ns2009_hal_i2c_recv`, or its failure. -/
abbrev I2cReply := Option (UInt8 × UInt8)

/-- The replies one poll meets; the coordinates are requested only during a contact. -/
structure Readings where
  z1 : I2cReply
  x : I2cReply
  y : I2cReply

/-- The return value and `*val` afterwards. -/
def ns2009Read (reply : I2cReply) (val : ℤ) : Bool × ℤ :=
  match reply with
  | none => (false, val)
  | some (high, low) => (true, ((high.toNat <<< 4 ||| low.toNat >>> 4 : ℕ) : ℤ))

/-- The coordinate a poll passes to the filter: zero when its transfer failed. -/
def raw (reply : I2cReply) : ℤ := (ns2009Read reply 0).2

def pushEventBegin (x y : ℤ) : TsEvent := ⟨.touchBegin, x, y⟩

def pushEventMove (x y : ℤ) : TsEvent := ⟨.touchMove, x, y⟩

def pushEventEnd (x y : ℤ) : TsEvent := ⟨.touchEnd, x, y⟩

def pushEventNone : TsEvent := ⟨.touchNone, 0, 0⟩

/-- What a poll did: the filter output it obtained and the event it pushed. -/
structure PollLog where
  filtered : Option Point
  pushed : Option TsEvent

/-- Pushing an event overwrites the record; not pushing one leaves the previous event there. -/
def Pdata.withEvent (pdata : Pdata) (pushed : Option TsEvent) : Pdata :=
  { pdata with event := pushed.getD pdata.event }

/-- The branch of a poll whose pressure lies in the contact range. -/
def contactPoll (pdata : Pdata) (readings : Readings) : Except Fault (Pdata × PollLog) := do
  let (point, filter) ← tsfilterUpdate pdata.filter (raw readings.x) (raw readings.y)
  let pushed :=
    if pdata.press = 0 then some (pushEventBegin point.x point.y)
    else if pdata.x ≠ point.x ∨ pdata.y ≠ point.y then some (pushEventMove point.x point.y)
    else none
  let press := if pdata.press = 0 then 1 else pdata.press
  return ({ pdata.withEvent pushed with filter, press, x := point.x, y := point.y },
    ⟨some point, pushed⟩)

/-- The branch of a poll whose pressure lies outside the contact range. -/
def releasePoll (pdata : Pdata) : Pdata × PollLog :=
  if pdata.press ≠ 0 then
    let pushed := some (pushEventEnd pdata.x pdata.y)
    ({ pdata.withEvent pushed with filter := tsfilterClear pdata.filter, press := 0 },
      ⟨none, pushed⟩)
  else (pdata, ⟨none, none⟩)

def tsNs2009Poll (pdata : Pdata) (readings : Readings) : Except Fault (Pdata × PollLog) :=
  let (received, z1) := ns2009Read readings.z1 0
  if received then
    if z1 > 70 ∧ z1 < 2000 then contactPoll pdata readings else return releasePoll pdata
  else return (pdata.withEvent (some pushEventNone), ⟨none, some pushEventNone⟩)

/-- A `ts_ns2009_probe` whose transfer and allocations succeed. -/
def tsNs2009Probe (cal : Fin 7 → ℤ) (stale : StaleArrays) : Pdata where
  filter := tsfilterSetcal (tsfilterAlloc 5 5 stale) cal
  event := ⟨.touchNone, 0, 0⟩
  x := 0
  y := 0
  press := 0

/-! ## What a poll can do -/

/-- The largest value of a 12-bit conversion. -/
def sampleMax : ℤ := 4095

/-- Two reply bytes make a 12-bit value. -/
theorem raw_bounds (reply : I2cReply) : 0 ≤ raw reply ∧ raw reply ≤ sampleMax := by
  cases reply with
  | none => exact ⟨le_rfl, by decide⟩
  | some bytes =>
    obtain ⟨high, low⟩ := bytes
    have hhigh : high.toNat <<< 4 < 2 ^ 12 := by
      rw [Nat.shiftLeft_eq]
      have := high.toNat_lt
      omega
    have hlow : low.toNat >>> 4 < 2 ^ 12 := by
      rw [Nat.shiftRight_eq_div_pow]
      have := low.toNat_lt
      omega
    have hor := Nat.or_lt_two_pow hhigh hlow
    change 0 ≤ ((high.toNat <<< 4 ||| low.toNat >>> 4 : ℕ) : ℤ) ∧
      ((high.toNat <<< 4 ||| low.toNat >>> 4 : ℕ) : ℤ) ≤ 4095
    omega

/-- The pressure transfer failed. -/
def Readings.pressureFailed (readings : Readings) : Prop := readings.z1 = none

/-- The state of the filters and the press flag between polls: a pen that is up has left no
sample behind. -/
structure Ready (cal : Fin 7 → ℤ) (pdata : Pdata) : Prop where
  valid : Valid sampleMax pdata.filter
  cal_eq : pdata.filter.cal = cal
  press_bool : pdata.press = 0 ∨ pdata.press = 1
  empty : pdata.press = 0 → Empty pdata.filter

/-- Everything one poll can do to a ready driver. -/
inductive PollStep (cal : Fin 7 → ℤ) (pdata : Pdata) (readings : Readings) :
    Pdata → PollLog → Prop
  | failed (after : Pdata) : readings.pressureFailed →
      after = pdata.withEvent (some pushEventNone) →
        PollStep cal pdata readings after ⟨none, some pushEventNone⟩
  | begun (after : Pdata) (point : Point) : ¬ readings.pressureFailed → pdata.press = 0 →
      after.press = 1 → after.point = point →
      point = calibrate cal (raw readings.x) (raw readings.y) →
      after.event = pushEventBegin point.x point.y →
        PollStep cal pdata readings after ⟨some point, some (pushEventBegin point.x point.y)⟩
  | moved (after : Pdata) (point : Point) : ¬ readings.pressureFailed → pdata.press = 1 →
      after.press = 1 → after.point = point → pdata.point ≠ point →
      after.event = pushEventMove point.x point.y →
        PollStep cal pdata readings after ⟨some point, some (pushEventMove point.x point.y)⟩
  | held (after : Pdata) (point : Point) : ¬ readings.pressureFailed → pdata.press = 1 →
      after.press = 1 → after.point = point → pdata.point = point → after.event = pdata.event →
        PollStep cal pdata readings after ⟨some point, none⟩
  | ended (after : Pdata) : ¬ readings.pressureFailed → pdata.press = 1 → after.press = 0 →
      after.event = pushEventEnd pdata.x pdata.y →
        PollStep cal pdata readings after ⟨none, some (pushEventEnd pdata.x pdata.y)⟩
  | idle : ¬ readings.pressureFailed → pdata.press = 0 →
      PollStep cal pdata readings pdata ⟨none, none⟩

theorem tsNs2009Probe_ready (cal : Fin 7 → ℤ) (stale : StaleArrays) :
    Ready cal (tsNs2009Probe cal stale) where
  valid := tsfilterAlloc_valid (by decide) (by decide) stale cal sampleMax
  cal_eq := rfl
  press_bool := .inl rfl
  empty _ := tsfilterAlloc_empty 5 5 stale cal

/-- A position the filter can produce: the calibrated image of two 12-bit values. -/
def InImage (cal : Fin 7 → ℤ) (point : Point) : Prop :=
  ∃ tx ty, (0 ≤ tx ∧ tx ≤ sampleMax) ∧ (0 ≤ ty ∧ ty ≤ sampleMax) ∧ point = calibrate cal tx ty

theorem contactPoll_cases {cal : Fin 7 → ℤ} {pdata : Pdata} (h : Ready cal pdata)
    {readings : Readings} (hreceived : ¬ readings.pressureFailed) :
    ∃ after log, contactPoll pdata readings = .ok (after, log) ∧ Ready cal after ∧
      PollStep cal pdata readings after log ∧
      ∀ point, log.filtered = some point → InImage cal point := by
  obtain ⟨tx, ty, filter, hupdate, hvalid, hcal, htx, hty, hempty⟩ :=
    tsfilterUpdate_spec h.valid (by decide) (raw_bounds readings.x) (raw_bounds readings.y)
  rw [h.cal_eq] at hupdate hcal
  have himage : InImage cal (calibrate cal tx ty) := ⟨tx, ty, htx, hty, rfl⟩
  set point := calibrate cal tx ty with hpoint
  have hrun : contactPoll pdata readings = .ok
      ({ pdata.withEvent (if pdata.press = 0 then some (pushEventBegin point.x point.y)
          else if pdata.x ≠ point.x ∨ pdata.y ≠ point.y then some (pushEventMove point.x point.y)
          else none) with
        filter := filter
        press := if pdata.press = 0 then 1 else pdata.press
        x := point.x
        y := point.y },
      ⟨some point, if pdata.press = 0 then some (pushEventBegin point.x point.y)
          else if pdata.x ≠ point.x ∨ pdata.y ≠ point.y then some (pushEventMove point.x point.y)
          else none⟩) := by
    simp only [contactPoll, hupdate, ok_bind]
    rfl
  refine ⟨_, _, hrun, ?_, ?_, fun other hother ↦ ?_⟩
  · rcases h.press_bool with hpress | hpress
    · refine ⟨hvalid, hcal, .inr (by simp [hpress]), fun hup ↦ ?_⟩
      simp [hpress] at hup
    · refine ⟨hvalid, hcal, .inr (by simp [hpress]), fun hup ↦ ?_⟩
      simp [hpress] at hup
  · rcases h.press_bool with hpress | hpress
    · simp only [hpress, if_true]
      obtain ⟨rfl, rfl⟩ := hempty (h.empty hpress)
      exact .begun _ point hreceived hpress rfl rfl hpoint rfl
    · simp only [hpress, one_ne_zero, if_false]
      by_cases hsame : pdata.point = point
      · have hx : pdata.x = point.x := congrArg Point.x hsame
        have hy : pdata.y = point.y := congrArg Point.y hsame
        rw [if_neg (by simp [hx, hy])]
        exact .held _ point hreceived hpress rfl rfl hsame rfl
      · have hne : pdata.x ≠ point.x ∨ pdata.y ≠ point.y := by
          by_contra hboth
          push Not at hboth
          exact hsame (congrArg₂ Point.mk hboth.1 hboth.2)
        rw [if_pos hne]
        exact .moved _ point hreceived hpress rfl rfl hsame rfl
  · rw [← Option.some.inj hother]
    exact himage

theorem releasePoll_cases {cal : Fin 7 → ℤ} {pdata : Pdata} (h : Ready cal pdata)
    {readings : Readings} (hreceived : ¬ readings.pressureFailed) :
    Ready cal (releasePoll pdata).1 ∧
      PollStep cal pdata readings (releasePoll pdata).1 (releasePoll pdata).2 ∧
      (releasePoll pdata).2.filtered = none := by
  rcases h.press_bool with hpress | hpress
  · rw [releasePoll, if_neg (by simp [hpress])]
    exact ⟨h, .idle hreceived hpress, rfl⟩
  · rw [releasePoll, if_pos (by simp [hpress])]
    exact ⟨⟨h.valid.clear, h.cal_eq, .inl rfl, fun _ ↦ tsfilterClear_empty pdata.filter⟩,
      .ended _ hreceived hpress rfl rfl, rfl⟩

/-- **One poll.** A ready driver always returns, ready again, having done one of `PollStep`. -/
theorem poll_cases {cal : Fin 7 → ℤ} {pdata : Pdata} (h : Ready cal pdata) (readings : Readings) :
    ∃ after log, tsNs2009Poll pdata readings = .ok (after, log) ∧ Ready cal after ∧
      PollStep cal pdata readings after log ∧
      ∀ point, log.filtered = some point → InImage cal point := by
  rcases hz1 : readings.z1 with _ | ⟨high, low⟩
  · refine ⟨pdata.withEvent (some pushEventNone), ⟨none, some pushEventNone⟩, ?_,
      ⟨h.valid, h.cal_eq, h.press_bool, h.empty⟩, .failed _ hz1 rfl, fun point hpoint ↦ ?_⟩
    · simp only [tsNs2009Poll, ns2009Read, hz1]
      rfl
    · cases hpoint
  have hreceived : ¬ readings.pressureFailed := by
    simp [Readings.pressureFailed, hz1]
  simp only [tsNs2009Poll, ns2009Read, hz1, if_true]
  split_ifs with hrange
  · exact contactPoll_cases h hreceived
  · obtain ⟨hready, hstep, hfiltered⟩ := releasePoll_cases h hreceived
    refine ⟨(releasePoll pdata).1, (releasePoll pdata).2, rfl, hready, hstep, fun point hpoint ↦ ?_⟩
    rw [hfiltered] at hpoint
    cases hpoint

end K210Firmware.Touch.Ns2009
