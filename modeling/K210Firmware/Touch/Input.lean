import K210Firmware.Library.Transition
import K210Firmware.Touch.Ns2009

/-!
# The pointer seen by the graphics library

`input_read` asks `touchscreen_read` for a status and a position, remembers in a static flag
whether the pen is down, and hands both to LVGL. Three layers thus keep a notion of contact of
their own: the press flag of the driver, the event record that outlives a poll, and the static
flag. The press state always agrees. The position does not: a failed pressure transfer overwrites
the event record, and the pointer is then reported at the origin while it is still pressed.
`agrees_iff` says that this is the only way the pointer and the driver part.
-/

namespace K210Firmware.Touch.Input

open Memory Touch.Filter Ns2009 Transition

/-- The calibration in `drv_touchscreen.c`. -/
def calibration : Fin 7 → ℤ := ![-20, -5806, 21542188, 4056, 66, -361856, 65536]

/-- `touchscreen_type_t`. -/
inductive TouchscreenType
  | idle
  | release
  | press
  | move
  deriving DecidableEq, Repr

/-- The value stored through the `int` pointer. -/
def TouchscreenType.code : TouchscreenType → ℤ
  | idle => 0
  | release => 1
  | press => 2
  | move => 3

/-- What `touchscreen_read` leaves behind its three pointers; an empty event stores no type. -/
def readEvent (event : TsEvent) (type : ℤ) : ℤ × Point :=
  match event.type with
  | .touchBegin => (TouchscreenType.press.code, event.point)
  | .touchMove => (TouchscreenType.move.code, event.point)
  | .touchEnd => (TouchscreenType.release.code, event.point)
  | .touchNone => (type, ⟨0, 0⟩)

def touchscreenRead (pdata : Pdata) (readings : Readings) (type : ℤ) :
    Except Fault (Pdata × ℤ × Point) := do
  let (pdata, _) ← tsNs2009Poll pdata readings
  return (pdata, readEvent pdata.event type)

inductive LvIndevState
  | rel
  | pr
  deriving DecidableEq, Repr

/-- The fields of `lv_indev_data_t` that `input_read` sets. -/
structure LvIndevData where
  point : Point
  state : LvIndevState
  deriving DecidableEq, Repr

/-- The conversion of an `int` to `lv_coord_t`, a 16-bit integer. -/
def lvCoord (value : ℤ) : ℤ := value.bmod (2 ^ 16)

/-- The driver, the static flag of `input_read`, and what its last call reported. -/
structure Pointer where
  pdata : Pdata
  touchDown : Bool
  data : LvIndevData

/-- The static flag after a status: only a press and a release change it. -/
def nextTouchDown (touchDown : Bool) (status : ℤ) : Bool :=
  if status = TouchscreenType.press.code then true
  else if status = TouchscreenType.release.code then false
  else touchDown

def inputRead (pointer : Pointer) (readings : Readings) : Except Fault Pointer := do
  let (pdata, status, point) ← touchscreenRead pointer.pdata readings TouchscreenType.idle.code
  let touchDown := nextTouchDown pointer.touchDown status
  let state := if touchDown then LvIndevState.pr else LvIndevState.rel
  return ⟨pdata, touchDown, ⟨⟨lvCoord point.x, lvCoord point.y⟩, state⟩⟩

/-- Successive calls of `input_read`. -/
def reading : System Pointer Readings Fault where
  enabled _ _ := True
  step := inputRead

/-- The state after `drv_touchscreen_init` and before the first call. -/
def boot (stale : StaleArrays) (data : LvIndevData) : Pointer :=
  ⟨tsNs2009Probe calibration stale, false, data⟩

/-- The call returned, the reported state is the press flag, and a pressed pointer is where the
driver is. -/
def Agrees (outcome : Except Fault Pointer) : Prop :=
  ∃ after, outcome = .ok after ∧ (after.data.state = .pr ↔ after.pdata.press = 1) ∧
    (after.data.state = .pr → after.data.point = after.pdata.point)

/-- A pressure transfer fails during a contact at a position other than the origin. -/
def LosesContact (pointer : Pointer) (readings : Readings) : Prop :=
  readings.pressureFailed ∧ pointer.pdata.press = 1 ∧ pointer.pdata.point ≠ ⟨0, 0⟩

/-! ## Screen coordinates -/

/-- A truncated quotient stays within the bounds of its dividend. -/
theorem tdiv_bounds (dividend divisor bound : ℤ) (hdivisor : 0 < divisor) (hbound : 0 ≤ bound)
    (hlower : -(bound * divisor) ≤ dividend) (hupper : dividend ≤ bound * divisor) :
    -bound ≤ dividend.tdiv divisor ∧ dividend.tdiv divisor ≤ bound := by
  rcases le_total 0 dividend with hsign | hsign
  · rw [Int.tdiv_eq_ediv_of_nonneg hsign]
    have hnonneg := Int.ediv_nonneg hsign hdivisor.le
    exact ⟨by omega, Int.ediv_le_of_le_mul hdivisor hupper⟩
  · obtain ⟨magnitude, rfl⟩ : ∃ magnitude, dividend = -magnitude := ⟨-dividend, by omega⟩
    have hmagnitude : 0 ≤ magnitude := by omega
    rw [Int.neg_tdiv, Int.tdiv_eq_ediv_of_nonneg hmagnitude]
    have hnonneg := Int.ediv_nonneg hmagnitude hdivisor.le
    have hle := Int.ediv_le_of_le_mul hdivisor (show magnitude ≤ bound * divisor by omega)
    exact ⟨by omega, by omega⟩

/-- Every position the shipped calibration produces survives the conversion to `lv_coord_t`. -/
theorem lvCoord_of_inImage {point : Point} (h : InImage calibration point) :
    lvCoord point.x = point.x ∧ lvCoord point.y = point.y := by
  obtain ⟨tx, ty, ⟨htx, htx'⟩, ⟨hty, hty'⟩, rfl⟩ := h
  have hx : (calibrate calibration tx ty).x = (21542188 + -20 * tx + -5806 * ty).tdiv 65536 := rfl
  have hy : (calibrate calibration tx ty).y = (-361856 + 4056 * tx + 66 * ty).tdiv 65536 := rfl
  simp only [sampleMax] at htx' hty'
  have hxbounds := tdiv_bounds (21542188 + -20 * tx + -5806 * ty) 65536 400 (by decide) (by decide)
    (by omega) (by omega)
  have hybounds := tdiv_bounds (-361856 + 4056 * tx + 66 * ty) 65536 400 (by decide) (by decide)
    (by omega) (by omega)
  rw [lvCoord, lvCoord, hx, hy]
  exact ⟨Int.bmod_eq_of_le (by omega) (by omega), Int.bmod_eq_of_le (by omega) (by omega)⟩

/-! ## The event record during a contact -/

/-- The event record of a driver that has lost no contact: it holds the current position, or it is
empty and the current position is the origin. -/
def EventCurrent (pdata : Pdata) : Prop :=
  ((pdata.event.type = .touchBegin ∨ pdata.event.type = .touchMove) ∧
      pdata.event.point = pdata.point) ∨
    (pdata.event.type = .touchNone ∧ pdata.point = ⟨0, 0⟩)

/-- What holds between calls as long as no contact has been lost. -/
structure InStep (pointer : Pointer) : Prop where
  ready : Ready calibration pointer.pdata
  down : pointer.touchDown = true ↔ pointer.pdata.press = 1
  current : pointer.pdata.press = 1 → EventCurrent pointer.pdata
  onScreen : pointer.pdata.press = 1 → InImage calibration pointer.pdata.point
  quiet : pointer.pdata.press = 0 →
    pointer.pdata.event.type = .touchNone ∨ pointer.pdata.event.type = .touchEnd

theorem boot_inStep (stale : StaleArrays) (data : LvIndevData) : InStep (boot stale data) where
  ready := tsNs2009Probe_ready calibration stale
  down := by simp [boot, tsNs2009Probe]
  current hpress := by simp [boot, tsNs2009Probe] at hpress
  onScreen hpress := by simp [boot, tsNs2009Probe] at hpress
  quiet _ := .inl rfl

/-! ## One call -/

/-- The flag and the position a call takes from the event record its poll left. -/
def flagAfter (pointer : Pointer) (after : Pdata) : Bool :=
  nextTouchDown pointer.touchDown (readEvent after.event TouchscreenType.idle.code).1

def pointAfter (after : Pdata) : Point := (readEvent after.event TouchscreenType.idle.code).2

theorem inputRead_eq {pointer : Pointer} {readings : Readings} {after : Pdata} {log : PollLog}
    (hpoll : tsNs2009Poll pointer.pdata readings = .ok (after, log)) :
    inputRead pointer readings = .ok ⟨after, flagAfter pointer after,
      ⟨⟨lvCoord (pointAfter after).x, lvCoord (pointAfter after).y⟩,
        if flagAfter pointer after then .pr else .rel⟩⟩ := by
  simp only [inputRead, touchscreenRead, hpoll, ok_bind]
  rfl

theorem pointAfter_of_current {after : Pdata} (h : EventCurrent after) :
    pointAfter after = after.point := by
  rcases h with ⟨htype | htype, hpoint⟩ | ⟨htype, hpoint⟩
  · simpa [pointAfter, readEvent, htype] using hpoint
  · simpa [pointAfter, readEvent, htype] using hpoint
  · simpa [pointAfter, readEvent, htype] using hpoint.symm

/-- A current event record leaves the flag of a pen that is down as it was. -/
theorem flagAfter_of_current {pointer : Pointer} {after : Pdata} (h : EventCurrent after)
    (hdown : pointer.touchDown = true) : flagAfter pointer after = true := by
  rcases h with ⟨htype | htype, _⟩ | ⟨htype, _⟩ <;>
    simp [flagAfter, nextTouchDown, readEvent, htype, hdown, TouchscreenType.code]

/-- The static flag follows the press flag through every kind of poll. -/
theorem flagAfter_iff {pointer : Pointer} (h : InStep pointer) {readings : Readings}
    {after : Pdata} {log : PollLog}
    (hstep : PollStep calibration pointer.pdata readings after log) :
    flagAfter pointer after = true ↔ after.press = 1 := by
  cases hstep with
  | failed _ _ hafter =>
    subst hafter
    simpa [flagAfter, nextTouchDown, readEvent, Pdata.withEvent, pushEventNone,
      TouchscreenType.code] using h.down
  | begun _ point _ _ hpress _ _ hevent =>
    simp [flagAfter, nextTouchDown, readEvent, hevent, pushEventBegin, hpress]
  | moved _ point _ hdown hpress _ _ hevent =>
    simp [flagAfter, nextTouchDown, readEvent, hevent, pushEventMove, TouchscreenType.code,
      hpress, h.down.mpr hdown]
  | held _ point _ hdown hpress hpoint hsame hevent =>
    have hcurrent : EventCurrent after := by
      simpa only [EventCurrent, hevent, hpoint, hsame] using h.current hdown
    simp [flagAfter_of_current hcurrent (h.down.mpr hdown), hpress]
  | ended _ _ _ hpress hevent =>
    simp [flagAfter, nextTouchDown, readEvent, hevent, pushEventEnd, TouchscreenType.code, hpress]
  | idle _ hpress =>
    have hflag : pointer.touchDown = false := by
      rw [← Bool.not_eq_true, h.down]
      omega
    rcases h.quiet hpress with htype | htype <;>
      simp [flagAfter, nextTouchDown, readEvent, htype, TouchscreenType.code, hpress, hflag]

/-- A poll that loses no contact leaves a current event record during a contact. -/
theorem current_after {pointer : Pointer} (h : InStep pointer) {readings : Readings}
    {after : Pdata} {log : PollLog}
    (hstep : PollStep calibration pointer.pdata readings after log)
    (hkept : ¬ LosesContact pointer readings) (hpress : after.press = 1) : EventCurrent after := by
  cases hstep with
  | failed _ hfailed hafter =>
    subst hafter
    have hpoint : pointer.pdata.point = ⟨0, 0⟩ := by
      by_contra hne
      exact hkept ⟨hfailed, hpress, hne⟩
    exact .inr ⟨rfl, hpoint⟩
  | begun _ point _ _ _ hpoint _ hevent =>
    exact .inl ⟨.inl (by rw [hevent]; rfl), by rw [hevent, hpoint]; rfl⟩
  | moved _ point _ _ _ hpoint _ hevent =>
    exact .inl ⟨.inr (by rw [hevent]; rfl), by rw [hevent, hpoint]; rfl⟩
  | held _ point _ hdown _ hpoint hsame hevent =>
    simpa only [EventCurrent, hevent, hpoint, hsame] using h.current hdown
  | ended _ _ _ hup _ => omega
  | idle _ hup => omega

theorem onScreen_after {pointer : Pointer} (h : InStep pointer) {readings : Readings}
    {after : Pdata} {log : PollLog}
    (hstep : PollStep calibration pointer.pdata readings after log)
    (himage : ∀ point, log.filtered = some point → InImage calibration point)
    (hpress : after.press = 1) : InImage calibration after.point := by
  cases hstep with
  | failed _ _ hafter =>
    subst hafter
    exact h.onScreen hpress
  | begun _ point _ _ _ hpoint _ _ => exact hpoint ▸ himage point rfl
  | moved _ point _ _ _ hpoint _ _ => exact hpoint ▸ himage point rfl
  | held _ point _ _ _ hpoint _ _ => exact hpoint ▸ himage point rfl
  | ended _ _ _ hup _ => omega
  | idle _ hup => omega

theorem quiet_after {pointer : Pointer} (h : InStep pointer) {readings : Readings}
    {after : Pdata} {log : PollLog}
    (hstep : PollStep calibration pointer.pdata readings after log) (hpress : after.press = 0) :
    after.event.type = .touchNone ∨ after.event.type = .touchEnd := by
  cases hstep with
  | failed _ _ hafter =>
    subst hafter
    exact .inl rfl
  | begun _ point _ _ hdown _ _ _ => omega
  | moved _ point _ _ hdown _ _ _ => omega
  | held _ point _ _ hdown _ _ _ => omega
  | ended _ _ _ _ hevent => exact .inr (by rw [hevent]; rfl)
  | idle _ hup => exact h.quiet hup

/-- A call that loses no contact stays in step. -/
theorem inputRead_inStep {pointer next : Pointer} (h : InStep pointer) {readings : Readings}
    (hkept : ¬ LosesContact pointer readings) (hstep : inputRead pointer readings = .ok next) :
    InStep next := by
  obtain ⟨after, log, hpoll, hready, hcase, himage⟩ := poll_cases h.ready readings
  rw [inputRead_eq hpoll] at hstep
  cases hstep
  exact ⟨hready, flagAfter_iff h hcase, current_after h hcase hkept,
    onScreen_after h hcase himage, quiet_after h hcase⟩

/-- **One call.** From a state in step, the report agrees with the driver exactly when the call
does not lose the contact. -/
theorem agrees_step {pointer : Pointer} (h : InStep pointer) (readings : Readings) :
    Agrees (inputRead pointer readings) ↔ ¬ LosesContact pointer readings := by
  obtain ⟨after, log, hpoll, _, hcase, himage⟩ := poll_cases h.ready readings
  have hflag := flagAfter_iff h hcase
  rw [inputRead_eq hpoll]
  constructor
  · rintro ⟨_, ⟨⟩, hstate, hpoint⟩ ⟨hfailed, hpress, hne⟩
    have hafter : after = pointer.pdata.withEvent (some pushEventNone) := by
      cases hcase with
      | failed _ _ hafter => exact hafter
      | begun _ _ hreceived => exact absurd hfailed hreceived
      | moved _ _ hreceived => exact absurd hfailed hreceived
      | held _ _ hreceived => exact absurd hfailed hreceived
      | ended _ hreceived => exact absurd hfailed hreceived
      | idle hreceived => exact absurd hfailed hreceived
    subst hafter
    exact hne (hpoint (hstate.mpr hpress)).symm
  · intro hkept
    refine ⟨_, rfl, ?_, fun hstate ↦ ?_⟩
    · simpa using hflag
    · have hpress : after.press = 1 := hflag.mp (by simpa using hstate)
      obtain ⟨hx, hy⟩ := lvCoord_of_inImage (onScreen_after h hcase himage hpress)
      rw [pointAfter_of_current (current_after h hcase hkept hpress), hx, hy]

/-- **The pointer agrees with the driver** after every call of a history exactly when no call of it
loses a contact. -/
theorem agrees_iff (stale : StaleArrays) (data : LvIndevData) (calls : List Readings) :
    reading.Always (fun _ _ outcome ↦ Agrees outcome) (boot stale data) calls ↔
      reading.Guarded (fun pointer readings ↦ ¬ LosesContact pointer readings)
        (boot stale data) calls :=
  System.always_iff_guarded (fun _ readings hinStep _ ↦ agrees_step hinStep readings)
    (fun _ _ _ hinStep _ hkept hstep ↦ inputRead_inStep hinStep hkept hstep)
    (boot_inStep stale data)

/-! ## A lost contact -/

def zeroArrays : StaleArrays := ⟨0, 0, 0, 0, 0, 0⟩

/-- A first contact: pressure 800, raw position (2048, 2048). -/
def firstTouch : Readings := ⟨some (50, 0), some (128, 0), some (128, 0)⟩

/-- The pressure transfer of a poll fails. -/
def lostTransfer : Readings := ⟨none, none, none⟩

def atRest : LvIndevData := ⟨⟨0, 0⟩, .rel⟩

/-- The first contact, evaluated. -/
theorem firstTouch_pressed :
    ∃ touched, inputRead (boot zeroArrays atRest) firstTouch = .ok touched ∧
    touched.pdata.press = 1 ∧ touched.pdata.point = ⟨146, 123⟩ :=
  ⟨_, rfl, by decide, by decide⟩

/-- One failed transfer puts the pressed pointer at the origin. -/
theorem failed_transfer_moves_pointer :
    ¬ reading.Always (fun _ _ outcome ↦ Agrees outcome) (boot zeroArrays atRest)
      [firstTouch, lostTransfer] := by
  obtain ⟨touched, hstep, hpress, hpoint⟩ := firstTouch_pressed
  intro hagrees
  have htouch : InStep touched := by
    refine inputRead_inStep (boot_inStep zeroArrays atRest) (fun hlost ↦ ?_) hstep
    exact absurd hlost.1 (by simp [firstTouch, Readings.pressureFailed])
  have hlost : LosesContact touched lostTransfer :=
    ⟨rfl, hpress, by rw [hpoint]; decide⟩
  have hsecond := ((hagrees trivial).2 touched hstep trivial).1
  exact (agrees_step htouch lostTransfer).mp hsecond hlost

end K210Firmware.Touch.Input
