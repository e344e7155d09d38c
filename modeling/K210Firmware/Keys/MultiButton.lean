import K210Firmware.Library.Transducer
import Mathlib.Algebra.Group.Nat.Defs
import Mathlib.Tactic.MkIffOfInductiveProp
import Mathlib.Tactic.SplitIfs

/-!
# The keys of the board

`key_thread` calls `button_ticks` ten times a second, which reads the pin of every key and lets
`button_handler` count how long the key has been down or up. The counters are bit fields, and the
callbacks that are attached to the events are called on the way.
-/

namespace K210Firmware.MultiButton

open Transducer

def debounceTicks : ℕ := 0
def shortTicks : ℕ := 3
def longTicks : ℕ := 10

inductive PressEvent
  | pressDown
  | pressUp
  | pressRepeat
  | singleClick
  | doubleClick
  | longPressStart
  | longPressHold
  | nonePress
  deriving DecidableEq, Repr

/-- The functions that the firmware attaches: `button_callback` and `cancel_cb`. -/
inductive BtnCallback
  | buttonCallback
  | cancelCb
  deriving DecidableEq, Repr

/-- A call of a function with the event that is set at the time. -/
abbrev Call := PressEvent × BtnCallback

structure Button where
  /-- `uint16_t` -/
  ticks : ℕ
  /-- `repeat : 4` -/
  repeats : ℕ
  event : PressEvent
  /-- `state : 3` -/
  state : ℕ
  /-- `debounce_cnt : 3` -/
  debounceCnt : ℕ
  activeLevel : Bool
  buttonLevel : Bool
  cb : PressEvent → Option BtnCallback
  /-- The pin. -/
  user : ℕ

/-- `EVENT_CB(ev)` -/
def eventCb (cb : PressEvent → Option BtnCallback) (ev : PressEvent) : List Call :=
  ((cb ev).map fun function ↦ (ev, function)).toList

/-! ## The driver -/

def countTicks (handle : Button) : Button :=
  if 0 < handle.state then { handle with ticks := (handle.ticks + 1) % 2 ^ 16 } else handle

def debounce (handle : Button) (readGpioLevel : Bool) : Button :=
  if readGpioLevel ≠ handle.buttonLevel then
    let debounceCnt := (handle.debounceCnt + 1) % 2 ^ 3
    if debounceTicks ≤ debounceCnt then
      { handle with buttonLevel := readGpioLevel, debounceCnt := 0 }
    else { handle with debounceCnt }
  else { handle with debounceCnt := 0 }

/-- The `switch` of `button_handler`. -/
def stateMachine (handle : Button) : Button × List Call :=
  match handle.state with
  | 0 =>
      if handle.buttonLevel = handle.activeLevel then
        ({ handle with event := .pressDown, ticks := 0, repeats := 1, state := 1 },
          eventCb handle.cb .pressDown)
      else ({ handle with event := .nonePress }, [])
  | 1 =>
      if handle.buttonLevel ≠ handle.activeLevel then
        ({ handle with event := .pressUp, ticks := 0, state := 2 }, eventCb handle.cb .pressUp)
      else if longTicks < handle.ticks then
        ({ handle with event := .longPressStart, state := 5 }, eventCb handle.cb .longPressStart)
      else (handle, [])
  | 2 =>
      if handle.buttonLevel = handle.activeLevel then
        ({ handle with
          event := .pressRepeat
          repeats := (handle.repeats + 1) % 2 ^ 4
          ticks := 0
          state := 3 },
          eventCb handle.cb .pressDown ++ eventCb handle.cb .pressRepeat)
      else if shortTicks < handle.ticks then
        if handle.repeats = 1 then
          ({ handle with event := .singleClick, state := 0 }, eventCb handle.cb .singleClick)
        else if handle.repeats = 2 then
          ({ handle with event := .doubleClick, state := 0 }, eventCb handle.cb .doubleClick)
        else ({ handle with state := 0 }, [])
      else (handle, [])
  | 3 =>
      if handle.buttonLevel ≠ handle.activeLevel then
        if handle.ticks < shortTicks then
          ({ handle with event := .pressUp, ticks := 0, state := 2 }, eventCb handle.cb .pressUp)
        else ({ handle with event := .pressUp, state := 0 }, eventCb handle.cb .pressUp)
      else (handle, [])
  | 5 =>
      if handle.buttonLevel = handle.activeLevel then
        ({ handle with event := .longPressHold }, eventCb handle.cb .longPressHold)
      else ({ handle with event := .pressUp, state := 0 }, eventCb handle.cb .pressUp)
  | _ => (handle, [])

def buttonHandler (handle : Button) (readGpioLevel : Bool) : Button × List Call :=
  stateMachine (debounce (countTicks handle) readGpioLevel)

variable {handle : Button}

/-- Without ticks for debouncing every level counts at once. -/
theorem debounce_eq (handle : Button) (level : Bool) :
    debounce handle level = { handle with buttonLevel := level, debounceCnt := 0 } := by
  rw [debounce]
  by_cases hlevel : level = handle.buttonLevel
  · rw [if_neg (not_not_intro hlevel), hlevel]
  · rw [if_pos hlevel]
    exact if_pos (Nat.zero_le _)

/-- The part of a handle that the driver goes by. -/
@[mk_iff]
structure At (active : Bool) (cb : PressEvent → Option BtnCallback) (state ticks repeats : ℕ)
    (handle : Button) : Prop where
  active_eq : handle.activeLevel = active
  cb_eq : handle.cb = cb
  state_eq : handle.state = state
  ticks_eq : handle.ticks = ticks
  repeats_eq : handle.repeats = repeats

namespace At

variable {active : Bool} {cb : PressEvent → Option BtnCallback} {ticks repeats : ℕ}

/-- The key is up and nothing is counted. -/
theorem idle_up (h : At active cb 0 ticks repeats handle) :
    ∃ next, buttonHandler handle (!active) = (next, []) ∧ At active cb 0 ticks repeats next := by
  obtain ⟨rfl, rfl, hstate, rfl, rfl⟩ := h
  rw [buttonHandler, debounce_eq]
  simp [countTicks, stateMachine, hstate, at_iff]

theorem idle_down (h : At active cb 0 ticks repeats handle) :
    ∃ next, buttonHandler handle active = (next, eventCb cb .pressDown) ∧
      At active cb 1 0 1 next := by
  obtain ⟨rfl, rfl, hstate, rfl, rfl⟩ := h
  rw [buttonHandler, debounce_eq]
  simp [countTicks, stateMachine, hstate, at_iff]

theorem first_down (h : At active cb 1 ticks repeats handle) (hticks : ticks < longTicks) :
    ∃ next, buttonHandler handle active = (next, []) ∧ At active cb 1 (ticks + 1) repeats next := by
  rw [longTicks] at hticks
  obtain ⟨rfl, rfl, hstate, rfl, rfl⟩ := h
  have hmod : (handle.ticks + 1) % 65536 = handle.ticks + 1 := Nat.mod_eq_of_lt (by omega)
  rw [buttonHandler, debounce_eq]
  simp [countTicks, stateMachine, hstate, hmod, longTicks, Nat.not_lt.mpr hticks, at_iff]

/-- The key is down for too long. -/
theorem first_long (h : At active cb 1 longTicks repeats handle) :
    ∃ next, buttonHandler handle active = (next, eventCb cb .longPressStart) ∧
      At active cb 5 (longTicks + 1) repeats next := by
  obtain ⟨rfl, rfl, hstate, hticks, rfl⟩ := h
  rw [buttonHandler, debounce_eq]
  simp [countTicks, stateMachine, hstate, hticks, longTicks, at_iff]

theorem first_up (h : At active cb 1 ticks repeats handle) :
    ∃ next, buttonHandler handle (!active) = (next, eventCb cb .pressUp) ∧
      At active cb 2 0 repeats next := by
  obtain ⟨rfl, rfl, hstate, rfl, rfl⟩ := h
  rw [buttonHandler, debounce_eq]
  simp [countTicks, stateMachine, hstate, at_iff]

theorem gap_up (h : At active cb 2 ticks repeats handle) (hticks : ticks < shortTicks) :
    ∃ next, buttonHandler handle (!active) = (next, []) ∧
      At active cb 2 (ticks + 1) repeats next := by
  rw [shortTicks] at hticks
  obtain ⟨rfl, rfl, hstate, rfl, rfl⟩ := h
  have hmod : (handle.ticks + 1) % 65536 = handle.ticks + 1 := Nat.mod_eq_of_lt (by omega)
  rw [buttonHandler, debounce_eq]
  simp [countTicks, stateMachine, hstate, hmod, shortTicks, Nat.not_lt.mpr hticks, at_iff]

end At

/-- What is called when a number of presses has ended. -/
def clicked (cb : PressEvent → Option BtnCallback) (repeats : ℕ) : List Call :=
  if repeats = 1 then eventCb cb .singleClick
  else if repeats = 2 then eventCb cb .doubleClick
  else []

namespace At

variable {active : Bool} {cb : PressEvent → Option BtnCallback} {ticks repeats : ℕ}

/-- The key was up for long enough. -/
theorem gap_end (h : At active cb 2 shortTicks repeats handle) :
    ∃ next, buttonHandler handle (!active) = (next, clicked cb repeats) ∧
      At active cb 0 (shortTicks + 1) repeats next := by
  obtain ⟨rfl, rfl, hstate, hticks, rfl⟩ := h
  rw [buttonHandler, debounce_eq, clicked]
  by_cases hsingle : handle.repeats = 1
  · simp [countTicks, stateMachine, hstate, hticks, hsingle, shortTicks, at_iff]
  · by_cases hdouble : handle.repeats = 2
    · simp [countTicks, stateMachine, hstate, hticks, hdouble, shortTicks, at_iff]
    · simp [countTicks, stateMachine, hstate, hticks, hsingle, hdouble, shortTicks, at_iff]

theorem gap_down (h : At active cb 2 ticks repeats handle) :
    ∃ next, buttonHandler handle active =
        (next, eventCb cb .pressDown ++ eventCb cb .pressRepeat) ∧
      At active cb 3 0 ((repeats + 1) % 2 ^ 4) next := by
  obtain ⟨rfl, rfl, hstate, rfl, rfl⟩ := h
  rw [buttonHandler, debounce_eq]
  simp [countTicks, stateMachine, hstate, at_iff]

theorem again_down (h : At active cb 3 ticks repeats handle) :
    ∃ next, buttonHandler handle active = (next, []) ∧
      At active cb 3 ((ticks + 1) % 2 ^ 16) repeats next := by
  obtain ⟨rfl, rfl, hstate, rfl, rfl⟩ := h
  rw [buttonHandler, debounce_eq]
  simp [countTicks, stateMachine, hstate, at_iff]

theorem again_up (h : At active cb 3 ticks repeats handle) :
    ∃ next, buttonHandler handle (!active) = (next, eventCb cb .pressUp) ∧
      if (ticks + 1) % 2 ^ 16 < shortTicks then At active cb 2 0 repeats next
      else At active cb 0 ((ticks + 1) % 2 ^ 16) repeats next := by
  obtain ⟨rfl, rfl, hstate, rfl, rfl⟩ := h
  rw [buttonHandler, debounce_eq]
  by_cases hshort : (handle.ticks + 1) % 65536 < shortTicks
  · simp [countTicks, stateMachine, hstate, hshort, at_iff]
  · simp [countTicks, stateMachine, hstate, hshort, at_iff]

theorem long_down (h : At active cb 5 ticks repeats handle) :
    ∃ next, buttonHandler handle active = (next, eventCb cb .longPressHold) ∧
      At active cb 5 ((ticks + 1) % 2 ^ 16) repeats next := by
  obtain ⟨rfl, rfl, hstate, rfl, rfl⟩ := h
  rw [buttonHandler, debounce_eq]
  simp [countTicks, stateMachine, hstate, at_iff]

theorem long_up (h : At active cb 5 ticks repeats handle) :
    ∃ next, buttonHandler handle (!active) = (next, eventCb cb .pressUp) ∧
      At active cb 0 ((ticks + 1) % 2 ^ 16) repeats next := by
  obtain ⟨rfl, rfl, hstate, rfl, rfl⟩ := h
  rw [buttonHandler, debounce_eq]
  simp [countTicks, stateMachine, hstate, at_iff]

end At

end K210Firmware.MultiButton
