import K210Firmware.Library.Transition
import Mathlib.Data.Int.Notation

/-!
# The camera driver and the DVP

Two frame buffers are shared by the capture hardware, which fills one of them, and by the thread,
which displays the other. `g_ram_mux` selects the roles and `g_dvp_finish_flag` says that a frame
waits for the thread. `camera_get_buff` runs in four steps, and `on_irq_dvp` can run between any
two of them.
-/

namespace K210Firmware.Camera.Ov2640

open Transition

/-- `g_camera_gram0` and `g_camera_gram1`. -/
inductive Gram
  | gram0
  | gram1
  deriving DecidableEq, Repr

def Gram.other : Gram → Gram
  | gram0 => gram1
  | gram1 => gram0

/-- The two global variables. -/
structure Globals where
  ramMux : UInt8
  dvpFinishFlag : UInt8
  deriving DecidableEq, Repr

/-- The registers that the driver reads and writes: the two interrupt bits, the display address,
and whether a conversion has been requested. -/
structure Dvp where
  frameStart : Bool
  frameFinish : Bool
  displayAddr : Gram
  convert : Bool
  deriving DecidableEq, Repr

/-- `g_ram_mux ? g_camera_gram0 : g_camera_gram1`. -/
def selected (ramMux : UInt8) : Gram := if ramMux ≠ 0 then .gram0 else .gram1

def onIrqDvp (globals : Globals) (dvp : Dvp) : Globals × Dvp :=
  if dvp.frameFinish then
    ({ globals with dvpFinishFlag := 1 },
      { dvp with
        displayAddr := selected globals.ramMux
        frameStart := false
        frameFinish := false })
  else
    (globals,
      { dvp with
        convert := if globals.dvpFinishFlag = 0 then true else dvp.convert
        frameStart := false })

/-- Where the thread is in `camera_get_buff`. -/
inductive Step
  | outside
  | waiting
  | clearing
  | toggling
  | picking
  deriving DecidableEq, Repr

/-- What a buffer contains: captures are numbered in the order in which they start. -/
inductive Content
  | blank
  | partly (frame : ℕ)
  | complete (frame : ℕ)
  deriving DecidableEq, Repr

/-- A buffer handed out, with the number of the last complete capture at that moment. -/
structure Handed where
  buffer : Gram
  latest : ℕ
  deriving DecidableEq, Repr

/-- The driver, the hardware and the thread. `capture` is the buffer a capture is writing to,
`started` and `latest` number the captures begun and completed. -/
structure State where
  globals : Globals
  dvp : Dvp
  capture : Option Gram
  content : Gram → Content
  started : ℕ
  latest : ℕ
  step : Step
  handed : Option Handed

inductive Event
  | call
  | see
  | clear
  | toggle
  | pick
  | frameStart
  | frameFinish
  deriving DecidableEq, Repr

/-- The state after `hw_ov2640_init`. -/
def hwOv2640Init : State where
  globals := ⟨0, 0⟩
  dvp := ⟨false, false, .gram0, false⟩
  capture := none
  content _ := .blank
  started := 0
  latest := 0
  step := .outside
  handed := none

/-- A frame starts: the handler runs, and the frame is captured if it requested a conversion. -/
def frameStart (state : State) : State :=
  let (globals, dvp) := onIrqDvp state.globals { state.dvp with frameStart := true }
  if dvp.convert then
    { state with
      globals
      dvp := { dvp with convert := false }
      capture := some dvp.displayAddr
      content := Function.update state.content dvp.displayAddr (.partly (state.started + 1))
      started := state.started + 1 }
  else { state with globals, dvp }

/-- The captured frame ends: its buffer is complete, and the handler runs. -/
def frameFinish (state : State) (buffer : Gram) : State :=
  let (globals, dvp) := onIrqDvp state.globals { state.dvp with frameFinish := true }
  { state with
    globals
    dvp
    capture := none
    content := Function.update state.content buffer (.complete state.started)
    latest := state.started }

/-- The step of the thread that the event names. -/
def threadStep (state : State) : Event → State
  | .call => { state with step := .waiting, handed := none }
  | .see => if state.globals.dvpFinishFlag = 0 then state else { state with step := .clearing }
  | .clear =>
      { state with globals := { state.globals with dvpFinishFlag := 0 }, step := .toggling }
  | .toggle =>
      { state with
        globals := { state.globals with ramMux := state.globals.ramMux ^^^ 0x01 }
        step := .picking }
  | .pick =>
      { state with step := .outside, handed := some ⟨selected state.globals.ramMux, state.latest⟩ }
  | _ => state

def serve (state : State) : Event → State
  | .frameStart => frameStart state
  | .frameFinish =>
      match state.capture with
      | some buffer => frameFinish state buffer
      | none => state
  | event => threadStep state event

/-- The thread takes its own steps in order; a frame starts when no capture is running, and a
running capture may finish. -/
def enabled (state : State) : Event → Prop
  | .call => state.step = .outside
  | .see => state.step = .waiting
  | .clear => state.step = .clearing
  | .toggle => state.step = .toggling
  | .pick => state.step = .picking
  | .frameStart => state.capture = none
  | .frameFinish => state.capture ≠ none

/-- Every interleaving of the thread and the interrupts. -/
def camera : System State Event Empty where
  enabled := enabled
  step state event := .ok (serve state event)

@[simp]
theorem Gram.ne_other (gram : Gram) : gram ≠ gram.other := by cases gram <;> decide

@[simp]
theorem Gram.other_other (gram : Gram) : gram.other.other = gram := by cases gram <;> rfl

/-- Toggling a selector that is zero or one exchanges the buffers. -/
theorem selected_toggle {ramMux : UInt8} (h : ramMux = 0 ∨ ramMux = 1) :
    selected (ramMux ^^^ 0x01) = (selected ramMux).other := by
  rcases h with rfl | rfl <;> decide

theorem toggle_bool {ramMux : UInt8} (h : ramMux = 0 ∨ ramMux = 1) :
    ramMux ^^^ 0x01 = 0 ∨ ramMux ^^^ 0x01 = 1 := by
  rcases h with rfl | rfl <;> decide

end K210Firmware.Camera.Ov2640
