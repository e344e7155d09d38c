import K210Firmware.Library.Transition
import K210Firmware.Terminal.Ringbuffer

/-!
# The terminal as a device of the shell

The keyboard page of `lvgl_terminal.cpp` is a character device. `send`, on the GUI thread, puts a
byte into the ring buffer and releases the semaphore; `read`, on the shell thread, waits for the
semaphore once for each byte and ignores what `wait` and `rt_ringbuffer_getchar` return. Deleting
the page runs the destructor, which gives the shell another device, and then destroys the
semaphore and the object. The threads interleave between any two of these steps.
-/

namespace K210Firmware.Terminal.Device

open Memory Ringbuffer Transition

/-- A call of `read` that has obtained `obtained` bytes in its first `i` iterations. -/
structure ReadCall where
  size : ℕ
  i : ℕ
  obtained : ℕ
  deriving DecidableEq, Repr

/-- Where the shell thread is: about to enter the driver of `shell->device`, at the head of the
loop of `read`, on the suspend list of `rx_count`, or between `wait` and `getchar`. -/
inductive Reader
  | outside
  | entering (size : ℕ)
  | looping (call : ReadCall)
  | suspended (call : ReadCall)
  | taken (call : ReadCall)
  deriving DecidableEq, Repr

/-- Where the GUI thread is in `send`. -/
inductive Sender
  | idle
  | stored (c : UInt8)
  | released (c : UInt8)
  deriving DecidableEq, Repr

/-- How far the deletion of the object has come. -/
inductive Life
  | alive
  | switched
  | unregistered
  | detached
  | freed
  deriving DecidableEq, Repr

/-- The members `rx_buff` and `rx_count`, the two threads, and what they have done: the calls of
`send` that have returned with their results, the bytes stored into the buffers of readers, and
for each `read` that has returned the size it reported and the number of bytes it obtained. -/
structure State where
  rxBuff : RtRingbuffer
  rxCount : ℕ
  life : Life
  reader : Reader
  sender : Sender
  sent : List (UInt8 × ℤ)
  output : List UInt8
  reports : List (ℕ × ℕ)

inductive Event
  | fetch (size : ℕ)
  | enter
  | wait
  | getchar
  | finishRead
  | putchar (c : UInt8)
  | release
  | finishSend
  | switch
  | unregister
  | detach
  | destroy
  deriving DecidableEq, Repr

/-- The state after the constructor. -/
def lvglTerminal (pool : ℤ → UInt8) : State where
  rxBuff := rtRingbufferInit ⟨64, pool⟩ 64
  rxCount := 0
  life := .alive
  reader := .outside
  sender := .idle
  sent := []
  output := []
  reports := []

/-! ## The shell thread -/

/-- `rt_device_read` finds the device closed once the destructor has switched the shell. -/
def enterRead (state : State) (size : ℕ) : Except Fault State :=
  match state.life with
  | .alive => .ok { state with reader := .looping ⟨size, 0, 0⟩ }
  | .freed => .error .deadObject
  | _ => .ok { state with reader := .outside }

/-- `self->rx_count.wait()`: the thread takes the semaphore or suspends itself. -/
def rxCountWait (state : State) (call : ReadCall) : Except Fault State :=
  match state.life with
  | .detached => .error .deadObject
  | .freed => .error .deadObject
  | _ =>
    if state.rxCount > 0 then
      .ok { state with rxCount := state.rxCount - 1, reader := .taken call }
    else .ok { state with reader := .suspended call }

/-- `rt_ringbuffer_getchar(&self->rx_buff, buff + i)`. -/
def rxBuffGetchar (state : State) (call : ReadCall) : Except Fault State :=
  if state.life = .freed then .error .deadObject
  else do
    let (ch, rxBuff) ← rtRingbufferGetchar state.rxBuff
    match ch with
    | some c =>
      return { state with
        rxBuff
        output := state.output ++ [c]
        reader := .looping ⟨call.size, call.i + 1, call.obtained + 1⟩ }
    | none =>
      return { state with rxBuff, reader := .looping ⟨call.size, call.i + 1, call.obtained⟩ }

/-- `return size`. -/
def returnRead (state : State) (call : ReadCall) : State :=
  { state with reader := .outside, reports := state.reports ++ [(call.size, call.obtained)] }

/-! ## The GUI thread -/

/-- The first step of `send`, which returns -1 from a full buffer. -/
def rxBuffPutchar (state : State) (c : UInt8) : Except Fault State := do
  let (result, rxBuff) ← rtRingbufferPutchar state.rxBuff c
  if result = 0 then return { state with rxBuff, sent := state.sent ++ [(c, -1)] }
  else return { state with rxBuff, sender := .stored c }

/-- `rx_count.release()`: a suspended thread is resumed in place of a count. -/
def rxCountRelease (state : State) (c : UInt8) : State :=
  match state.reader with
  | .suspended call => { state with reader := .taken call, sender := .released c }
  | _ => { state with rxCount := state.rxCount + 1, sender := .released c }

/-- The end of `send`. -/
def returnSend (state : State) (c : UInt8) : State :=
  { state with sender := .idle, sent := state.sent ++ [(c, 0)] }

/-- `rt_sem_detach`: a suspended thread is resumed with an error, which `read` ignores. -/
def rtSemDetach (state : State) : State :=
  match state.reader with
  | .suspended call => { state with life := .detached, reader := .taken call }
  | _ => { state with life := .detached }

/-! ## What a step changes -/

section Changes

variable {state next : State}

theorem enterRead_ok {size : ℕ} (h : enterRead state size = .ok next) :
    ∃ reader, next = { state with reader } := by
  unfold enterRead at h
  split at h
  case h_2 => cases h
  all_goals
    cases h
    exact ⟨_, rfl⟩

theorem rxCountWait_ok {call : ReadCall} (h : rxCountWait state call = .ok next) :
    ∃ rxCount reader, next = { state with rxCount, reader } := by
  unfold rxCountWait at h
  split at h
  case h_1 => cases h
  case h_2 => cases h
  split_ifs at h
  all_goals
    cases h
    exact ⟨_, _, rfl⟩

theorem rxBuffGetchar_ok {call : ReadCall} (h : rxBuffGetchar state call = .ok next) :
    ∃ rxBuff output reader, next = { state with rxBuff, output, reader } := by
  unfold rxBuffGetchar at h
  split_ifs at h
  obtain ⟨⟨_ | c, rxBuff⟩, _, hnext⟩ := bind_eq_ok.mp h
  · cases hnext
    exact ⟨rxBuff, state.output, _, rfl⟩
  · cases hnext
    exact ⟨rxBuff, _, _, rfl⟩

theorem rxBuffPutchar_ok {c : UInt8} (h : rxBuffPutchar state c = .ok next) :
    ∃ rxBuff, next = { state with rxBuff, sent := state.sent ++ [(c, -1)] } ∨
      next = { state with rxBuff, sender := .stored c } := by
  obtain ⟨⟨result, rxBuff⟩, _, hnext⟩ := bind_eq_ok.mp h
  refine ⟨rxBuff, ?_⟩
  simp only at hnext
  split_ifs at hnext
  · exact .inl (Except.ok.inj hnext).symm
  · exact .inr (Except.ok.inj hnext).symm

@[simp]
theorem rxCountRelease_sender (state : State) (c : UInt8) :
    (rxCountRelease state c).sender = .released c := by
  unfold rxCountRelease
  split <;> rfl

@[simp]
theorem rxCountRelease_sent (state : State) (c : UInt8) :
    (rxCountRelease state c).sent = state.sent := by
  unfold rxCountRelease
  split <;> rfl

theorem rxCountRelease_life (state : State) (c : UInt8) :
    (rxCountRelease state c).life = state.life := by
  unfold rxCountRelease
  split <;> rfl

theorem rtSemDetach_eq (state : State) :
    ∃ reader, rtSemDetach state = { state with life := .detached, reader } := by
  unfold rtSemDetach
  split
  · exact ⟨_, rfl⟩
  · exact ⟨state.reader, rfl⟩

end Changes

/-! ## Every interleaving -/

def serve (state : State) : Event → Except Fault State
  | .fetch size => .ok { state with reader := .entering size }
  | .enter =>
    match state.reader with
    | .entering size => enterRead state size
    | _ => .ok state
  | .wait =>
    match state.reader with
    | .looping call => rxCountWait state call
    | _ => .ok state
  | .getchar =>
    match state.reader with
    | .taken call => rxBuffGetchar state call
    | _ => .ok state
  | .finishRead =>
    match state.reader with
    | .looping call => .ok (returnRead state call)
    | _ => .ok state
  | .putchar c => rxBuffPutchar state c
  | .release =>
    match state.sender with
    | .stored c => .ok (rxCountRelease state c)
    | _ => .ok state
  | .finishSend =>
    match state.sender with
    | .released c => .ok (returnSend state c)
    | _ => .ok state
  | .switch => .ok { state with life := .switched }
  | .unregister => .ok { state with life := .unregistered }
  | .detach => .ok (rtSemDetach state)
  | .destroy => .ok { state with life := .freed }

/-- Each thread takes its steps in order. The terminal is `shell->device` until the destructor
switches the shell, and the GUI thread does one thing at a time. -/
def Enabled (state : State) : Event → Prop
  | .fetch _ => state.reader = .outside ∧ state.life = .alive
  | .enter => ∃ size, state.reader = .entering size
  | .wait => ∃ call, state.reader = .looping call ∧ call.i < call.size
  | .getchar => ∃ call, state.reader = .taken call
  | .finishRead => ∃ call, state.reader = .looping call ∧ call.size ≤ call.i
  | .putchar _ => state.sender = .idle ∧ state.life = .alive
  | .release => ∃ c, state.sender = .stored c
  | .finishSend => ∃ c, state.sender = .released c
  | .switch => state.sender = .idle ∧ state.life = .alive
  | .unregister => state.life = .switched
  | .detach => state.life = .unregistered
  | .destroy => state.life = .detached

def terminal : System State Event Fault where
  enabled := Enabled
  step := serve

/-! ## The coupling of the semaphore and the buffer -/

/-- The bytes for which `send` has returned 0. -/
def returned (state : State) : List UInt8 :=
  (state.sent.filter fun call ↦ call.2 = 0).map Prod.fst

/-- The byte of a `send` that has passed its only failure and will return 0. -/
def Sender.pending : Sender → List UInt8
  | idle => []
  | stored c => [c]
  | released c => [c]

/-- The byte of a `send` that has released the semaphore and only has to return. -/
def Sender.returning : Sender → List UInt8
  | released c => [c]
  | _ => []

/-- A byte in the buffer that the semaphore does not count yet. -/
def Sender.uncounted : Sender → ℕ
  | stored _ => 1
  | _ => 0

/-- The readers between `wait` and `getchar`. -/
def Reader.between : Reader → ℕ
  | taken _ => 1
  | _ => 0

/-- The bytes sent are those delivered and those in the buffer, and each byte in the buffer is
counted by the semaphore, claimed by a reader, or about to be counted. -/
structure Coupled (state : State) (queue : List UInt8) : Prop where
  represents : Represents state.rxBuff queue
  capacity : state.rxBuff.bufferSize = 64
  history : returned state ++ state.sender.pending = state.output ++ queue
  count : state.rxCount + state.reader.between + state.sender.uncounted = queue.length

end K210Firmware.Terminal.Device
