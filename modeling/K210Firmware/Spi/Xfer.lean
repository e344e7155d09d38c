import K210Firmware.Library.Allocation
import K210Firmware.Library.CInt
import K210Firmware.Library.Duplex
import K210Firmware.Library.Moves
import Mathlib.Data.UInt

/-!
# SPI transfers

`drv_spi_xfer` exchanges the bytes of a message with a device. Two DMA channels move them as 32-bit
words between the data register of the controller and bounce buffers from the heap; for a buffer
that the message lacks, the channel uses a local variable. The SDK and the hardware are not part of
the repository: `Sdk` has the constants and the register update that the driver relies on, and the
order in which the two channels proceed, like the bytes that the device answers, is arbitrary.
-/

namespace K210Firmware.Spi.Xfer

open Memory Duplex

/-- What lives on the heap: the buffers of callers, and bounce buffers. -/
inductive Object
  | bytes (block : Block UInt8)
  | words (block : Block UInt32)

namespace Object

def asBytes : Object → Option (Block UInt8)
  | bytes block => some block
  | words _ => none

def asWords : Object → Option (Block UInt32)
  | bytes _ => none
  | words block => some block

end Object

/-! ## The hardware -/

/-- The memory side of a DMA channel: the variable `dummy`, or a bounce buffer. -/
inductive Side
  | dummy
  | buffer (address : Address)
  deriving DecidableEq, Repr

/-- The arguments of `dmac_set_single_mode`; the other side is the data register. -/
structure Setup where
  memory : Side
  increment : Bool
  burst : ℕ
  blockSize : ℕ
  deriving DecidableEq, Repr

/-- The request line of a channel, and its setup until it is done. -/
structure Channel where
  select : ℕ
  setup : Option Setup
  deriving DecidableEq, Repr

/-- The registers of the controller of the bus, its two DMA channels, the level of the chip select
pin, and the heap. -/
structure Machine where
  ctrlr0 : UInt32
  dmacr : UInt32
  ser : UInt32
  ssienr : UInt32
  send : Channel
  recv : Channel
  csHigh : Bool
  arena : Arena Object

/-- What the driver takes from the SDK. -/
structure Sdk where
  setBit : UInt32 → UInt32 → UInt32 → UInt32
  tmodTransRecv : UInt32
  ssi0TxReq : ℕ
  ssi0RxReq : ℕ
  setBit_and : ∀ bits mask value, setBit bits mask value &&& mask = value &&& mask
  setBit_and_not : ∀ bits mask value, setBit bits mask value &&& ~~~mask = bits &&& ~~~mask

/-- `spi_instance` of the bus and `cs_index` of the device. -/
structure Device where
  spiInstance : Fin 4
  csIndex : Fin 4

/-- `struct rt_spi_message`; a null buffer has the address zero. -/
structure Message where
  sendBuf : Place
  recvBuf : Place
  length : ℕ
  csTake : Bool
  csRelease : Bool

/-- The outcomes of `rt_calloc` and of `rt_malloc`, which leaves the memory as it finds it. -/
structure Grants where
  calloc : Bool
  malloc : Option (ℤ → UInt32)

/-- How the two channels interleave, and the bytes of the device. -/
structure Answer (count : ℕ) where
  schedule : Schedule count
  reply : ℕ → UInt8

def tmodOffset (spiNum : Fin 4) : UInt32 :=
  match spiNum.val with
  | 0 | 1 | 2 => 8
  | _ => 10

def spiSetTmod (sdk : Sdk) (spiNum : Fin 4) (tmod : UInt32) (machine : Machine) : Machine :=
  { machine with
    ctrlr0 := sdk.setBit machine.ctrlr0 (3 <<< tmodOffset spiNum) (tmod <<< tmodOffset spiNum) }

/-- The controller clocks frames and both channels serve it. -/
def Running (sdk : Sdk) (device : Device) (machine : Machine) : Prop :=
  machine.ctrlr0 &&& (3 <<< tmodOffset device.spiInstance) =
      (sdk.tmodTransRecv <<< tmodOffset device.spiInstance) &&&
        (3 <<< tmodOffset device.spiInstance) ∧
    machine.dmacr = 3 ∧ machine.ser ≠ 0 ∧ machine.ssienr = 1 ∧
    machine.send.select = sdk.ssi0TxReq + device.spiInstance.val * 2 ∧
    machine.recv.select = sdk.ssi0RxReq + device.spiInstance.val * 2

instance (sdk : Sdk) (device : Device) (machine : Machine) :
    Decidable (Running sdk device machine) :=
  inferInstanceAs (Decidable (_ ∧ _ ∧ _ ∧ _ ∧ _ ∧ _))

/-- The memory during a transfer, and the bytes on the wire. -/
structure Wire where
  arena : Arena Object
  dummy : UInt32
  sent : List UInt8

def Setup.place (setup : Setup) (index : ℕ) : ℤ := if setup.increment then index else 0

def fetchWord (setup : Setup) (index : ℕ) (wire : Wire) : Except Fault UInt32 :=
  match setup.memory with
  | .dummy => return wire.dummy
  | .buffer address => do
    let (block, _) ← loadAs Object.asWords address wire.arena
    block.read (setup.place index)

/-- A frame has eight bits. -/
def fetch (setup : Setup) (index : ℕ) (wire : Wire) : Except Fault Wire := do
  let word ← fetchWord setup index wire
  return { wire with sent := wire.sent ++ [word.toUInt8] }

def storeWord (setup : Setup) (reply : ℕ → UInt8) (index : ℕ) (wire : Wire) : Except Fault Wire :=
  match setup.memory with
  | .dummy => return { wire with dummy := (reply index).toUInt32 }
  | .buffer address => do
    let (block, _) ← loadAs Object.asWords address wire.arena
    let block ← block.write (setup.place index) (reply index).toUInt32
    let (_, arena) ← store address (.words block) wire.arena
    return { wire with arena := arena }

/-- Both calls of `dmac_wait_done`. They return when the channels have moved all frames, and never
if the controller does not run. -/
def dmacWaitDone (sdk : Sdk) (device : Device) {count : ℕ} (answer : Answer count)
    (machine : Machine) : Except Fault (List UInt8 × Machine) :=
  match machine.send.setup, machine.recv.setup with
  | some send, some recv =>
    if Running sdk device machine ∧ send.blockSize = count ∧ recv.blockSize = count then do
      let wire ← run (fetch send) (storeWord recv answer.reply) 0 0 answer.schedule.events
        ⟨machine.arena, 0xFFFFFFFF, []⟩
      return (wire.sent, { machine with
        send := { machine.send with setup := none }
        recv := { machine.recv with setup := none }
        arena := wire.arena })
    else .error .divergence
  | _, _ => .error .divergence

/-! ## The driver -/

/-- `target[i] = source[i]` for `int i` up to the length. -/
def copyLoop {From To : Type} (part : Object → Option (Block From))
    (whole : Block To → Object) (part' : Object → Option (Block To)) (convert : From → To)
    (source target : Place) : ℕ → ℤ → Prog Object Unit
  | 0, _ => pure ()
  | remaining + 1, i => do
    let block ← loadAs part source.1
    let value ← computed (block.read (source.2 + i))
    let block' ← loadAs part' target.1
    store target.1 (whole (← computed (block'.write (target.2 + i) (convert value))))
    let next ← computed (int32 (i + 1))
    copyLoop part whole part' convert source target remaining next

/-- `tx_buff[i] = ((uint8_t *)message->send_buf)[i]` -/
def copyIn (sendBuf : Place) (txBuff : Address) (length : ℕ) : Prog Object Unit :=
  copyLoop Object.asBytes .words Object.asWords UInt8.toUInt32 sendBuf (txBuff, 0) length 0

/-- `((uint8_t *)message->recv_buf)[i] = (uint8_t)rx_buff[i]` -/
def copyOut (rxBuff : Address) (recvBuf : Place) (length : ℕ) : Prog Object Unit :=
  copyLoop Object.asWords .bytes Object.asBytes UInt32.toUInt8 (rxBuff, 0) recvBuf length 0

/-- `if(message->recv_buf)` -/
def deliver (message : Message) (rxBuff : Address) : Prog Object Unit :=
  if message.recvBuf.1 = 0 then pure () else copyOut rxBuff message.recvBuf message.length

/-- The words of an allocation of `length * 4` bytes. -/
def bufferWords (length : ℕ) : ℤ := ((length * 4 % 2 ^ 64 / 4 : ℕ) : ℤ)

/-- The receiving channel; no buffer is returned if the allocation fails. -/
def armRecv (message : Message) (granted : Bool) (machine : Machine) :
    Except Fault (Option Address × Machine) :=
  if message.recvBuf.1 = 0 then
    return (some 0, { machine with
      recv := { machine.recv with setup := some ⟨.dummy, false, 1, message.length⟩ } })
  else do
    let (rxBuff, arena) ← malloc
      (if granted then some (.words ⟨bufferWords message.length, fun _ ↦ 0⟩) else none)
      machine.arena
    if rxBuff = 0 then return (none, { machine with arena := arena })
    else return (some rxBuff, { machine with
      arena := arena
      recv := { machine.recv with setup := some ⟨.buffer rxBuff, true, 1, message.length⟩ } })

/-- The sending channel. -/
def armSend (message : Message) (granted : Option (ℤ → UInt32)) (machine : Machine) :
    Except Fault (Option Address × Machine) :=
  if message.sendBuf.1 = 0 then
    return (some 0, { machine with
      send := { machine.send with setup := some ⟨.dummy, false, 4, message.length⟩ } })
  else do
    let (txBuff, arena) ← malloc
      (granted.map fun leftover ↦ .words ⟨bufferWords message.length, leftover⟩) machine.arena
    if txBuff = 0 then return (none, { machine with arena := arena })
    else do
      let (_, arena) ← copyIn message.sendBuf txBuff message.length arena
      return (some txBuff, { machine with
        arena := arena
        send := { machine.send with setup := some ⟨.buffer txBuff, true, 4, message.length⟩ } })

/-- The label `transfer_done`. -/
def transferDone (txBuff rxBuff : Address) (machine : Machine) : Except Fault Machine := do
  let (_, arena) ← freeIf txBuff machine.arena
  let (_, arena) ← freeIf rxBuff arena
  return { machine with arena := arena }

/-- The controller is enabled, and its request lines go to the two channels. -/
def enable (sdk : Sdk) (device : Device) (machine : Machine) : Machine :=
  { machine with
    dmacr := 3
    ssienr := 1
    send := { machine.send with select := sdk.ssi0TxReq + device.spiInstance.val * 2 }
    recv := { machine.recv with select := sdk.ssi0RxReq + device.spiInstance.val * 2 } }

/-- The statements from `ser` on; the bytes on the wire are returned. -/
def exchange (sdk : Sdk) (device : Device) (message : Message) (answer : Answer message.length)
    (txBuff rxBuff : Address) (machine : Machine) : Except Fault (List UInt8 × Machine) := do
  let machine := { machine with ser := 1 <<< device.csIndex.val.toUInt32 }
  let (sent, machine) ← dmacWaitDone sdk device answer machine
  let machine := { machine with ser := 0, ssienr := 0 }
  let (_, arena) ← deliver message rxBuff machine.arena
  return (sent, ← transferDone txBuff rxBuff { machine with arena := arena })

/-- What is done if the message has a length. -/
def transfer (sdk : Sdk) (device : Device) (message : Message) (grants : Grants)
    (answer : Answer message.length) (machine : Machine) :
    Except Fault (List UInt8 × Machine) := do
  match ← armRecv message grants.calloc (enable sdk device machine) with
  | (none, machine) => return ([], ← transferDone 0 0 machine)
  | (some rxBuff, machine) =>
    match ← armSend message grants.malloc machine with
    | (none, machine) => return ([], ← transferDone 0 rxBuff machine)
    | (some txBuff, machine) => exchange sdk device message answer txBuff rxBuff machine

/-- The return value, the bytes on the wire, and the state after the call. -/
structure Result where
  ret : UInt32
  sent : List UInt8
  machine : Machine

/-- What comes before the transfer: the mode, and `cs_take`. -/
def prepare (sdk : Sdk) (device : Device) (message : Message) (machine : Machine) : Machine :=
  let machine := spiSetTmod sdk device.spiInstance sdk.tmodTransRecv machine
  if message.csTake then { machine with csHigh := false } else machine

/-- `cs_release` -/
def releaseCs (message : Message) (machine : Machine) : Machine :=
  if message.csRelease then { machine with csHigh := true } else machine

def drvSpiXfer (sdk : Sdk) (device : Device) (message : Message) (grants : Grants)
    (answer : Answer message.length) (machine : Machine) : Except Fault Result := do
  let machine := prepare sdk device message machine
  let (sent, machine) ←
    if message.length = 0 then pure ([], machine)
    else transfer sdk device message grants answer machine
  return ⟨UInt32.ofNat message.length, sent, releaseCs message machine⟩

end K210Firmware.Spi.Xfer
