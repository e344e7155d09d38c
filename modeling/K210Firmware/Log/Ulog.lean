import K210Firmware.Kernel.Slab
import K210Firmware.Library.LittleEndian
import K210Firmware.Log.Rbb

/-!
# Asynchronous logging

`do_output` packs a log into a frame in the ring block buffer; the thread `ulog_async` and every
caller of `ulog_flush` take frames out of it and print them. Loggers run in threads and in
interrupts on two processors, so only what runs with interrupts disabled is one step: every byte of
a frame is stored and fetched by a step of its own, and `rt_rbb_blk_put` and the semaphore come
later still.
-/

namespace K210Firmware.Log

open Memory Extent LittleEndian

/-! ## Frames -/

/-- The arguments of `do_output`, with `log_len` the length of `log`. -/
structure Record where
  level : ℕ
  tag : ℕ
  isRaw : Bool
  log : List UInt8
  deriving DecidableEq, Repr

/-- `struct ulog_frame`. -/
structure UlogFrame where
  magic : ℕ
  isRaw : ℕ
  logLen : ℕ
  level : ℕ
  log : ℕ
  tag : ℕ
  deriving DecidableEq, Repr

def ulogFrameMagic : ℕ := 0x10
def sizeofUlogFrame : ℕ := 24
def ulogLineBufSize : ℕ := 256
def ulogAsyncOutputBufSize : ℕ := 2048
def ulogAsyncOutputStoreLines : ℕ := ulogAsyncOutputBufSize * 3 / 2 / ulogLineBufSize

/-- The words of a frame in memory; the bit fields share the first one. -/
def UlogFrame.words (frame : UlogFrame) : List (ℕ × ℕ) :=
  [(4, frame.magic + 2 ^ 8 * frame.isRaw + 2 ^ 9 * frame.logLen), (4, frame.level), (8, frame.log),
    (8, frame.tag)]

def UlogFrame.ofBytes (bytes : List UInt8) : UlogFrame :=
  match decode [4, 4, 8, 8] bytes with
  | [word, level, log, tag] =>
      ⟨word % 2 ^ 8, word / 2 ^ 8 % 2, word / 2 ^ 9, level, log, tag⟩
  | _ => ⟨0, 0, 0, 0, 0, 0⟩

/-- The frame that `do_output` packs at `addr`. -/
def Record.frame (record : Record) (addr : ℕ) : UlogFrame where
  magic := ulogFrameMagic
  isRaw := record.isRaw.toNat
  logLen := record.log.length
  level := record.level
  log := addr + sizeofUlogFrame
  tag := record.tag

/-- The bytes that `do_output` stores from `addr` on. -/
def Record.bytes (record : Record) (addr : ℕ) : List UInt8 :=
  encode (record.frame addr).words ++ record.log

/-- The size of the block that `do_output` asks for. -/
def Record.blkSize (record : Record) : ℕ :=
  Kernel.Slab.rtAlign (sizeofUlogFrame + record.log.length) 8

/-! ## Loggers and readers -/

/-- A call of `do_output` that has its block, with the number of bytes stored. -/
structure Logger where
  block : ℕ
  record : Record
  stored : ℕ
  deriving DecidableEq, Repr

/-- The two callers of `ulog_async_output`. -/
inductive Caller
  | asyncTh
  | flush
  deriving DecidableEq, Repr

/-- A call of `ulog_async_output` with a block, and what it has read of it. -/
structure Reader where
  caller : Caller
  block : ℕ
  fetched : List UInt8
  deriving DecidableEq, Repr

/-- Where `async_output_thread_entry` is: looking for a block, printing one, about to reset
`async_notice`, about to take it, or blocked on it. -/
inductive AsyncTh
  | looking
  | printing
  | resetting
  | taking
  | blocked
  deriving DecidableEq, Repr

/-- Bookkeeping: what happened to the log with a number. -/
inductive Note
  | put (id : ℕ)
  | taken (id : ℕ)
  /-- The thread found no block. -/
  | empty
  /-- The thread reset `async_notice`. -/
  | reset
  /-- `async_notice` counted the notice of the log. -/
  | noticed (id : ℕ)
  deriving DecidableEq, Repr

def Note.isNoticed : Note → Bool
  | noticed _ => true
  | _ => false

/-- `struct rt_ulog` with the calls in progress. A logger that has put its block is left in
`notices` until it releases `async_notice`. From `accepted` on everything is bookkeeping: logs are
numbered in the order in which they get a block, and `ids` gives the number of the log in a
block. -/
structure Ulog where
  asyncRbb : RtRbb
  buf : Block UInt8
  asyncTh : AsyncTh
  /-- `rt_uint16_t` -/
  asyncNotice : ℕ
  alreadyOutput : Bool
  loggers : List Logger
  notices : List ℕ
  readers : List Reader
  accepted : List Record
  ids : ℕ → ℕ
  printed : List (ℕ × Record)
  notes : List Note

inductive UlogEvent
  | doOutput (record : Record)
  | store (logger : Logger)
  | put (logger : Logger)
  | release (id : ℕ)
  | get (caller : Caller)
  | fetch (reader : Reader)
  | print (reader : Reader)
  | reset
  | take

namespace Ulog

variable (ulog : Ulog)

/-- The address of a block. -/
def addr (block : ℕ) : ℕ := (ulog.asyncRbb.blkSet block).buf

/-- The index of an address in the buffer. -/
def index (addr : ℕ) : ℤ := addr - ulog.asyncRbb.buf

/-- The next address that a reader of `ulog_async_output` reads: first the frame, then, if its
magic is right, `log_len` bytes at `log`. -/
def nextAddr (reader : Reader) : Option ℕ :=
  let count := reader.fetched.length
  if count < sizeofUlogFrame then some (ulog.addr reader.block + count)
  else
    let frame := UlogFrame.ofBytes reader.fetched
    if frame.magic = ulogFrameMagic ∧ count - sizeofUlogFrame < frame.logLen then
      some (frame.log + (count - sizeofUlogFrame))
    else none

end Ulog

/-- What `ulog_output_to_all_backend` is called with, after the bytes `fetched`. -/
def outputOf (fetched : List UInt8) : Option Record :=
  let frame := UlogFrame.ofBytes fetched
  if frame.magic = ulogFrameMagic then
    some ⟨frame.level, frame.tag, frame.isRaw = 1, fetched.drop sizeofUlogFrame⟩
  else none

/-! ## Steps -/

/-- Callers of `do_output` pass at most a line, and every call goes on where it left off. -/
def UlogEnabled (ulog : Ulog) : UlogEvent → Prop
  | .doOutput record =>
      record.level < 2 ^ 32 ∧ record.tag < 2 ^ 64 ∧ record.log.length ≤ ulogLineBufSize
  | .store logger => logger ∈ ulog.loggers ∧
      logger.stored < (logger.record.bytes (ulog.addr logger.block)).length
  | .put logger => logger ∈ ulog.loggers ∧
      logger.stored = (logger.record.bytes (ulog.addr logger.block)).length
  | .release id => id ∈ ulog.notices
  | .get .asyncTh => ulog.asyncTh = .looking
  | .get .flush => True
  | .fetch reader => reader ∈ ulog.readers ∧ ulog.nextAddr reader ≠ none
  | .print reader => reader ∈ ulog.readers ∧ ulog.nextAddr reader = none
  | .reset => ulog.asyncTh = .resetting
  | .take => ulog.asyncTh = .taking

instance (ulog : Ulog) : (event : UlogEvent) → Decidable (UlogEnabled ulog event)
  | .doOutput _ => inferInstanceAs (Decidable (_ ∧ _ ∧ _))
  | .store _ => inferInstanceAs (Decidable (_ ∧ _))
  | .put _ => inferInstanceAs (Decidable (_ ∧ _))
  | .release _ => inferInstanceAs (Decidable (_ ∈ _))
  | .get .asyncTh => inferInstanceAs (Decidable (_ = _))
  | .get .flush => inferInstanceAs (Decidable True)
  | .fetch _ => inferInstanceAs (Decidable (_ ∧ _ ≠ _))
  | .print _ => inferInstanceAs (Decidable (_ ∧ _ = _))
  | .reset => inferInstanceAs (Decidable (_ = _))
  | .take => inferInstanceAs (Decidable (_ = _))

namespace Ulog

/-- `do_output` up to the return of `rt_rbb_blk_alloc`. -/
def doOutput (record : Record) (ulog : Ulog) : Except Fault Ulog := do
  match ← rtRbbBlkAlloc record.blkSize ulog.asyncRbb with
  | (some block, asyncRbb) =>
      return { ulog with
        asyncRbb
        loggers := ⟨block, record, 0⟩ :: ulog.loggers
        accepted := ulog.accepted ++ [record]
        ids := Function.update ulog.ids block ulog.accepted.length }
  -- the log is lost; the first time, a warning is printed
  | (none, asyncRbb) => return { ulog with asyncRbb, alreadyOutput := true }

/-- One byte of the frame. -/
def store (logger : Logger) (ulog : Ulog) : Except Fault Ulog := do
  let byte := (logger.record.bytes (ulog.addr logger.block)).getD logger.stored 0
  let buf ← ulog.buf.write (ulog.index (ulog.addr logger.block + logger.stored)) byte
  return { ulog with
    buf
    loggers := { logger with stored := logger.stored + 1 } :: ulog.loggers.erase logger }

/-- `rt_rbb_blk_put` of `do_output`. -/
def put (logger : Logger) (ulog : Ulog) : Except Fault Ulog := do
  let asyncRbb ← rtRbbBlkPut logger.block ulog.asyncRbb
  return { ulog with
    asyncRbb
    loggers := ulog.loggers.erase logger
    notices := ulog.ids logger.block :: ulog.notices
    notes := ulog.notes ++ [.put (ulog.ids logger.block)] }

/-- `rt_sem_release` of `do_output`: a thread that is blocked takes the notice at once, and else
the value of 16 bits counts it. -/
def release (id : ℕ) (ulog : Ulog) : Ulog :=
  if ulog.asyncTh = .blocked then
    { ulog with notices := ulog.notices.erase id, asyncTh := .looking }
  else { ulog with
    notices := ulog.notices.erase id
    asyncNotice := (ulog.asyncNotice + 1) % 2 ^ 16
    notes := ulog.notes ++ [.noticed id] }

/-- `rt_rbb_blk_get` of `ulog_async_output`. -/
def get (caller : Caller) (ulog : Ulog) : Ulog :=
  match rtRbbBlkGet ulog.asyncRbb, caller with
  | (some block, asyncRbb), _ =>
      { ulog with
        asyncRbb
        asyncTh := if caller = .asyncTh then .printing else ulog.asyncTh
        readers := ⟨caller, block, []⟩ :: ulog.readers
        notes := ulog.notes ++ [.taken (ulog.ids block)] }
  | (none, asyncRbb), .asyncTh =>
      { ulog with asyncRbb, asyncTh := .resetting, notes := ulog.notes ++ [.empty] }
  | (none, asyncRbb), .flush => { ulog with asyncRbb }

def fetch (reader : Reader) (ulog : Ulog) : Except Fault Ulog := do
  let byte ← ulog.buf.read (ulog.index ((ulog.nextAddr reader).getD 0))
  return { ulog with
    readers := { reader with fetched := reader.fetched ++ [byte] } :: ulog.readers.erase reader }

/-- The end of one turn of the loop of `ulog_async_output`. -/
def print (reader : Reader) (ulog : Ulog) : Except Fault Ulog := do
  let asyncRbb ← rtRbbBlkFree reader.block ulog.asyncRbb
  return { ulog with
    asyncRbb
    asyncTh := if reader.caller = .asyncTh then .looking else ulog.asyncTh
    readers := ulog.readers.erase reader
    printed := ulog.printed ++
      ((outputOf reader.fetched).map (ulog.ids reader.block, ·)).toList }

/-- `RT_IPC_CMD_RESET` of `ulog_async_waiting_log`. -/
def reset (ulog : Ulog) : Ulog :=
  { ulog with asyncNotice := 0, asyncTh := .taking, notes := ulog.notes ++ [.reset] }

/-- `rt_sem_take` of `ulog_async_waiting_log`. -/
def take (ulog : Ulog) : Ulog :=
  if ulog.asyncNotice > 0 then
    { ulog with asyncNotice := ulog.asyncNotice - 1, asyncTh := .looking }
  else { ulog with asyncTh := .blocked }

def step (ulog : Ulog) : UlogEvent → Except Fault Ulog
  | .doOutput record => ulog.doOutput record
  | .store logger => ulog.store logger
  | .put logger => ulog.put logger
  | .release id => return ulog.release id
  | .get caller => return ulog.get caller
  | .fetch reader => ulog.fetch reader
  | .print reader => ulog.print reader
  | .reset => return ulog.reset
  | .take => return ulog.take

/-- `ulog_init`, with the blocks that `rt_rbb_create` allocates. -/
def init (buf : ℕ) (blockSet : ℕ → RtRbbBlk) (bytes : ℤ → UInt8) : Ulog where
  asyncRbb := rtRbbInit buf (Kernel.Slab.rtAlign ulogAsyncOutputBufSize 8) blockSet
    ulogAsyncOutputStoreLines
  buf := ⟨Kernel.Slab.rtAlign ulogAsyncOutputBufSize 8, bytes⟩
  asyncTh := .looking
  asyncNotice := 0
  alreadyOutput := false
  loggers := []
  notices := []
  readers := []
  accepted := []
  ids := fun _ ↦ 0
  printed := []
  notes := []

end Ulog

/-- Any number of loggers, the thread `ulog_async` and any number of calls of `ulog_flush`. -/
def ulogSystem : Transition.System Ulog UlogEvent Fault := ⟨UlogEnabled, Ulog.step⟩

instance (ulog : Ulog) (event : UlogEvent) : Decidable (ulogSystem.enabled ulog event) :=
  inferInstanceAs (Decidable (UlogEnabled ulog event))

end K210Firmware.Log
