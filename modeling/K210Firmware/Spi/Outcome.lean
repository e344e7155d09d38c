import K210Firmware.Spi.Phases

/-!
# What an SPI transfer reports

`Clean` says what the caller may conclude from a call that returns: the frames of both directions
if the length is returned, a controller that is disabled, and channels that no longer refer to freed
memory. The driver is clean exactly if it need not leave through `transfer_done` early and if the
byte it sends for a missing buffer is not overwritten: `dummy` also receives the frames nobody asked
for.
-/

namespace K210Firmware.Spi.Xfer

open Memory Duplex

/-! ## Reports -/

def byteAt (arena : Arena Object) (buffer : Place) (index : ℕ) : Option UInt8 :=
  match arena.heap.cell buffer.1 with
  | some (.bytes block) =>
    if 0 ≤ buffer.2 + index ∧ buffer.2 + index < block.size then
      some (block.cell (buffer.2 + index))
    else none
  | _ => none

/-- All bytes were exchanged: the wire has those of `send_buf`, or `0xFF` each, and `recv_buf` has
those of the device. -/
structure Frames (message : Message) (reply : ℕ → UInt8) (before after : Arena Object)
    (sent : List UInt8) : Prop where
  length : sent.length = message.length
  sent : ∀ index : ℕ, index < message.length →
    sent[index]? = if message.sendBuf.1 = 0 then some 0xFF else byteAt before message.sendBuf index
  received : message.recvBuf.1 ≠ 0 → ∀ index : ℕ, index < message.length →
    byteAt after message.recvBuf index = some (reply index)

/-- A channel is left with a buffer that is no longer allocated. -/
def ArmedOnFreed (channel : Channel) (arena : Arena Object) : Prop :=
  ∃ setup address, channel.setup = some setup ∧ setup.memory = .buffer address ∧
    arena.heap.cell address = none

/-- The state that a call leaves behind, and what it returns about it. -/
structure Clean (message : Message) (reply : ℕ → UInt8) (machine : Machine) (result : Result) :
    Prop where
  frames : result.ret.toNat = message.length →
    Frames message reply machine.arena result.machine.arena result.sent
  disabled : 0 < message.length → result.machine.ser = 0 ∧ result.machine.ssienr = 0
  send : ArmedOnFreed result.machine.send result.machine.arena →
    ArmedOnFreed machine.send machine.arena
  recv : ArmedOnFreed result.machine.recv result.machine.arena →
    ArmedOnFreed machine.recv machine.arena
  chipSelect : result.machine.csHigh = true ↔
    message.csRelease = true ∨ machine.csHigh = true ∧ message.csTake = false

/-- The call returns, and what it leaves behind is clean. -/
def ReportsCleanly (sdk : Sdk) (device : Device) (message : Message) (grants : Grants)
    (answer : Answer message.length) (machine : Machine) : Prop :=
  ∃ result, drvSpiXfer sdk device message grants answer machine = .ok result ∧
    Clean message answer.reply machine result

/-- No frame overwrites `dummy` with another byte before it is fetched again. -/
def DummyIntact {count : ℕ} (answer : Answer count) : Prop :=
  ∀ lag ∈ answer.schedule.lags, lag = 0 ∨ answer.reply (lag - 1) = 0xFF

/-- No allocation fails that is needed, the loops count in `int`, and `dummy` keeps its value if it
is both sent and received. -/
structure Sound (message : Message) (grants : Grants) (answer : Answer message.length) :
    Prop where
  calloc : message.recvBuf.1 ≠ 0 → grants.calloc = true
  malloc : message.sendBuf.1 ≠ 0 → grants.malloc.isSome
  counted : message.sendBuf.1 ≠ 0 ∨ message.recvBuf.1 ≠ 0 → message.length < 2 ^ 31
  dummy : message.sendBuf.1 = 0 → message.recvBuf.1 = 0 → message.length < 2 ^ 32 →
    DummyIntact answer

variable {sdk : Sdk} {device : Device} {message : Message} {grants : Grants}
  {answer : Answer message.length} {machine : Machine}

/-! ## The exchange -/

theorem byteAt_eq_some {arena : Arena Object} {buffer : Place} {block : Block UInt8} {index : ℕ}
    (hcell : arena.heap.cell buffer.1 = some (.bytes block)) (hlower : 0 ≤ buffer.2 + index)
    (hupper : buffer.2 + index < block.size) :
    byteAt arena buffer index = some (block.cell (buffer.2 + index)) := by
  rw [byteAt, hcell]
  exact if_pos ⟨hlower, hupper⟩

theorem byteAt_congr {before after : Arena Object} {buffer : Place} (index : ℕ)
    (h : after.heap.cell buffer.1 = before.heap.cell buffer.1) :
    byteAt after buffer index = byteAt before buffer index := by
  rw [byteAt, byteAt, h]

/-- The byte on the wire in a frame that was fetched when `lag` frames had been stored. -/
def clockedOut (message : Message) (reply : ℕ → UInt8) (arena : Arena Object) (index lag : ℕ) :
    Option UInt8 :=
  if message.sendBuf.1 ≠ 0 then byteAt arena message.sendBuf index
  else if message.recvBuf.1 ≠ 0 then some 0xFF
  else some (dummyAfter reply lag).toUInt8

/-- The same blocks are allocated. -/
def SameBlocks (before after : Arena Object) : Prop :=
  ∀ address : ℕ, (after.heap.cell address).isSome = (before.heap.cell address).isSome

theorem SameBlocks.trans {before middle after : Arena Object} (h : SameBlocks before middle)
    (hnext : SameBlocks middle after) : SameBlocks before after := fun address ↦
  (hnext address).trans (h address)

/-- A change of the contents of one block. -/
theorem SameBlocks.of_sameOutside {before after : Arena Object} {address : ℕ}
    {object object' : Object} (hsame : SameOutside address (address + 1) before after)
    (hbefore : before.heap.cell address = some object)
    (hafter : after.heap.cell address = some object') : SameBlocks before after := fun other ↦ by
  by_cases hother : other = address
  · rw [hother, hbefore, hafter]
    rfl
  · rw [hsame.cell other (Nat.lt_or_gt_of_ne hother)]

/-- Of two allocations nothing is left once both blocks are freed. -/
theorem Allocates.sameBlocks {before middle armed idle after : Arena Object} {rxBuff txBuff : ℕ}
    (hrecv : Allocates before middle rxBuff) (hsend : Allocates middle armed txBuff)
    (hidle : SameBlocks armed idle) (htx : after.heap.cell txBuff = none)
    (hrx : after.heap.cell rxBuff = none)
    (hkept : ∀ address : ℕ, address ≠ txBuff → address ≠ rxBuff →
      after.heap.cell address = idle.heap.cell address) : SameBlocks before after := by
  intro address
  by_cases hrxSame : address = rxBuff
  · rw [hrxSame, hrx, hrecv.fresh]
  · rw [← hrecv.cell address hrxSame]
    by_cases htxSame : address = txBuff
    · rw [htxSame, htx, hsend.fresh]
    · rw [hkept address htxSame hrxSame, hidle address, hsend.cell address htxSame]

/-- What a transfer that runs to its end leaves behind. -/
structure Transferred (message : Message) (answer : Answer message.length) (machine after : Machine)
    (sent : List UInt8) : Prop where
  disabled : after.ser = 0 ∧ after.ssienr = 0
  idle : after.send.setup = none ∧ after.recv.setup = none
  csHigh : after.csHigh = machine.csHigh
  blocks : SameBlocks machine.arena after.arena
  length : sent.length = message.length
  sent : ∀ index lag : ℕ, answer.schedule.lags[index]? = some lag →
    sent[index]? = clockedOut message answer.reply machine.arena index lag
  received : message.recvBuf.1 ≠ 0 → ∀ index : ℕ, index < message.length →
    byteAt after.arena message.recvBuf index = some (answer.reply index)

/-! ### The bounce buffers -/

section Armed

variable {recvArmed armed : Machine} {rxBuff txBuff : ℕ} {recv send : Setup} {words : ℤ → UInt32}
  {reply : ℕ → UInt8} {wire : Wire}

theorem RecvArmed.bounds (h : RecvArmed message machine recvArmed rxBuff recv) (hne : rxBuff ≠ 0) :
    machine.arena.next ≤ rxBuff ∧ rxBuff < recvArmed.arena.next := by
  rcases h.side with ⟨_, hzero, _⟩ | ⟨_, hnext, hlt, _⟩
  · exact absurd hzero hne
  · exact ⟨hnext.ge, hlt⟩

theorem SendArmed.next_le (h : SendArmed message recvArmed armed txBuff send words)
    (hne : txBuff ≠ 0) : recvArmed.arena.next ≤ txBuff := by
  rcases h.side with ⟨_, hzero, _⟩ | ⟨_, hnext, _⟩
  · exact absurd hzero hne
  · exact hnext.ge

/-- The bounce buffers are none of the blocks allocated before. -/
theorem RecvArmed.ne_of_lt (hrecv : RecvArmed message machine recvArmed rxBuff recv)
    (hsend : SendArmed message recvArmed armed txBuff send words) {address : ℕ}
    (hlt : address < machine.arena.next) (hne : address ≠ 0) :
    address ≠ txBuff ∧ address ≠ rxBuff := by
  constructor
  · rintro rfl
    have hle := hsend.next_le hne
    have hgrows := hrecv.grows.next_le
    omega
  · rintro rfl
    have hle := (hrecv.bounds hne).1
    omega

theorem RecvArmed.increment (h : RecvArmed message machine recvArmed rxBuff recv)
    (hmemory : recv.memory ≠ .dummy) : recv.increment = true := by
  rcases h.side with ⟨_, _, hdummy⟩ | ⟨_, _, _, _, hincrement, _⟩
  · exact absurd hdummy hmemory
  · exact hincrement

/-- The channels have buffers of their own. -/
theorem SendArmed.ne (hsend : SendArmed message recvArmed armed txBuff send words)
    (hrecv : RecvArmed message machine recvArmed rxBuff recv) (hne : rxBuff ≠ 0) :
    txBuff ≠ rxBuff := by
  rintro rfl
  have hle := hsend.next_le hne
  have hlt := (hrecv.bounds hne).2
  omega

theorem RecvArmed.ne_buffer (hrecv : RecvArmed message machine recvArmed rxBuff recv)
    (hsend : SendArmed message recvArmed armed txBuff send words) (htx : txBuff ≠ 0) :
    recv.memory ≠ .buffer txBuff := by
  rcases hrecv.side with ⟨_, _, hdummy⟩ | ⟨_, _, _, hbuffer, _⟩
  · rw [hdummy]
    exact Side.noConfusion
  · rw [hbuffer]
    intro hside
    have hsame : rxBuff = txBuff := Side.buffer.inj hside
    exact hsend.ne hrecv (hsame ▸ htx) hsame.symm

theorem SendArmed.loaded (hsend : SendArmed message recvArmed armed txBuff send words)
    (hrecv : RecvArmed message machine recvArmed rxBuff recv)
    (hcounted : message.sendBuf.1 ≠ 0 → message.length < 2 ^ 31) :
    Loaded send recv.memory words message.length armed.arena := by
  rcases hsend.side with ⟨_, _, hdummy⟩ | ⟨hsome, hnext, hbuffer, hincrement, hcell, _⟩
  · rw [Loaded, hdummy]
    trivial
  · have htx : txBuff ≠ 0 := hnext ▸ Arena.next_ne_zero
    rw [Loaded, hbuffer]
    exact ⟨hincrement, hrecv.ne_buffer hsend htx, _, hcell, (bufferWords_eq (hcounted hsome)).ge⟩

theorem RecvArmed.received (hrecv : RecvArmed message machine recvArmed rxBuff recv)
    (hgrows : Grows recvArmed.arena armed.arena)
    (hcounted : message.recvBuf.1 ≠ 0 → message.length < 2 ^ 31) :
    Received recv.memory reply message.length armed.arena 0 ⟨armed.arena, 0xFFFFFFFF, []⟩ := by
  rcases hrecv.side with ⟨_, _, hdummy⟩ | ⟨hsome, _, hlt, hbuffer, _, hcell⟩
  · rw [hdummy]
    exact ⟨rfl, rfl⟩
  · rw [hbuffer]
    exact ⟨rfl, ⟨rfl, fun _ _ ↦ rfl⟩, _, (hgrows.cell rxBuff hlt).trans hcell,
      (bufferWords_eq (hcounted hsome)).ge, fun j hj ↦ absurd hj (Nat.not_lt_zero j)⟩

/-- A word holds the byte that was widened into it. -/
theorem toUInt8_toUInt32 (byte : UInt8) : byte.toUInt32.toUInt8 = byte := by
  simp

theorem toUInt8_ones : (0xFFFFFFFF : UInt32).toUInt8 = 0xFF := by
  decide

/-- The words fetched are the bytes to be clocked out. -/
theorem SendArmed.clockedOut (hsend : SendArmed message recvArmed armed txBuff send words)
    (hrecv : RecvArmed message machine recvArmed rxBuff recv)
    (hvalid : message.sendBuf.1 ≠ 0 → Holds machine.arena message.sendBuf message.length)
    {index lag : ℕ} (hindex : index < message.length) :
    some (fetchedWord send.memory recv.memory words reply index lag).toUInt8 =
      clockedOut message reply machine.arena index lag := by
  rcases hsend.side with ⟨hnull, _, hdummy⟩ | ⟨hsome, _, hbuffer, _, _, hwords⟩
  · rw [Xfer.clockedOut, if_neg (not_not.mpr hnull), hdummy]
    rcases hrecv.side with ⟨hnullRecv, _, hdummyRecv⟩ | ⟨hsomeRecv, _, _, hbufferRecv, _⟩
    · rw [if_neg (not_not.mpr hnullRecv), hdummyRecv]
      rfl
    · rw [if_pos hsomeRecv, hbufferRecv]
      exact congrArg some toUInt8_ones
  · obtain ⟨given, hcell, hlower, hupper⟩ := hvalid hsome
    have hword : words index = (given.cell (message.sendBuf.2 + index)).toUInt32 :=
      hwords given ((hrecv.grows.cell _ (Arena.lt_next_of_cell hcell)).trans hcell) index hindex
    rw [Xfer.clockedOut, if_pos hsome, hbuffer, byteAt_eq_some hcell (by omega) (by omega)]
    change some (words index).toUInt8 = _
    rw [hword, toUInt8_toUInt32]

theorem Live.sameBlocks {before after : Arena Object} {address : ℕ} (h : Live before address)
    (hsame : SameBlocks before after) : Live after address := fun hne ↦ by
  obtain ⟨object, hcell⟩ := h hne
  exact Option.isSome_iff_exists.mp ((hsame address).trans (hcell ▸ rfl))

/-- The frames received do not allocate. -/
theorem RecvArmed.sameBlocks (hrecv : RecvArmed message machine recvArmed rxBuff recv)
    (hgrows : Grows recvArmed.arena armed.arena) {count stored : ℕ}
    (hreceived : Received recv.memory reply count armed.arena stored wire) :
    SameBlocks armed.arena wire.arena := by
  rcases hrecv.side with ⟨_, _, hdummy⟩ | ⟨_, _, hlt, hbuffer, _, hcell⟩
  · rw [hdummy] at hreceived
    rw [hreceived.1]
    exact fun _ ↦ rfl
  · rw [hbuffer] at hreceived
    obtain ⟨_, hsame, block, hblock, _⟩ := hreceived
    exact SameBlocks.of_sameOutside hsame ((hgrows.cell rxBuff hlt).trans hcell) hblock

theorem SendArmed.live (hsend : SendArmed message recvArmed armed txBuff send words)
    (hrecv : RecvArmed message machine recvArmed rxBuff recv) {count stored : ℕ}
    (hreceived : Received recv.memory reply count armed.arena stored wire) :
    Live wire.arena txBuff := fun hne ↦ by
  rcases hsend.side with ⟨_, hzero, _⟩ | ⟨_, _, _, _, hcell, _⟩
  · exact absurd hzero hne
  · exact ⟨_, (hreceived.cell_of_ne (hrecv.ne_buffer hsend hne)).trans hcell⟩

theorem RecvArmed.live (hrecv : RecvArmed message machine recvArmed rxBuff recv)
    {count stored : ℕ} (hreceived : Received recv.memory reply count armed.arena stored wire) :
    Live wire.arena rxBuff := fun hne ↦ by
  rcases hrecv.side with ⟨_, hzero, _⟩ | ⟨_, _, _, hbuffer, _⟩
  · exact absurd hzero hne
  · rw [hbuffer] at hreceived
    obtain ⟨_, _, block, hcell, _⟩ := hreceived
    exact ⟨_, hcell⟩

/-- The bytes received reach the caller. -/
theorem deliver_spec (hsend : SendArmed message recvArmed armed txBuff send words)
    (hrecv : RecvArmed message machine recvArmed rxBuff recv)
    (hvalid : message.recvBuf.1 ≠ 0 → Holds machine.arena message.recvBuf message.length)
    (hcounted : message.recvBuf.1 ≠ 0 → message.length < 2 ^ 31)
    (hreceived : Received recv.memory reply message.length armed.arena message.length wire) :
    ∃ after, deliver message rxBuff wire.arena = .ok ((), after) ∧
      SameBlocks wire.arena after ∧
      (message.recvBuf.1 ≠ 0 → ∀ index : ℕ, index < message.length →
        byteAt after message.recvBuf index = some (reply index)) := by
  unfold deliver
  rcases hrecv.side with ⟨hnull, _⟩ | ⟨hsome, hnext, hlt, hbuffer, _⟩
  · rw [if_pos hnull]
    exact ⟨wire.arena, rfl, fun _ ↦ rfl, fun hne ↦ absurd hnull hne⟩
  · obtain ⟨old, hold, hlower, hupper⟩ :=
      ((hvalid hsome).grows hrecv.grows).grows hsend.grows
    obtain ⟨first, hfirst, _⟩ := hvalid hsome
    have hbefore := Arena.lt_next_of_cell hfirst
    rw [hbuffer] at hreceived
    obtain ⟨_, hsame, block, hblock, hsize, hreplies⟩ := hreceived
    have htarget : wire.arena.heap.cell message.recvBuf.1 = some (.bytes old) :=
      (hsame.cell _ (.inl (hnext ▸ hbefore))).trans hold
    obtain ⟨_, after, hcopy, hframe, copied, hcell, hcopiedSize, hcopied⟩ :=
      copyOut_spec hblock htarget hsize ⟨hlower, hupper⟩ (hcounted hsome)
    rw [if_neg hsome]
    refine ⟨after, hcopy, SameBlocks.of_sameOutside hframe htarget hcell,
      fun _ index hindex ↦ ?_⟩
    rw [byteAt_eq_some hcell (by omega) (by omega), hcopied index hindex, hreplies index hindex,
      toUInt8_toUInt32]

end Armed

/-! ### The transfer -/

/-- The mode of the controller is set. -/
def ModeSet (sdk : Sdk) (device : Device) (machine : Machine) : Prop :=
  machine.ctrlr0 &&& (3 <<< tmodOffset device.spiInstance) =
    (sdk.tmodTransRecv <<< tmodOffset device.spiInstance) &&& (3 <<< tmodOffset device.spiInstance)

/-- Once a device is selected, the controller clocks frames for both channels. -/
theorem SendArmed.selected {recvArmed armed : Machine} {rxBuff txBuff : ℕ} {recv send : Setup}
    {words : ℤ → UInt32} (hsend : SendArmed message recvArmed armed txBuff send words)
    (hmode : ModeSet sdk device machine)
    (hrecv : RecvArmed message (enable sdk device machine) recvArmed rxBuff recv) :
    Running sdk device { armed with ser := 1 <<< device.csIndex.val.toUInt32 } ∧
      armed.send.setup = some send ∧ armed.recv.setup = some recv ∧
        armed.csHigh = machine.csHigh := by
  have hmachine := hsend.machine_eq
  rw [hrecv.machine_eq] at hmachine
  rw [hmachine]
  exact ⟨⟨hmode, rfl, select_ne_zero device.csIndex, rfl, rfl, rfl⟩, rfl, rfl, rfl⟩

theorem exchange_spec (answer : Answer message.length) {recvArmed armed : Machine}
    {rxBuff txBuff : ℕ} {recv send : Setup} {words : ℤ → UInt32}
    (hmode : ModeSet sdk device machine) (hvalid : message.Valid machine.arena)
    (hcounted : message.sendBuf.1 ≠ 0 ∨ message.recvBuf.1 ≠ 0 → message.length < 2 ^ 31)
    (hrecv : RecvArmed message (enable sdk device machine) recvArmed rxBuff recv)
    (hsend : SendArmed message recvArmed armed txBuff send words) :
    ∃ sent after, exchange sdk device message answer txBuff rxBuff armed = .ok (sent, after) ∧
      Transferred message answer machine after sent := by
  let selected : Machine := { armed with ser := 1 <<< device.csIndex.val.toUInt32 }
  obtain ⟨hrunning, hsendSetup, hrecvSetup, hcsHigh⟩ := hsend.selected hmode hrecv
  obtain ⟨wire, hwait, hsent, hreceived⟩ := dmacWaitDone_spec selected answer
    hsendSetup hrecvSetup hrunning hsend.blockSize hrecv.blockSize
    (hsend.loaded hrecv fun hsome ↦ hcounted (.inl hsome)) hrecv.increment
    (hrecv.received hsend.grows fun hsome ↦ hcounted (.inr hsome))
  obtain ⟨copied, hcopy, hblocks, hreplies⟩ := deliver_spec hsend hrecv hvalid.recv
    (fun hsome ↦ hcounted (.inr hsome)) hreceived
  let idle : Machine := { selected with
    ser := 0
    ssienr := 0
    send := { selected.send with setup := none }
    recv := { selected.recv with setup := none }
    arena := copied }
  have htx : Live idle.arena txBuff := (hsend.live hrecv hreceived).sameBlocks hblocks
  have hrx : Live idle.arena rxBuff := (hrecv.live hreceived).sameBlocks hblocks
  obtain ⟨after, hdone, htxFreed, hrxFreed, hkept⟩ := transferDone_spec htx hrx (hsend.ne hrecv)
  have hreturned : SameBlocks machine.arena after :=
    hrecv.allocates.sameBlocks hsend.allocates
      ((hrecv.sameBlocks hsend.grows hreceived).trans hblocks) htxFreed hrxFreed hkept
  refine ⟨wire.sent, { idle with arena := after }, ?_, ⟨rfl, rfl⟩, ⟨rfl, rfl⟩, hcsHigh, hreturned,
    ?_, ?_, ?_⟩
  · rw [exchange]
    simp only
    rw [hwait, ok_bind]
    simp only
    rw [hcopy, ok_bind]
    simp only
    rw [hdone]
    rfl
  · rw [hsent, List.length_mapIdx, answer.schedule.length_lags]
  · intro index lag hlag
    have hindex : index < message.length := by
      rw [← answer.schedule.length_lags]
      exact (List.getElem?_eq_some_iff.mp hlag).1
    rw [hsent, List.getElem?_mapIdx, hlag]
    exact hsend.clockedOut hrecv hvalid.send hindex
  · intro hsome index hindex
    obtain ⟨block, hblock, _⟩ := hvalid.recv hsome
    obtain ⟨hneTx, hneRx⟩ := hrecv.ne_of_lt hsend (Arena.lt_next_of_cell hblock) hsome
    rw [byteAt_congr index (hkept message.recvBuf.1 hneTx hneRx)]
    exact hreplies hsome index hindex

theorem transfer_spec (answer : Answer message.length) (hmode : ModeSet sdk device machine)
    (hvalid : message.Valid machine.arena)
    (hcalloc : message.recvBuf.1 ≠ 0 → grants.calloc = true)
    (hmalloc : message.sendBuf.1 ≠ 0 → grants.malloc.isSome)
    (hcounted : message.sendBuf.1 ≠ 0 ∨ message.recvBuf.1 ≠ 0 → message.length < 2 ^ 31) :
    ∃ sent after, transfer sdk device message grants answer machine = .ok (sent, after) ∧
      Transferred message answer machine after sent := by
  obtain ⟨rxBuff, recvArmed, recv, hrecvRun, hrecv⟩ :=
    armRecv_spec (enable sdk device machine) hcalloc
  obtain ⟨txBuff, armed, send, words, hsendRun, hsend⟩ := armSend_spec hmalloc
    (fun hsome ↦ (hvalid.send hsome).grows hrecv.grows) (fun hsome ↦ hcounted (.inl hsome))
  obtain ⟨sent, after, hexchange, htransferred⟩ :=
    exchange_spec answer hmode hvalid hcounted hrecv hsend
  refine ⟨sent, after, ?_, htransferred⟩
  rw [transfer, hrecvRun, ok_bind]
  simp only
  rw [hsendRun, ok_bind]
  exact hexchange

theorem transfer_recv_refused (hsome : message.recvBuf.1 ≠ 0) (hrefused : grants.calloc = false) :
    transfer sdk device message grants answer machine = .ok ([], enable sdk device machine) := by
  rw [transfer, hrefused, armRecv_refused hsome]
  rfl

/-- The receiving channel keeps the buffer that is freed. -/
theorem transfer_send_refused (hcalloc : message.recvBuf.1 ≠ 0 → grants.calloc = true)
    (hsome : message.sendBuf.1 ≠ 0) (hrefused : grants.malloc = none) :
    ∃ after, transfer sdk device message grants answer machine = .ok ([], after) ∧
      after.ssienr = 1 ∧ SameBlocks machine.arena after.arena ∧
        (message.recvBuf.1 ≠ 0 → ArmedOnFreed after.recv after.arena) := by
  obtain ⟨rxBuff, recvArmed, recv, hrecvRun, hrecv⟩ :=
    armRecv_spec (enable sdk device machine) hcalloc
  have hlive : Live recvArmed.arena rxBuff := fun hne ↦ by
    rcases hrecv.side with ⟨_, hzero, _⟩ | ⟨_, _, _, _, _, hcell⟩
    · exact absurd hzero hne
    · exact ⟨_, hcell⟩
  have hnull : Live recvArmed.arena 0 := fun hne ↦ absurd rfl hne
  obtain ⟨after, hdone, hnullFreed, hfreed, hkept⟩ :=
    transferDone_spec hnull hlive fun hne ↦ hne.symm
  have hreturned : SameBlocks machine.arena after :=
    hrecv.allocates.sameBlocks (Allocates.null recvArmed.arena) (fun _ ↦ rfl) hnullFreed hfreed
      hkept
  refine ⟨{ recvArmed with arena := after }, ?_, ?_, hreturned, fun hrecvSome ↦ ?_⟩
  · rw [transfer, hrecvRun, ok_bind]
    simp only
    rw [hrefused, armSend_refused hsome, ok_bind]
    simp only
    rw [hdone]
    rfl
  · rw [hrecv.machine_eq]
    rfl
  · rcases hrecv.side with ⟨hzero, _⟩ | ⟨_, _, _, hbuffer, _⟩
    · exact absurd hzero hrecvSome
    · refine ⟨recv, rxBuff, ?_, hbuffer, hfreed⟩
      rw [hrecv.machine_eq]

/-- An allocation fails that the message needs. -/
def Refused (message : Message) (grants : Grants) : Prop :=
  message.recvBuf.1 ≠ 0 ∧ grants.calloc = false ∨ message.sendBuf.1 ≠ 0 ∧ grants.malloc = none

theorem granted_of_not_refused (h : ¬ Refused message grants) :
    (message.recvBuf.1 ≠ 0 → grants.calloc = true) ∧
      (message.sendBuf.1 ≠ 0 → grants.malloc.isSome) := by
  obtain ⟨hcalloc, hmalloc⟩ := not_or.mp h
  exact ⟨fun hsome ↦ Bool.eq_true_of_not_eq_false fun hrefused ↦ hcalloc ⟨hsome, hrefused⟩,
    fun hsome ↦ Option.isSome_iff_ne_none.mpr fun hrefused ↦ hmalloc ⟨hsome, hrefused⟩⟩

/-- Without the memory for a bounce buffer nothing is exchanged or kept, and the controller stays
enabled. -/
theorem transfer_refused (sdk : Sdk) (device : Device) (answer : Answer message.length)
    (machine : Machine) (h : Refused message grants) :
    ∃ after, transfer sdk device message grants answer machine = .ok ([], after) ∧
      after.ssienr = 1 ∧ SameBlocks machine.arena after.arena := by
  by_cases hcalloc : message.recvBuf.1 ≠ 0 ∧ grants.calloc = false
  · exact ⟨_, transfer_recv_refused hcalloc.1 hcalloc.2, rfl, fun _ ↦ rfl⟩
  · obtain ⟨hsome, hrefused⟩ := h.resolve_left hcalloc
    have hgranted : message.recvBuf.1 ≠ 0 → grants.calloc = true := fun hrecv ↦
      Bool.eq_true_of_not_eq_false fun hfalse ↦ hcalloc ⟨hrecv, hfalse⟩
    obtain ⟨after, hrun, henabled, hblocks, _⟩ := transfer_send_refused hgranted hsome hrefused
    exact ⟨after, hrun, henabled, hblocks⟩

/-- A transfer that leaves the controller disabled has got its bounce buffers. -/
theorem not_refused_of_disabled {outcome : List UInt8 × Machine}
    (h : transfer sdk device message grants answer machine = .ok outcome)
    (hssienr : outcome.2.ssienr = 0) : ¬ Refused message grants := by
  intro hrefused
  obtain ⟨refused, hrun, henabled, _⟩ := transfer_refused sdk device answer machine hrefused
  obtain rfl := Except.ok.inj (hrun.symm.trans h)
  exact absurd (henabled.symm.trans hssienr) (by decide)

/-- A transfer that has not been refused and returns has counted in `int`. -/
theorem lt_of_transfer {outcome : List UInt8 × Machine}
    (h : transfer sdk device message grants answer machine = .ok outcome)
    (hcalloc : message.recvBuf.1 ≠ 0 → grants.calloc = true)
    (hmalloc : message.sendBuf.1 ≠ 0 → grants.malloc.isSome)
    (hpresent : message.sendBuf.1 ≠ 0 ∨ message.recvBuf.1 ≠ 0) : message.length < 2 ^ 31 := by
  obtain ⟨rxBuff, recvArmed, recv, hrecvRun, hrecv⟩ :=
    armRecv_spec (enable sdk device machine) hcalloc
  rw [transfer, hrecvRun, ok_bind] at h
  obtain ⟨⟨txBuff, armed⟩, hsendRun, hrest⟩ := bind_eq_ok.mp h
  by_cases hsome : message.sendBuf.1 ≠ 0
  · exact lt_of_armSend hsendRun hsome (hmalloc hsome)
  · rw [armSend, if_pos (not_not.mp hsome)] at hsendRun
    obtain ⟨rfl, rfl⟩ := Prod.mk.inj (Except.ok.inj hsendRun)
    obtain ⟨⟨sent, waited⟩, _, hrest⟩ := bind_eq_ok.mp hrest
    obtain ⟨⟨_, arena⟩, hdeliver, _⟩ := bind_eq_ok.mp hrest
    rw [deliver, if_neg (hpresent.resolve_left hsome)] at hdeliver
    have hlt := lt_of_copyLoop hdeliver (by decide)
    omega

/-! ## The call -/

section Call

variable (sdk device message machine)

theorem modeSet_prepare : ModeSet sdk device (prepare sdk device message machine) := by
  unfold prepare ModeSet
  split <;> exact spiSetTmod_and ..

@[simp]
theorem prepare_arena : (prepare sdk device message machine).arena = machine.arena := by
  unfold prepare
  split <;> rfl

@[simp]
theorem prepare_send : (prepare sdk device message machine).send = machine.send := by
  unfold prepare
  split <;> rfl

@[simp]
theorem prepare_recv : (prepare sdk device message machine).recv = machine.recv := by
  unfold prepare
  split <;> rfl

theorem releaseCs_eq :
    releaseCs message machine = { machine with csHigh := message.csRelease || machine.csHigh } := by
  unfold releaseCs
  cases message.csRelease <;> rfl

variable {sdk device message machine}

/-- The level of the pin is that before the call, unless the message changes it. -/
theorem csHigh_releaseCs {after : Machine}
    (h : after.csHigh = (prepare sdk device message machine).csHigh) :
    (releaseCs message after).csHigh = true ↔
      message.csRelease = true ∨ machine.csHigh = true ∧ message.csTake = false := by
  rw [releaseCs_eq, Bool.or_eq_true, h, prepare]
  cases message.csTake with
  | false => exact or_congr_right (and_iff_left rfl).symm
  | true => simp

theorem drvSpiXfer_eq_ok (hne : message.length ≠ 0) {result : Result} :
    drvSpiXfer sdk device message grants answer machine = .ok result ↔
      ∃ sent after, transfer sdk device message grants answer (prepare sdk device message machine) =
          .ok (sent, after) ∧
        result = ⟨UInt32.ofNat message.length, sent, releaseCs message after⟩ := by
  rw [drvSpiXfer]
  simp only [if_neg hne]
  rw [bind_eq_ok]
  constructor
  · rintro ⟨⟨sent, after⟩, htransfer, hresult⟩
    exact ⟨sent, after, htransfer, (Except.ok.inj hresult).symm⟩
  · rintro ⟨sent, after, htransfer, rfl⟩
    exact ⟨(sent, after), htransfer, rfl⟩

theorem dummyAfter_eq_iff {reply : ℕ → UInt8} {lag : ℕ} :
    (dummyAfter reply lag).toUInt8 = 0xFF ↔ lag = 0 ∨ reply (lag - 1) = 0xFF := by
  cases lag with
  | zero => exact ⟨fun _ ↦ .inl rfl, fun _ ↦ toUInt8_ones⟩
  | succ stored =>
    rw [dummyAfter, toUInt8_toUInt32]
    exact ⟨.inr, fun h ↦ h.resolve_left (Nat.succ_ne_zero stored)⟩

/-- A message without bytes changes nothing but the chip select pin. -/
theorem reportsCleanly_of_empty (hzero : message.length = 0) :
    ReportsCleanly sdk device message grants answer machine := by
  refine ⟨⟨UInt32.ofNat message.length, [], releaseCs message (prepare sdk device message machine)⟩,
    ?_, fun _ ↦ ⟨hzero.symm, ?_, ?_⟩, fun hpos ↦ absurd hzero hpos.ne', ?_, ?_,
    csHigh_releaseCs rfl⟩
  · rw [drvSpiXfer]
    simp only [if_pos hzero]
    rfl
  · intro index hindex
    omega
  · intro _ index hindex
    omega
  · rw [releaseCs_eq]
    simp
  · rw [releaseCs_eq]
    simp

theorem not_armedOnFreed {channel : Channel} {arena : Arena Object} (h : channel.setup = none) :
    ¬ ArmedOnFreed channel arena := by
  rintro ⟨setup, _, hsome, _⟩
  rw [h] at hsome
  cases hsome

/-- A call whose transfer runs to its end is clean, if `dummy` is sent as it was. -/
theorem Transferred.clean {after : Machine} {sent : List UInt8}
    (h : Transferred message answer (prepare sdk device message machine) after sent)
    (hdummy : message.sendBuf.1 = 0 → message.recvBuf.1 = 0 → message.length < 2 ^ 32 →
      DummyIntact answer) :
    Clean message answer.reply machine
      ⟨UInt32.ofNat message.length, sent, releaseCs message after⟩ := by
  refine ⟨fun hret ↦ ⟨h.length, fun index hindex ↦ ?_, fun hsome index hindex ↦ ?_⟩, fun _ ↦ ?_,
    fun harmed ↦ ?_, fun harmed ↦ ?_, csHigh_releaseCs h.csHigh⟩
  · have hlt : message.length < 2 ^ 32 := hret ▸ UInt32.toNat_lt _
    have hlag : index < answer.schedule.lags.length :=
      answer.schedule.length_lags.symm ▸ hindex
    rw [h.sent index _ (List.getElem?_eq_getElem hlag), clockedOut, prepare_arena]
    by_cases hsend : message.sendBuf.1 = 0
    · rw [if_neg (not_not.mpr hsend), if_pos hsend]
      by_cases hrecv : message.recvBuf.1 = 0
      · rw [if_neg (not_not.mpr hrecv)]
        have hintact := hdummy hsend hrecv hlt _ (List.getElem_mem hlag)
        exact congrArg some (dummyAfter_eq_iff.mpr hintact)
      · rw [if_pos hrecv]
    · rw [if_pos hsend, if_neg hsend]
  · rw [releaseCs_eq]
    exact h.received hsome index hindex
  · rw [releaseCs_eq]
    exact h.disabled
  · rw [releaseCs_eq] at harmed
    exact absurd harmed (not_armedOnFreed h.idle.1)
  · rw [releaseCs_eq] at harmed
    exact absurd harmed (not_armedOnFreed h.idle.2)

/-- Where both buffers are missing, `0xFF` on the wire means that `dummy` was still intact. -/
theorem Transferred.intact {after : Machine} {sent : List UInt8}
    (h : Transferred message answer machine after sent) (hsend : message.sendBuf.1 = 0)
    (hrecv : message.recvBuf.1 = 0)
    (hones : ∀ index : ℕ, index < message.length → sent[index]? = some 0xFF) :
    DummyIntact answer := by
  intro lag hmem
  obtain ⟨index, hindex, hlag⟩ := List.getElem_of_mem hmem
  have hlt : index < message.length := answer.schedule.length_lags ▸ hindex
  have hsent := h.sent index lag (List.getElem?_eq_some_iff.mpr ⟨hindex, hlag⟩)
  rw [hones index hlt, clockedOut, if_neg (not_not.mpr hsend), if_neg (not_not.mpr hrecv)] at hsent
  exact dummyAfter_eq_iff.mp (Option.some.inj hsent).symm

/-- **No leaks.** However a call ends, the blocks that are allocated afterwards are those that were
allocated before. -/
theorem sameBlocks_of_drvSpiXfer (hvalid : message.Valid machine.arena) {result : Result}
    (hrun : drvSpiXfer sdk device message grants answer machine = .ok result) :
    SameBlocks machine.arena result.machine.arena := by
  by_cases hzero : message.length = 0
  · rw [drvSpiXfer] at hrun
    simp only [if_pos hzero] at hrun
    obtain rfl := Except.ok.inj hrun
    rw [releaseCs_eq, prepare_arena]
    exact fun _ ↦ rfl
  · obtain ⟨sent, after, htransfer, rfl⟩ := (drvSpiXfer_eq_ok hzero).mp hrun
    have hvalid' : message.Valid (prepare sdk device message machine).arena := by
      rwa [prepare_arena]
    rw [releaseCs_eq, ← prepare_arena sdk device message machine]
    by_cases hrefused : Refused message grants
    · obtain ⟨_, hrefusedRun, _, hblocks⟩ := transfer_refused sdk device answer _ hrefused
      obtain ⟨_, rfl⟩ := Prod.mk.inj (Except.ok.inj (htransfer.symm.trans hrefusedRun))
      exact hblocks
    · obtain ⟨hcalloc, hmalloc⟩ := granted_of_not_refused hrefused
      obtain ⟨_, _, hgrantedRun, htransferred⟩ :=
        transfer_spec answer (modeSet_prepare sdk device message machine) hvalid' hcalloc hmalloc
          (lt_of_transfer htransfer hcalloc hmalloc)
      obtain ⟨_, rfl⟩ := Prod.mk.inj (Except.ok.inj (htransfer.symm.trans hgrantedRun))
      exact htransferred.blocks

/-- **SPI transfers.** A call is clean exactly if its message is empty, or its bounce buffers are
granted and no byte received stands in for one to be sent. -/
theorem reportsCleanly_iff (hvalid : message.Valid machine.arena) :
    ReportsCleanly sdk device message grants answer machine ↔
      message.length = 0 ∨ Sound message grants answer := by
  have hmode := modeSet_prepare sdk device message machine
  have hvalid' : message.Valid (prepare sdk device message machine).arena := by
    rwa [prepare_arena]
  constructor
  · rintro ⟨result, hrun, hclean⟩
    refine or_iff_not_imp_left.mpr fun hne ↦ ?_
    obtain ⟨sent, after, htransfer, rfl⟩ := (drvSpiXfer_eq_ok hne).mp hrun
    have hssienr := (hclean.disabled (Nat.pos_of_ne_zero hne)).2
    rw [releaseCs_eq] at hssienr
    obtain ⟨hcalloc, hmalloc⟩ :=
      granted_of_not_refused (not_refused_of_disabled htransfer hssienr)
    have hcounted := lt_of_transfer htransfer hcalloc hmalloc
    refine ⟨hcalloc, hmalloc, hcounted, fun hsend hrecv hlt ↦ ?_⟩
    obtain ⟨sent', after', htransfer', htransferred⟩ :=
      transfer_spec answer hmode hvalid' hcalloc hmalloc hcounted
    obtain ⟨rfl, rfl⟩ := Prod.mk.inj (Except.ok.inj (htransfer.symm.trans htransfer'))
    have hframes := hclean.frames (UInt32.toNat_ofNat_of_lt' hlt)
    exact htransferred.intact hsend hrecv fun index hindex ↦
      (hframes.sent index hindex).trans (if_pos hsend)
  · rintro (hzero | hsound)
    · exact reportsCleanly_of_empty hzero
    · by_cases hzero : message.length = 0
      · exact reportsCleanly_of_empty hzero
      · obtain ⟨sent, after, htransfer, htransferred⟩ :=
          transfer_spec answer hmode hvalid' hsound.calloc hsound.malloc hsound.counted
        exact ⟨_, (drvSpiXfer_eq_ok hzero).mpr ⟨sent, after, htransfer, rfl⟩,
          htransferred.clean hsound.dummy⟩

end Call

theorem merge_and (bits mask value : UInt32) :
    ((bits &&& ~~~mask) ||| (value &&& mask)) &&& mask = value &&& mask := by
  apply UInt32.eq_of_toBitVec_eq
  ext index hindex
  simp only [UInt32.toBitVec_and, UInt32.toBitVec_or, UInt32.toBitVec_not, BitVec.getElem_and,
    BitVec.getElem_or, BitVec.getElem_not]
  cases mask.toBitVec[index] <;> simp

/-- The register update of the SDK, and its numbers. -/
def kendryteSdk : Sdk where
  setBit bits mask value := (bits &&& ~~~mask) ||| (value &&& mask)
  tmodTransRecv := 0
  ssi0TxReq := 1
  ssi0RxReq := 0
  setBit_and := merge_and
  setBit_and_not bits mask value := by
    have hother := merge_and value (~~~mask) bits
    rwa [UInt32.not_not, UInt32.or_comm] at hother

/-- The bus is idle, and the heap has two buffers of four bytes. -/
def idleMachine : Machine where
  ctrlr0 := 0
  dmacr := 0
  ser := 0
  ssienr := 0
  send := ⟨0, none⟩
  recv := ⟨0, none⟩
  csHigh := true
  arena := (Arena.start.push (.bytes ⟨4, fun k ↦ k.toNat.toUInt8⟩)).push (.bytes ⟨4, fun _ ↦ 0⟩)

/-- Four bytes in each direction. -/
def fourBytes : Message := ⟨(1, 0), (2, 0), 4, true, true⟩

/-- The sending channel is up to two bytes ahead. -/
def fourAnswer : Answer fourBytes.length where
  schedule :=
    { events := [.fetch, .fetch, .store, .fetch, .store, .store, .fetch, .store]
      fetches := rfl
      stores := rfl
      causal := by simp [Duplex.Causal] }
  reply k := 9 + k.toUInt8

theorem fourBytes_valid : fourBytes.Valid idleMachine.arena where
  send _ := ⟨⟨4, fun k ↦ k.toNat.toUInt8⟩, rfl, by decide, by decide⟩
  recv _ := ⟨⟨4, fun _ ↦ 0⟩, rfl, by decide, by decide⟩

theorem fourBytes_reportsCleanly :
    ReportsCleanly kendryteSdk ⟨1, 0⟩ fourBytes ⟨true, some fun _ ↦ 0⟩ fourAnswer idleMachine :=
  (reportsCleanly_iff fourBytes_valid).mpr
    (.inr ⟨fun _ ↦ rfl, fun _ ↦ rfl, fun _ ↦ by decide, fun hsend ↦ absurd hsend (by decide)⟩)

/-- If the second allocation fails, the length is returned and nothing has been exchanged. -/
theorem fourBytes_not_reportsCleanly :
    ¬ ReportsCleanly kendryteSdk ⟨1, 0⟩ fourBytes ⟨true, none⟩ fourAnswer idleMachine := by
  rintro ⟨result, hrun, hclean⟩
  have hne : fourBytes.length ≠ 0 := by decide
  obtain ⟨sent, after, htransfer, rfl⟩ := (drvSpiXfer_eq_ok hne).mp hrun
  exact not_refused_of_disabled htransfer (hclean.disabled (by decide)).2
    (.inr ⟨by decide, rfl⟩)

end K210Firmware.Spi.Xfer
