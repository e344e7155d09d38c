import K210Firmware.Spi.Xfer

/-!
# The phases of an SPI transfer

One lemma for each phase of `drv_spi_xfer`: the two copies between the bytes of the caller and the
words of the bounce buffers, and what the two channels do between them.
-/

namespace K210Firmware.Spi.Xfer

open Memory Duplex

/-! ## The copies -/

section Copy

variable {From To : Type} {part : Object → Option (Block From)} {whole : Block To → Object}
  {part' : Object → Option (Block To)} {convert : From → To} {source target : Place}
  {arena : Arena Object}

/-- One turn of the loop stores one element. -/
theorem copyLoop_succ (hwhole : ∀ block, part' (whole block) = some block) {object : Object}
    {given : Block From} {old : Block To} (hgiven : part object = some given) (remaining : ℕ)
    {i : ℤ} (hsource : arena.heap.cell source.1 = some object)
    (htarget : arena.heap.cell target.1 = some (whole old)) (hi : 0 ≤ i)
    (hsourceBounds : 0 ≤ source.2 ∧ source.2 + i < given.size)
    (htargetBounds : 0 ≤ target.2 ∧ target.2 + i < old.size) (hint : i + 1 < 2 ^ 31) :
    copyLoop part whole part' convert source target (remaining + 1) i arena =
      copyLoop part whole part' convert source target remaining (i + 1)
        (arena.replace target.1 (some (whole ⟨old.size, Function.update old.cell (target.2 + i)
          (convert (given.cell (source.2 + i)))⟩))) := by
  have hread : given.read (source.2 + i) = .ok (given.cell (source.2 + i)) :=
    Block.read_eq_ok (by omega) (by omega)
  have hwrite : old.write (target.2 + i) (convert (given.cell (source.2 + i))) =
      .ok ⟨old.size, Function.update old.cell (target.2 + i)
        (convert (given.cell (source.2 + i)))⟩ :=
    Block.write_eq_ok (by omega) (by omega)
  have hnext : int32 (i + 1) = .ok (i + 1) := int32_eq_ok (by omega) (by omega)
  rw [copyLoop, bind_eq_of_run (loadAs_eq_ok given hsource hgiven),
    bind_eq_of_run (computed_eq_ok hread arena),
    bind_eq_of_run (loadAs_eq_ok old htarget (hwhole old)),
    bind_eq_of_run (computed_eq_ok hwrite arena), bind_eq_of_run (store_eq_ok htarget _),
    bind_eq_of_run (computed_eq_ok hnext _)]

/-- **Copy.** From element `i` on, the loop converts the rest, and changes nothing else. -/
theorem copyLoop_spec (hwhole : ∀ block, part' (whole block) = some block)
    (hdistinct : source.1 ≠ target.1) {object : Object} {given : Block From} {old : Block To}
    (hgiven : part object = some given) (remaining : ℕ) (i : ℤ)
    (hsource : arena.heap.cell source.1 = some object)
    (htarget : arena.heap.cell target.1 = some (whole old)) (hi : 0 ≤ i)
    (hsourceBounds : 0 ≤ source.2 ∧ source.2 + i + remaining ≤ given.size)
    (htargetBounds : 0 ≤ target.2 ∧ target.2 + i + remaining ≤ old.size)
    (hint : i + remaining < 2 ^ 31) :
    Returns (copyLoop part whole part' convert source target remaining i) arena fun _ after ↦
      SameOutside target.1 (target.1 + 1) arena after ∧
        ∃ copied, after.heap.cell target.1 = some (whole copied) ∧ copied.size = old.size ∧
          ∀ j : ℤ, copied.cell (target.2 + j) =
            if i ≤ j ∧ j < i + remaining then convert (given.cell (source.2 + j))
            else old.cell (target.2 + j) := by
  induction remaining generalizing i arena old with
  | zero =>
    refine returns_pure ⟨⟨rfl, fun _ _ ↦ rfl⟩, old, htarget, rfl, fun j ↦ ?_⟩
    rw [if_neg (by push_cast; omega)]
  | succ remaining ih =>
    push_cast at hsourceBounds htargetBounds hint
    let stored : Block To := ⟨old.size, Function.update old.cell (target.2 + i)
      (convert (given.cell (source.2 + i)))⟩
    have hsource' : (arena.replace target.1 (some (whole stored))).heap.cell source.1 =
        some object := by
      rw [Arena.cell_replace, if_neg hdistinct, hsource]
    have htarget' : (arena.replace target.1 (some (whole stored))).heap.cell target.1 =
        some (whole stored) := by
      rw [Arena.cell_replace, if_pos rfl, htarget]
      rfl
    have hstoredBounds : 0 ≤ target.2 ∧ target.2 + (i + 1) + remaining ≤ stored.size :=
      ⟨htargetBounds.1, by change _ ≤ old.size; omega⟩
    obtain ⟨_, after, hrun, hsame, copied, hcell, hsize, hcopied⟩ :=
      ih (i + 1) hsource' htarget' (by omega) ⟨by omega, by omega⟩ hstoredBounds (by omega)
    refine ⟨(), after, ?_, ⟨hsame.next, fun address haddress ↦ ?_⟩, copied, hcell, hsize,
      fun j ↦ ?_⟩
    · rw [copyLoop_succ hwhole hgiven remaining hsource htarget hi ⟨hsourceBounds.1, by omega⟩
        ⟨htargetBounds.1, by omega⟩ (by omega)]
      exact hrun
    · exact (hsame.cell address haddress).trans
        ((SameOutside.replace arena target.1 _).cell address haddress)
    · rw [hcopied]
      by_cases hhere : j = i
      · subst hhere
        rw [if_neg (by omega), if_pos (by push_cast; omega)]
        exact Function.update_self ..
      · have hother : stored.cell (target.2 + j) = old.cell (target.2 + j) :=
          Function.update_of_ne (by omega) ..
        rw [hother]
        by_cases hrest : i + 1 ≤ j ∧ j < i + 1 + remaining
        · rw [if_pos hrest, if_pos (by push_cast; omega)]
        · rw [if_neg hrest, if_neg (by push_cast; omega)]

theorem copyIn_spec {sendBuf : Place} {txBuff : Address} {length : ℕ} {given : Block UInt8}
    {old : Block UInt32} (hsource : arena.heap.cell sendBuf.1 = some (.bytes given))
    (htarget : arena.heap.cell txBuff = some (.words old))
    (hbounds : 0 ≤ sendBuf.2 ∧ sendBuf.2 + length ≤ given.size) (hsize : length ≤ old.size)
    (hint : length < 2 ^ 31) :
    Returns (copyIn sendBuf txBuff length) arena fun _ after ↦
      SameOutside txBuff (txBuff + 1) arena after ∧
        ∃ copied, after.heap.cell txBuff = some (.words copied) ∧ copied.size = old.size ∧
          ∀ j : ℕ, j < length → copied.cell j = (given.cell (sendBuf.2 + j)).toUInt32 := by
  have hdistinct : sendBuf.1 ≠ txBuff := fun hsame ↦ by
    rw [hsame, htarget] at hsource
    cases hsource
  unfold copyIn
  refine (copyLoop_spec (fun _ ↦ rfl) hdistinct rfl length 0 hsource htarget le_rfl
    ⟨hbounds.1, by omega⟩ ⟨le_rfl, by omega⟩ (by omega)).mono ?_
  rintro _ after ⟨hsame, copied, hcell, hcopiedSize, hcopied⟩
  refine ⟨hsame, copied, hcell, hcopiedSize, fun j hj ↦ ?_⟩
  have hvalue := hcopied j
  rwa [if_pos (by omega), Int.zero_add] at hvalue

theorem copyOut_spec {rxBuff : Address} {recvBuf : Place} {length : ℕ} {given : Block UInt32}
    {old : Block UInt8} (hsource : arena.heap.cell rxBuff = some (.words given))
    (htarget : arena.heap.cell recvBuf.1 = some (.bytes old)) (hsize : length ≤ given.size)
    (hbounds : 0 ≤ recvBuf.2 ∧ recvBuf.2 + length ≤ old.size) (hint : length < 2 ^ 31) :
    Returns (copyOut rxBuff recvBuf length) arena fun _ after ↦
      SameOutside recvBuf.1 (recvBuf.1 + 1) arena after ∧
        ∃ copied, after.heap.cell recvBuf.1 = some (.bytes copied) ∧ copied.size = old.size ∧
          ∀ j : ℕ, j < length → copied.cell (recvBuf.2 + j) = (given.cell j).toUInt8 := by
  have hdistinct : rxBuff ≠ recvBuf.1 := fun hsame ↦ by
    rw [hsame, htarget] at hsource
    cases hsource
  unfold copyOut
  refine (copyLoop_spec (fun _ ↦ rfl) hdistinct rfl length 0 hsource htarget le_rfl
    ⟨le_rfl, by omega⟩ ⟨hbounds.1, by omega⟩ (by omega)).mono ?_
  rintro _ after ⟨hsame, copied, hcell, hcopiedSize, hcopied⟩
  refine ⟨hsame, copied, hcell, hcopiedSize, fun j hj ↦ ?_⟩
  have hvalue := hcopied j
  rwa [if_pos (by omega), Int.zero_add] at hvalue

/-- A copy that returns has counted in `int`. -/
theorem lt_of_copyLoop {remaining : ℕ} {i : ℤ} {after : Unit × Arena Object}
    (h : copyLoop part whole part' convert source target remaining i arena = .ok after)
    (hi : i < 2 ^ 31) : i + remaining < 2 ^ 31 := by
  induction remaining generalizing i arena with
  | zero => simpa using hi
  | succ remaining ih =>
    unfold copyLoop at h
    obtain ⟨⟨_, _⟩, _, h⟩ := bind_eq_ok.mp h
    obtain ⟨⟨_, _⟩, _, h⟩ := bind_eq_ok.mp h
    obtain ⟨⟨_, _⟩, _, h⟩ := bind_eq_ok.mp h
    obtain ⟨⟨_, _⟩, _, h⟩ := bind_eq_ok.mp h
    obtain ⟨⟨_, _⟩, _, h⟩ := bind_eq_ok.mp h
    obtain ⟨⟨next, _⟩, hnext, h⟩ := bind_eq_ok.mp h
    obtain ⟨value, hvalue, hpair⟩ := bind_eq_ok.mp hnext
    obtain ⟨rfl, _⟩ := Prod.mk.inj (Except.ok.inj hpair)
    obtain rfl := eq_of_int32 hvalue
    have hlt := ih h (range_of_int32 hvalue).2
    push_cast
    omega

end Copy

/-! ## The channels -/

section Channels

variable {count : ℕ} {send recv : Setup} {reply : ℕ → UInt8} {arena : Arena Object} {wire : Wire}

/-- The variable `dummy` once frames have been stored in it. -/
def dummyAfter (reply : ℕ → UInt8) : ℕ → UInt32
  | 0 => 0xFFFFFFFF
  | stored + 1 => (reply stored).toUInt32

/-- The memory once `stored` frames have been received. -/
def Received (recv : Side) (reply : ℕ → UInt8) (count : ℕ) (arena : Arena Object) (stored : ℕ)
    (wire : Wire) : Prop :=
  match recv with
  | .dummy => wire.arena = arena ∧ wire.dummy = dummyAfter reply stored
  | .buffer rxBuff => wire.dummy = 0xFFFFFFFF ∧
      SameOutside rxBuff (rxBuff + 1) arena wire.arena ∧
        ∃ block, wire.arena.heap.cell rxBuff = some (.words block) ∧ (count : ℤ) ≤ block.size ∧
          ∀ j : ℕ, j < stored → block.cell j = (reply j).toUInt32

/-- The words to send are in a buffer of their own, if there is one. -/
def Loaded (send : Setup) (recv : Side) (words : ℤ → UInt32) (count : ℕ) (arena : Arena Object) :
    Prop :=
  match send.memory with
  | .dummy => True
  | .buffer txBuff => send.increment = true ∧ recv ≠ .buffer txBuff ∧
      ∃ size : ℤ, arena.heap.cell txBuff = some (.words ⟨size, words⟩) ∧ (count : ℤ) ≤ size

/-- The word that a fetch finds when `lag` frames have been stored. -/
def fetchedWord (send recv : Side) (words : ℤ → UInt32) (reply : ℕ → UInt8) (index lag : ℕ) :
    UInt32 :=
  match send, recv with
  | .buffer _, _ => words index
  | .dummy, .dummy => dummyAfter reply lag
  | .dummy, .buffer _ => 0xFFFFFFFF

/-- Storing a frame leaves the other buffers alone. -/
theorem Received.cell_of_ne {recv : Side} {stored : ℕ}
    (h : Received recv reply count arena stored wire) {address : Address}
    (hne : recv ≠ .buffer address) :
    wire.arena.heap.cell address = arena.heap.cell address := by
  cases recv with
  | dummy => rw [h.1]
  | buffer rxBuff =>
    have haddress : (address : ℕ) ≠ rxBuff := fun hsame ↦ hne (congrArg Side.buffer hsame.symm)
    exact h.2.1.cell address ((Nat.lt_or_gt_of_ne haddress).imp id id)

/-- What is sent does not matter. -/
theorem received_append {recv : Side} {stored : ℕ}
    (h : Received recv reply count arena stored wire) (byte : UInt8) :
    Received recv reply count arena stored { wire with sent := wire.sent ++ [byte] } := by
  cases recv with
  | dummy => exact h
  | buffer rxBuff => exact h

theorem fetchWord_eq {words : ℤ → UInt32} {index stored : ℕ}
    (hloaded : Loaded send recv.memory words count arena) (hindex : index < count)
    (h : Received recv.memory reply count arena stored wire) :
    fetchWord send index wire =
      .ok (fetchedWord send.memory recv.memory words reply index stored) := by
  rw [fetchWord]
  cases hsend : send.memory with
  | dummy =>
    cases hrecv : recv.memory with
    | dummy =>
      rw [hrecv] at h
      exact congrArg Except.ok h.2
    | buffer rxBuff =>
      rw [hrecv] at h
      exact congrArg Except.ok h.1
  | buffer txBuff =>
    rw [Loaded, hsend] at hloaded
    obtain ⟨hincrement, hne, size, hcell, hsize⟩ := hloaded
    have hload : loadAs Object.asWords txBuff wire.arena = .ok (⟨size, words⟩, wire.arena) :=
      loadAs_eq_ok _ ((h.cell_of_ne hne).trans hcell) rfl
    have hread : (Block.mk size words).read index = .ok (words index) :=
      Block.read_eq_ok (by omega) (by change (index : ℤ) < size; omega)
    simp only [Setup.place, if_pos hincrement, hload, ok_bind]
    exact hread

theorem storeWord_spec {stored : ℕ} (hincrement : recv.memory ≠ .dummy → recv.increment = true)
    (hstored : stored < count) (h : Received recv.memory reply count arena stored wire) :
    ∃ next, storeWord recv reply stored wire = .ok next ∧ next.sent = wire.sent ∧
      Received recv.memory reply count arena (stored + 1) next := by
  rw [storeWord]
  cases hrecv : recv.memory with
  | dummy =>
    rw [hrecv] at h
    exact ⟨_, rfl, rfl, h.1, rfl⟩
  | buffer rxBuff =>
    rw [hrecv] at h hincrement
    obtain ⟨hdummy, hsame, block, hcell, hsize, hreplies⟩ := h
    let written : Block UInt32 :=
      ⟨block.size, Function.update block.cell stored (reply stored).toUInt32⟩
    have hload : loadAs Object.asWords rxBuff wire.arena = .ok (block, wire.arena) :=
      loadAs_eq_ok block hcell rfl
    have hplace : recv.place stored = stored := if_pos (hincrement (Side.noConfusion ·))
    have hwrite : block.write stored (reply stored).toUInt32 = .ok written :=
      Block.write_eq_ok (by omega) (by omega)
    refine ⟨{ wire with arena := wire.arena.replace rxBuff (some (.words written)) }, ?_, rfl,
      hdummy, ⟨hsame.next, fun address haddress ↦ ?_⟩, written, ?_, hsize, fun j hj ↦ ?_⟩
    · simp only [hplace, hload, hwrite, store_eq_ok hcell, ok_bind]
      rfl
    · exact ((SameOutside.replace wire.arena rxBuff _).cell address haddress).trans
        (hsame.cell address haddress)
    · rw [Arena.cell_replace, if_pos rfl, hcell]
      rfl
    · by_cases hlast : j = stored
      · subst hlast
        exact Function.update_self ..
      · exact (Function.update_of_ne (by omega) ..).trans (hreplies j (by omega))

/-- The wire has the words that the fetches so far have found, and the memory the frames stored. -/
def Exchanged (send recv : Side) (words : ℤ → UInt32) (reply : ℕ → UInt8) (count : ℕ)
    (arena : Arena Object) (past : List ℕ) (stored : ℕ) (wire : Wire) : Prop :=
  wire.sent = past.mapIdx (fun index lag ↦
      (fetchedWord send recv words reply index lag).toUInt8) ∧
    Received recv reply count arena stored wire

/-- **The exchange.** Whatever the order of the channels, the wire gets the words that the fetches
find, and the memory the frames received. -/
theorem run_spec (schedule : Schedule count) {words : ℤ → UInt32}
    (hloaded : Loaded send recv.memory words count arena)
    (hincrement : recv.memory ≠ .dummy → recv.increment = true)
    (hstart : Received recv.memory reply count arena 0 ⟨arena, 0xFFFFFFFF, []⟩) :
    ∃ wire, run (fetch send) (storeWord recv reply) 0 0 schedule.events
        ⟨arena, 0xFFFFFFFF, []⟩ = .ok wire ∧
      Exchanged send.memory recv.memory words reply count arena schedule.lags count wire := by
  refine run_rule schedule ?_ ?_ ⟨rfl, hstart⟩
  · rintro past stored wire hlength ⟨hsent, hreceived⟩
    let word := fetchedWord send.memory recv.memory words reply past.length stored
    refine ⟨{ wire with sent := wire.sent ++ [word.toUInt8] }, ?_, ?_, ?_⟩
    · rw [fetch, fetchWord_eq hloaded hlength hreceived, ok_bind]
      rfl
    · rw [List.mapIdx_concat, ← hsent]
    · exact received_append hreceived word.toUInt8
  · rintro past stored wire hlt hlength ⟨hsent, hreceived⟩
    obtain ⟨next, hnext, hsame, hafter⟩ := storeWord_spec hincrement (by omega) hreceived
    exact ⟨next, hnext, hsame.trans hsent, hafter⟩

end Channels

/-! ## Arming -/

section Arming

variable {message : Message} {machine : Machine}

/-- A buffer of the caller that holds the bytes of the message. -/
def Holds (arena : Arena Object) (buffer : Place) (length : ℕ) : Prop :=
  ∃ block, arena.heap.cell buffer.1 = some (.bytes block) ∧ 0 ≤ buffer.2 ∧
    buffer.2 + length ≤ block.size

/-- The buffers that a message has are live and long enough. -/
structure Message.Valid (message : Message) (arena : Arena Object) : Prop where
  send : message.sendBuf.1 ≠ 0 → Holds arena message.sendBuf message.length
  recv : message.recvBuf.1 ≠ 0 → Holds arena message.recvBuf message.length

/-- Allocations leave the buffers of the caller alone. -/
theorem Holds.grows {before after : Arena Object} {buffer : Place} {length : ℕ}
    (h : Holds before buffer length) (hgrows : Grows before after) : Holds after buffer length := by
  obtain ⟨block, hcell, hbounds⟩ := h
  exact ⟨block, (hgrows.cell buffer.1 (Arena.lt_next_of_cell hcell)).trans hcell, hbounds⟩

theorem bufferWords_eq {length : ℕ} (h : length < 2 ^ 31) : bufferWords length = length := by
  rw [bufferWords]
  omega

/-- At most the block at `address` is new; the null address stands for none. -/
structure Allocates (before after : Arena Object) (address : ℕ) : Prop where
  fresh : before.heap.cell address = none
  cell : ∀ other : ℕ, other ≠ address → after.heap.cell other = before.heap.cell other

theorem Allocates.push (arena : Arena Object) (object : Object) :
    Allocates arena (arena.push object) arena.next where
  fresh := arena.fresh arena.next le_rfl
  cell _ hother := (Arena.cell_push _ _).trans (if_neg hother)

theorem Allocates.sameOutside {before middle after : Arena Object} {address : ℕ}
    (h : Allocates before middle address) (hsame : SameOutside address (address + 1) middle after) :
    Allocates before after address where
  fresh := h.fresh
  cell other hother :=
    (hsame.cell other (Nat.lt_or_gt_of_ne hother)).trans (h.cell other hother)

theorem Allocates.null (arena : Arena Object) : Allocates arena arena 0 :=
  ⟨arena.null, fun _ _ ↦ rfl⟩

/-- The receiving channel is armed on `dummy`, or on a new buffer of its own. -/
structure RecvArmed (message : Message) (machine armed : Machine) (rxBuff : Address)
    (setup : Setup) : Prop where
  machine_eq : armed = { machine with
    arena := armed.arena, recv := { machine.recv with setup := some setup } }
  blockSize : setup.blockSize = message.length
  grows : Grows machine.arena armed.arena
  allocates : Allocates machine.arena armed.arena rxBuff
  side : message.recvBuf.1 = 0 ∧ rxBuff = 0 ∧ setup.memory = .dummy ∨
    message.recvBuf.1 ≠ 0 ∧ rxBuff = machine.arena.next ∧ rxBuff < armed.arena.next ∧
      setup.memory = .buffer rxBuff ∧ setup.increment = true ∧
      armed.arena.heap.cell rxBuff = some (.words ⟨bufferWords message.length, fun _ ↦ 0⟩)

theorem armRecv_spec (machine : Machine) {granted : Bool}
    (hgranted : message.recvBuf.1 ≠ 0 → granted = true) :
    ∃ rxBuff armed setup, armRecv message granted machine = .ok (some rxBuff, armed) ∧
      RecvArmed message machine armed rxBuff setup := by
  by_cases hnull : message.recvBuf.1 = 0
  · exact ⟨0, _, _, if_pos hnull, rfl, rfl, Grows.refl _, Allocates.null _,
      .inl ⟨hnull, rfl, rfl⟩⟩
  · let leftover : Object := .words ⟨bufferWords message.length, fun _ ↦ 0⟩
    refine ⟨machine.arena.next, { machine with
      arena := machine.arena.push leftover
      recv := { machine.recv with
        setup := some ⟨.buffer machine.arena.next, true, 1, message.length⟩ } },
      ⟨.buffer machine.arena.next, true, 1, message.length⟩, ?_, rfl, rfl, Grows.push _ _,
      Allocates.push _ _, .inr ⟨hnull, rfl, Nat.lt_succ_self _, rfl, rfl, ?_⟩⟩
    · rw [armRecv, if_neg hnull, if_pos (hgranted hnull)]
      exact if_neg Arena.next_ne_zero
    · exact (Arena.cell_push _ _).trans (if_pos rfl)

theorem armRecv_refused (hnull : message.recvBuf.1 ≠ 0) :
    armRecv message false machine = .ok (none, machine) := by
  rw [armRecv, if_neg hnull]
  rfl

/-- The sending channel is armed on `dummy`, or on a new buffer with the bytes of the caller. -/
structure SendArmed (message : Message) (machine armed : Machine) (txBuff : Address)
    (setup : Setup) (words : ℤ → UInt32) : Prop where
  machine_eq : armed = { machine with
    arena := armed.arena, send := { machine.send with setup := some setup } }
  blockSize : setup.blockSize = message.length
  grows : Grows machine.arena armed.arena
  allocates : Allocates machine.arena armed.arena txBuff
  side : message.sendBuf.1 = 0 ∧ txBuff = 0 ∧ setup.memory = .dummy ∨
    message.sendBuf.1 ≠ 0 ∧ txBuff = machine.arena.next ∧ setup.memory = .buffer txBuff ∧
      setup.increment = true ∧
      armed.arena.heap.cell txBuff = some (.words ⟨bufferWords message.length, words⟩) ∧
      ∀ given, machine.arena.heap.cell message.sendBuf.1 = some (.bytes given) →
        ∀ j : ℕ, j < message.length → words j = (given.cell (message.sendBuf.2 + j)).toUInt32

theorem armSend_spec {granted : Option (ℤ → UInt32)}
    (hgranted : message.sendBuf.1 ≠ 0 → granted.isSome)
    (hvalid : message.sendBuf.1 ≠ 0 → Holds machine.arena message.sendBuf message.length)
    (hint : message.sendBuf.1 ≠ 0 → message.length < 2 ^ 31) :
    ∃ txBuff armed setup words, armSend message granted machine = .ok (some txBuff, armed) ∧
      SendArmed message machine armed txBuff setup words := by
  by_cases hnull : message.sendBuf.1 = 0
  · exact ⟨0, _, _, fun _ ↦ 0, if_pos hnull, rfl, rfl, Grows.refl _, Allocates.null _,
      .inl ⟨hnull, rfl, rfl⟩⟩
  · obtain ⟨leftover, rfl⟩ := Option.isSome_iff_exists.mp (hgranted hnull)
    obtain ⟨given, hgiven, hlower, hupper⟩ := hvalid hnull
    have hlength := hint hnull
    let fresh : Block UInt32 := ⟨bufferWords message.length, leftover⟩
    have hbefore : (message.sendBuf.1 : ℕ) < machine.arena.next := Arena.lt_next_of_cell hgiven
    have hsource : (machine.arena.push (.words fresh)).heap.cell message.sendBuf.1 =
        some (.bytes given) := by
      rw [Arena.cell_push, if_neg (Nat.ne_of_lt hbefore), hgiven]
    have htarget : (machine.arena.push (.words fresh)).heap.cell machine.arena.next =
        some (.words fresh) :=
      (Arena.cell_push _ _).trans (if_pos rfl)
    have hsize : fresh.size = message.length := bufferWords_eq hlength
    obtain ⟨_, after, hcopy, hsame, copied, hcell, hcopiedSize, hcopied⟩ :=
      copyIn_spec hsource htarget ⟨hlower, hupper⟩ hsize.ge hlength
    refine ⟨machine.arena.next, { machine with
      arena := after
      send := { machine.send with
        setup := some ⟨.buffer machine.arena.next, true, 4, message.length⟩ } },
      ⟨.buffer machine.arena.next, true, 4, message.length⟩, copied.cell, ?_, rfl, rfl,
      hsame.grows (Grows.push _ _) le_rfl, (Allocates.push _ _).sameOutside hsame,
      .inr ⟨hnull, rfl, rfl, rfl, ?_, ?_⟩⟩
    · rw [armSend, if_neg hnull]
      change (if machine.arena.next = 0 then _ else _) = _
      rw [if_neg Arena.next_ne_zero, hcopy]
      rfl
    · exact hcell.trans (congrArg (fun size ↦ some (Object.words ⟨size, copied.cell⟩)) hcopiedSize)
    · intro given' hgiven' j hj
      obtain rfl : given = given' := Object.bytes.inj (Option.some.inj (hgiven.symm.trans hgiven'))
      exact hcopied j hj

theorem armSend_refused (hnull : message.sendBuf.1 ≠ 0) :
    armSend message none machine = .ok (none, machine) := by
  rw [armSend, if_neg hnull]
  rfl

/-- A sending channel that is armed on a buffer has counted in `int`. -/
theorem lt_of_armSend {granted : Option (ℤ → UInt32)} {outcome : Option Address × Machine}
    (h : armSend message granted machine = .ok outcome) (hsome : message.sendBuf.1 ≠ 0)
    (hgranted : granted.isSome) : message.length < 2 ^ 31 := by
  obtain ⟨leftover, rfl⟩ := Option.isSome_iff_exists.mp hgranted
  rw [armSend, if_neg hsome] at h
  obtain ⟨⟨txBuff, arena⟩, hmalloc, h⟩ := bind_eq_ok.mp h
  obtain ⟨rfl, rfl⟩ := Prod.mk.inj (Except.ok.inj hmalloc)
  simp only [if_neg Arena.next_ne_zero] at h
  obtain ⟨after, hcopy, _⟩ := bind_eq_ok.mp h
  have hlt := lt_of_copyLoop hcopy (by decide)
  omega

end Arming

/-! ## Waiting and cleaning up -/

section Ending

variable {sdk : Sdk} {device : Device} {machine : Machine}

/-- The mode that `spiSetTmod` sets is the one the transfer needs. -/
theorem spiSetTmod_and (sdk : Sdk) (spiNum : Fin 4) (tmod : UInt32) (machine : Machine) :
    (spiSetTmod sdk spiNum tmod machine).ctrlr0 &&& (3 <<< tmodOffset spiNum) =
      (tmod <<< tmodOffset spiNum) &&& (3 <<< tmodOffset spiNum) :=
  sdk.setBit_and ..

/-- The other fields of the register keep their values. -/
theorem spiSetTmod_and_not (sdk : Sdk) (spiNum : Fin 4) (tmod : UInt32) (machine : Machine) :
    (spiSetTmod sdk spiNum tmod machine).ctrlr0 &&& ~~~(3 <<< tmodOffset spiNum) =
      machine.ctrlr0 &&& ~~~(3 <<< tmodOffset spiNum) :=
  sdk.setBit_and_not ..

/-- Each device has its own bit in `ser`. -/
theorem select_ne_zero (index : Fin 4) : (1 : UInt32) <<< index.val.toUInt32 ≠ 0 := by
  revert index
  decide

/-- With both channels armed for all frames and the controller running, the wait ends. -/
theorem dmacWaitDone_spec (machine : Machine) {count : ℕ} (answer : Answer count)
    {send recv : Setup} {words : ℤ → UInt32} (hsend : machine.send.setup = some send)
    (hrecv : machine.recv.setup = some recv) (hrunning : Running sdk device machine)
    (hsendSize : send.blockSize = count) (hrecvSize : recv.blockSize = count)
    (hloaded : Loaded send recv.memory words count machine.arena)
    (hincrement : recv.memory ≠ .dummy → recv.increment = true)
    (hstart : Received recv.memory answer.reply count machine.arena 0
      ⟨machine.arena, 0xFFFFFFFF, []⟩) :
    ∃ wire, dmacWaitDone sdk device answer machine = .ok (wire.sent, { machine with
        send := { machine.send with setup := none }
        recv := { machine.recv with setup := none }
        arena := wire.arena }) ∧
      Exchanged send.memory recv.memory words answer.reply count machine.arena
        answer.schedule.lags count wire := by
  obtain ⟨wire, hrun, hexchanged⟩ := run_spec answer.schedule hloaded hincrement hstart
  refine ⟨wire, ?_, hexchanged⟩
  rw [dmacWaitDone, hsend, hrecv]
  simp only
  rw [if_pos ⟨hrunning, hsendSize, hrecvSize⟩, hrun]
  rfl

/-- A bounce buffer to free is live. -/
def Live (arena : Arena Object) (address : Address) : Prop :=
  address ≠ 0 → ∃ object, arena.heap.cell address = some object

theorem freeIf_spec {arena : Arena Object} {address : ℕ} (h : Live arena address) :
    Returns (freeIf address) arena fun _ after ↦
      SameOutside address (address + 1) arena after ∧ after.heap.cell address = none := by
  by_cases hnull : address = 0
  · subst hnull
    exact ⟨(), arena, freeIf_zero arena, ⟨rfl, fun _ _ ↦ rfl⟩, arena.null⟩
  · obtain ⟨object, hcell⟩ := h hnull
    refine ⟨(), _, freeIf_eq_ok hcell, SameOutside.replace arena address none, ?_⟩
    rw [Arena.cell_replace, if_pos rfl, hcell]
    rfl

/-- Both bounce buffers are freed, and nothing else. -/
theorem transferDone_spec {txBuff rxBuff : ℕ} (htx : Live machine.arena txBuff)
    (hrx : Live machine.arena rxBuff) (hne : rxBuff ≠ 0 → txBuff ≠ rxBuff) :
    ∃ after, transferDone txBuff rxBuff machine = .ok { machine with arena := after } ∧
      after.heap.cell txBuff = none ∧ after.heap.cell rxBuff = none ∧
      ∀ address : ℕ, address ≠ txBuff → address ≠ rxBuff →
        after.heap.cell address = machine.arena.heap.cell address := by
  obtain ⟨_, middle, htxRun, htxSame, htxFreed⟩ := freeIf_spec htx
  have hrx' : Live middle rxBuff := fun hnull ↦ by
    rw [htxSame.cell rxBuff (Nat.lt_or_gt_of_ne (hne hnull).symm)]
    exact hrx hnull
  obtain ⟨_, after, hrxRun, hrxSame, hrxFreed⟩ := freeIf_spec hrx'
  refine ⟨after, ?_, ?_, hrxFreed, fun address htxNe hrxNe ↦ ?_⟩
  · rw [transferDone, htxRun, ok_bind]
    simp only [hrxRun, ok_bind]
    rfl
  · by_cases hsame : txBuff = rxBuff
    · rw [hsame, hrxFreed]
    · rw [hrxSame.cell txBuff (Nat.lt_or_gt_of_ne hsame), htxFreed]
  · rw [hrxSame.cell address (Nat.lt_or_gt_of_ne hrxNe),
      htxSame.cell address (Nat.lt_or_gt_of_ne htxNe)]

end Ending

end K210Firmware.Spi.Xfer
