import K210Firmware.Log.Books

/-!
# Delivery of logs

In every interleaving of loggers, readers and the thread `ulog_async` no step fails, every log that
got a block is printed at most once and as it was logged, and complete logs are taken in the order
in which they got their blocks. The thread can sleep on a complete log in one case only:
`ulog_async_waiting_log` resets `async_notice` before it takes it, and the notice of a log put
between the last look into the buffer and the reset is lost.
-/

namespace K210Firmware.Log

open Memory Extent

namespace Ulog

variable {ulog : Ulog}

def Inv (ulog : Ulog) : Prop :=
  Books ulog.asyncRbb ulog.buf ulog.accepted ulog.ids ulog.loggers ulog.readers ulog.printed

theorem Inv.init {buf : ℕ} (blockSet : ℕ → RtRbbBlk) (bytes : ℤ → UInt8)
    (hfits : buf + 2048 < 2 ^ 64) : Inv (Ulog.init buf blockSet bytes) :=
  { sound := RtRbb.Sound.init blockSet hfits
    size := rfl
    room := (by decide : 280 ≤ Kernel.Slab.rtAlign ulogAsyncOutputBufSize 8)
    filling := ⟨List.nodup_nil, fun _ ↦ by simp [Has, Ulog.init, rtRbbInit]⟩
    printing := ⟨List.nodup_nil, fun _ ↦ by simp [Has, Ulog.init, rtRbbInit]⟩
    logger := List.forall_mem_nil _
    waiting := fun _ hi ↦ absurd hi.1 List.not_mem_nil
    reader := List.forall_mem_nil _
    numbered := .nil
    conserved := .nil
    intact := List.forall_mem_nil _ }

/-! ## One step -/

theorem Inv.doOutput (h : ulog.Inv) {record : Record} (hvalid : record.Valid) :
    (∃ block addr, block ∉ ulog.asyncRbb.blkList ∧ ∃ next : Ulog, ulog.doOutput record = .ok next ∧
        next.Inv ∧ next = { ulog with
          asyncRbb := ulog.asyncRbb.append block record.blkSize addr
          loggers := ⟨block, record, 0⟩ :: ulog.loggers
          accepted := ulog.accepted ++ [record]
          ids := Function.update ulog.ids block ulog.accepted.length }) ∨
      ulog.doOutput record = .ok { ulog with alreadyOutput := true } := by
  have hbooks : Books .. := h
  obtain ⟨hlower, hupper⟩ := hvalid.blkSize_spec
  have hroom := hbooks.room
  have hpos : 0 < record.blkSize := by
    simp only [sizeofUlogFrame] at hlower
    omega
  rcases hbooks.sound.rtRbbBlkAlloc_cases hpos (by omega) (by omega) with
    ⟨block, addr, halloc, hnot, hsound, _⟩ | ⟨halloc, _⟩
  · refine .inl ⟨block, addr, hnot, _, ?_, ?_, rfl⟩
    · rw [Ulog.doOutput, halloc]
      rfl
    · exact hbooks.append hvalid hnot hsound
  · right
    rw [Ulog.doOutput, halloc]
    rfl

theorem Inv.store (h : ulog.Inv) {logger : Logger} (hmem : logger ∈ ulog.loggers)
    (hmore : logger.stored < (logger.record.bytes (ulog.addr logger.block)).length) :
    ∃ buf, ulog.store logger = .ok { ulog with
        buf
        loggers := { logger with stored := logger.stored + 1 } :: ulog.loggers.erase logger } ∧
      Inv { ulog with
        buf
        loggers := { logger with stored := logger.stored + 1 } :: ulog.loggers.erase logger } := by
  have hbooks : Books .. := h
  have hperm := hbooks.perm (List.perm_cons_erase hmem) (List.Perm.refl _)
  obtain ⟨buf, hwrite, hnext⟩ := hperm.store hmore
  refine ⟨buf, ?_, hnext⟩
  unfold Ulog.store Ulog.index Ulog.addr
  simp only
  rw [hwrite]
  rfl

theorem Inv.put (h : ulog.Inv) {logger : Logger} (hmem : logger ∈ ulog.loggers)
    (hdone : logger.stored = (logger.record.bytes (ulog.addr logger.block)).length) :
    ∃ next : Ulog, ulog.put logger = .ok next ∧ next.Inv ∧ next = { ulog with
      asyncRbb := ulog.asyncRbb.setStatus logger.block .put
      loggers := ulog.loggers.erase logger
      notices := ulog.ids logger.block :: ulog.notices
      notes := ulog.notes ++ [.put (ulog.ids logger.block)] } := by
  have hbooks : Books .. := h
  have hperm := hbooks.perm (List.perm_cons_erase hmem) (List.Perm.refl _)
  refine ⟨_, ?_, ?_, rfl⟩
  · rw [Ulog.put, RtRbb.rtRbbBlkPut_eq (hbooks.has_logger hmem).2]
    rfl
  · exact hperm.put hdone

/-- The header of a frame that is read has addresses. -/
theorem Inv.header_fits (h : ulog.Inv) {reader : Reader} {record : Record}
    (hmem : reader ∈ ulog.readers)
    (hpacked : Packed ulog.asyncRbb ulog.buf ulog.accepted ulog.ids reader.block record) :
    ulog.addr reader.block + sizeofUlogFrame < 2 ^ 64 := by
  have hbooks : Books .. := h
  have hwithin := hbooks.sound.within (hbooks.has_reader hmem).1
  have hle := hpacked.frame_le
  have hfits := hbooks.sound.fits
  rw [List.take_length, Record.length_bytes] at hle
  simp only [RtRbbBlk.extent, RtRbb.whole, Within, stop] at hwithin
  unfold Ulog.addr
  omega

/-- A frame is read to its end inside its block. -/
theorem Inv.nextAddr (h : ulog.Inv) {reader : Reader} (hmem : reader ∈ ulog.readers) :
    ∃ record, Packed ulog.asyncRbb ulog.buf ulog.accepted ulog.ids reader.block record ∧
      reader.fetched <+: record.bytes (ulog.addr reader.block) ∧
      ulog.nextAddr reader =
        if reader.fetched.length < (record.bytes (ulog.addr reader.block)).length then
          some (ulog.addr reader.block + reader.fetched.length)
        else none := by
  have hbooks : Books .. := h
  obtain ⟨record, hpacked, hfetched⟩ := hbooks.reader reader hmem
  exact ⟨record, hpacked, hfetched,
    hpacked.valid.nextAddr_eq rfl (h.header_fits hmem hpacked) hfetched⟩

theorem Inv.fetch (h : ulog.Inv) {reader : Reader} (hmem : reader ∈ ulog.readers)
    (hmore : ulog.nextAddr reader ≠ none) :
    ∃ byte, ulog.fetch reader = .ok { ulog with
        readers := { reader with fetched := reader.fetched ++ [byte] } :: ulog.readers.erase reader } ∧
      Inv { ulog with
        readers :=
          { reader with fetched := reader.fetched ++ [byte] } :: ulog.readers.erase reader } := by
  have hbooks : Books .. := h
  obtain ⟨record, hpacked, hfetched, hnext⟩ := h.nextAddr hmem
  have hlt : reader.fetched.length < (record.bytes (ulog.addr reader.block)).length := by
    by_contra hdone
    rw [if_neg hdone] at hnext
    exact hmore hnext
  rw [if_pos hlt] at hnext
  have hperm := hbooks.perm (List.Perm.refl _) (List.perm_cons_erase hmem)
  obtain ⟨byte, hread, hnextBooks⟩ := hperm.fetch hpacked hfetched hlt
  refine ⟨byte, ?_, hnextBooks⟩
  unfold Ulog.fetch Ulog.index
  simp only [hnext, Option.getD_some]
  unfold Ulog.addr
  rw [hread]
  rfl

theorem Inv.print (h : ulog.Inv) {reader : Reader} (hmem : reader ∈ ulog.readers)
    (hdone : ulog.nextAddr reader = none) :
    ∃ record, ∃ next : Ulog, ulog.print reader = .ok next ∧ next.Inv ∧ next = { ulog with
      asyncRbb := { ulog.asyncRbb.setStatus reader.block .unused with
        blkList := ulog.asyncRbb.blkList.erase reader.block }
      asyncTh := if reader.caller = .asyncTh then .looking else ulog.asyncTh
      readers := ulog.readers.erase reader
      printed := ulog.printed ++ [(ulog.ids reader.block, record)] } := by
  have hbooks : Books .. := h
  obtain ⟨record, hpacked, hfetched, hnext⟩ := h.nextAddr hmem
  have hwhole : reader.fetched = record.bytes (ulog.addr reader.block) := by
    refine hfetched.eq_of_length_le (Nat.not_lt.mp fun hlt ↦ ?_)
    rw [if_pos hlt, hdone] at hnext
    cases hnext
  have houtput : outputOf reader.fetched = some record := by
    rw [hwhole]
    exact hpacked.valid.outputOf_bytes (h.header_fits hmem hpacked)
  have hperm := hbooks.perm (List.Perm.refl _) (List.perm_cons_erase hmem)
  have hstatus : (ulog.asyncRbb.blkSet reader.block).status ≠ .unused := by
    rw [(hbooks.has_reader hmem).2]
    decide
  refine ⟨record, _, ?_, ?_, rfl⟩
  · rw [Ulog.print, RtRbb.rtRbbBlkFree_eq hstatus, houtput]
    rfl
  · exact hperm.print hpacked

/-- The thread or a caller of `ulog_flush` takes the first complete log, or finds none. -/
theorem Inv.get (h : ulog.Inv) (caller : Caller) :
    (∃ block, Has ulog.asyncRbb block .put ∧
        (∀ i, Has ulog.asyncRbb i .put → ulog.ids block ≤ ulog.ids i) ∧
        (ulog.get caller).Inv ∧ ulog.get caller = { ulog with
          asyncRbb := ulog.asyncRbb.setStatus block .get
          asyncTh := if caller = .asyncTh then .printing else ulog.asyncTh
          readers := ⟨caller, block, []⟩ :: ulog.readers
          notes := ulog.notes ++ [.taken (ulog.ids block)] }) ∨
      ((∀ i, ¬ Has ulog.asyncRbb i .put) ∧ (ulog.get caller).Inv ∧
        ulog.get caller = match caller with
          | .asyncTh => { ulog with asyncTh := .resetting, notes := ulog.notes ++ [.empty] }
          | .flush => ulog) := by
  have hbooks : Books .. := h
  rcases RtRbb.rtRbbBlkGet_cases ulog.asyncRbb with
    ⟨before, block, after, hlist, hbefore, hput, hget⟩ | ⟨hnone, hget⟩
  · have hhas : Has ulog.asyncRbb block .put := ⟨by simp [hlist], hput⟩
    have hnext : ulog.get caller = { ulog with
        asyncRbb := ulog.asyncRbb.setStatus block .get
        asyncTh := if caller = .asyncTh then .printing else ulog.asyncTh
        readers := ⟨caller, block, []⟩ :: ulog.readers
        notes := ulog.notes ++ [.taken (ulog.ids block)] } := by
      unfold Ulog.get
      rw [hget]
    refine .inl ⟨block, hhas, fun i hi ↦ ?_, ?_, hnext⟩
    · -- what is before the block in the list has not been put
      have hnumbered := hbooks.numbered
      rw [hlist, List.map_append, List.map_cons] at hnumbered
      obtain ⟨_, hrest, _⟩ := List.pairwise_append.mp hnumbered
      have hmem := hi.1
      rw [hlist] at hmem
      rcases List.mem_append.mp hmem with hearlier | hmem
      · exact absurd hi.2 (hbefore i hearlier)
      · rcases List.mem_cons.mp hmem with rfl | hlater
        · exact Nat.le_refl _
        · exact ((List.pairwise_cons.mp hrest).1 _ (List.mem_map_of_mem hlater)).le
    · rw [hnext]
      exact hbooks.get hhas caller
  · have hnext : ulog.get caller = match caller with
        | .asyncTh => { ulog with asyncTh := .resetting, notes := ulog.notes ++ [.empty] }
        | .flush => ulog := by
      unfold Ulog.get
      rw [hget]
      cases caller <;> rfl
    refine .inr ⟨fun i hi ↦ hnone i hi.1 hi.2, ?_, hnext⟩
    rw [hnext]
    cases caller <;> exact h

/-! ## Runs -/

/-- **One step.** No step fails, and each keeps the books. -/
theorem Inv.step (h : ulog.Inv) {event : UlogEvent} (henabled : UlogEnabled ulog event) :
    ∃ next, ulog.step event = .ok next ∧ next.Inv := by
  cases event with
  | doOutput record =>
    obtain ⟨hlevel, htag, hlog⟩ := henabled
    rcases h.doOutput ⟨hlevel, htag, hlog⟩ with ⟨_, _, _, next, hrun, hnext, _⟩ | hrun
    · exact ⟨next, hrun, hnext⟩
    · exact ⟨_, hrun, h⟩
  | store logger =>
    obtain ⟨buf, hrun, hnext⟩ := h.store henabled.1 henabled.2
    exact ⟨_, hrun, hnext⟩
  | put logger =>
    obtain ⟨next, hrun, hnext, _⟩ := h.put henabled.1 henabled.2
    exact ⟨next, hrun, hnext⟩
  | release id =>
    refine ⟨_, rfl, ?_⟩
    unfold Ulog.release
    split <;> exact h
  | get caller =>
    refine ⟨_, rfl, ?_⟩
    rcases h.get caller with ⟨_, _, _, hnext, _⟩ | ⟨_, hnext, _⟩ <;> exact hnext
  | fetch reader =>
    obtain ⟨byte, hrun, hnext⟩ := h.fetch henabled.1 henabled.2
    exact ⟨_, hrun, hnext⟩
  | print reader =>
    obtain ⟨record, next, hrun, hnext, _⟩ := h.print henabled.1 henabled.2
    exact ⟨next, hrun, hnext⟩
  | reset => exact ⟨_, rfl, h⟩
  | take =>
    refine ⟨_, rfl, ?_⟩
    unfold Ulog.take
    split <;> exact h

end Ulog

section Results

variable {buf : ℕ} {blockSet : ℕ → RtRbbBlk} {bytes : ℤ → UInt8} {events : List UlogEvent}
  {ulog : Ulog}

section Example

def exampleBuf : ℕ := 0x80200000

/-- A letter that is logged as information. -/
def exampleRecord (letter : UInt8) : Record := ⟨6, 0x80010000, false, [letter]⟩

/-- The bytes of a frame are stored, and the block is put. -/
def storeEvents (block : ℕ) (record : Record) (addr : ℕ) : List UlogEvent :=
  ((List.range (record.bytes addr).length).map fun stored ↦ .store ⟨block, record, stored⟩) ++
    [.put ⟨block, record, (record.bytes addr).length⟩]

/-- The bytes of a frame are fetched, and the log is printed. -/
def printEvents (block : ℕ) (record : Record) (addr : ℕ) : List UlogEvent :=
  ((List.range (record.bytes addr).length).map fun count ↦
      .fetch ⟨.asyncTh, block, (record.bytes addr).take count⟩) ++
    [.print ⟨.asyncTh, block, record.bytes addr⟩]

/-- Two logs get blocks, the second is put first and printed, and then the first one. While the
thread goes to sleep, a third log is put. -/
def threeLogs : List UlogEvent :=
  [.doOutput (exampleRecord 0x61), .doOutput (exampleRecord 0x62)] ++
    storeEvents 1 (exampleRecord 0x62) (exampleBuf + 32) ++ [.release 1, .get .asyncTh] ++
    printEvents 1 (exampleRecord 0x62) (exampleBuf + 32) ++
    storeEvents 0 (exampleRecord 0x61) exampleBuf ++ [.get .asyncTh, .release 0] ++
    printEvents 0 (exampleRecord 0x61) exampleBuf ++
    [.get .asyncTh, .doOutput (exampleRecord 0x63)] ++
    storeEvents 0 (exampleRecord 0x63) exampleBuf ++ [.release 2, .reset, .take]

theorem run_threeLogs : ∃ ulog,
    ulogSystem.Run (Ulog.init exampleBuf (fun _ ↦ ⟨.get, 0, 0⟩) fun _ ↦ 0) threeLogs ulog ∧
      (ulog.asyncTh = .blocked ∧ ulog.accepted.length = 3 ∧
        ulog.printed = [(1, exampleRecord 0x62), (0, exampleRecord 0x61)] ∧
        ulog.notes.take 4 = [.put 1, .noticed 1, .taken 1, .put 0]) := by
  have hruns : (ulogSystem.execute (Ulog.init exampleBuf (fun _ ↦ ⟨.get, 0, 0⟩) fun _ ↦ 0)
      threeLogs).any fun ulog ↦ ulog.asyncTh = .blocked ∧ ulog.accepted.length = 3 ∧
        ulog.printed = [(1, exampleRecord 0x62), (0, exampleRecord 0x61)] ∧
        ulog.notes.take 4 = [.put 1, .noticed 1, .taken 1, .put 0] := by
    decide +kernel
  obtain ⟨ulog, hrun, hends⟩ := Transition.System.Run.exists_of_execute hruns
  exact ⟨ulog, hrun, of_decide_eq_true hends⟩

end Example

theorem run_inv (hfits : buf + 2048 < 2 ^ 64)
    (hrun : ulogSystem.Run (Ulog.init buf blockSet bytes) events ulog) : ulog.Inv := by
  have hpreserves : ∀ ulog event next, Ulog.Inv ulog → ulogSystem.enabled ulog event →
      ulogSystem.step ulog event = .ok next → next.Inv := by
    intro ulog event next hinv henabled hstep
    obtain ⟨other, hother, hnext⟩ := hinv.step henabled
    obtain rfl : other = next := Except.ok.inj (hother.symm.trans hstep)
    exact hnext
  exact hrun.invariant hpreserves (Ulog.Inv.init blockSet bytes hfits)

/-- **No step fails.** Every `RT_ASSERT` of the ring block buffer holds, and every byte is stored and
fetched inside the buffer. -/
theorem ulog_never_faults (hfits : buf + 2048 < 2 ^ 64) (events : List UlogEvent) :
    ulogSystem.Always (fun _ _ result ↦ ∃ next, result = .ok next)
      (Ulog.init buf blockSet bytes) events := by
  rw [Transition.System.always_iff_forall_run]
  intro before event after reached _ hrun henabled
  obtain ⟨next, hstep, _⟩ := (run_inv hfits hrun).step henabled
  exact ⟨next, hstep⟩

theorem ulog_never_faults_threeLogs :
    ulogSystem.Always (fun _ _ result ↦ ∃ next, result = .ok next)
      (Ulog.init exampleBuf (fun _ ↦ ⟨.get, 0, 0⟩) fun _ ↦ 0) threeLogs :=
  ulog_never_faults (by decide) threeLogs

/-- **Exactly once, and intact.** What is printed is what was logged, no log is printed twice, and
the logs that are not printed yet are those in the blocks of `blk_list`. -/
theorem ulog_prints_once (hfits : buf + 2048 < 2 ^ 64)
    (hrun : ulogSystem.Run (Ulog.init buf blockSet bytes) events ulog) :
    (∀ entry ∈ ulog.printed, ulog.accepted[entry.1]? = some entry.2) ∧
      (ulog.printed.map Prod.fst).Nodup ∧
      ∀ id < ulog.accepted.length, id ∈ ulog.printed.map Prod.fst ↔
        id ∉ ulog.asyncRbb.blkList.map ulog.ids := by
  have hbooks : Books .. := run_inv hfits hrun
  obtain ⟨hprinted, _, hapart⟩ := List.nodup_append.mp
    (hbooks.conserved.nodup_iff.mpr List.nodup_range)
  refine ⟨hbooks.intact, hprinted, fun id hid ↦ ⟨fun hmem hmem' ↦ hapart id hmem id hmem' rfl, ?_⟩⟩
  intro hnot
  have hall := hbooks.conserved.mem_iff.mpr (List.mem_range.mpr hid)
  exact (List.mem_append.mp hall).resolve_right hnot

theorem ulog_prints_once_threeLogs : ∃ ulog : Ulog, ulog.accepted.length = 3 ∧
    ulog.printed = [(1, exampleRecord 0x62), (0, exampleRecord 0x61)] ∧
      (∀ entry ∈ ulog.printed, ulog.accepted[entry.1]? = some entry.2) ∧
      (ulog.printed.map Prod.fst).Nodup ∧
        (2 ∈ ulog.printed.map Prod.fst ↔ 2 ∉ ulog.asyncRbb.blkList.map ulog.ids) := by
  obtain ⟨ulog, hrun, _, hlength, hprinted, _⟩ := run_threeLogs
  obtain ⟨hintact, hnodup, hall⟩ := ulog_prints_once (by decide) hrun
  exact ⟨ulog, hlength, hprinted, hintact, hnodup, hall 2 (by omega)⟩

end Results

end K210Firmware.Log
