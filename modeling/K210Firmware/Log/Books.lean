import K210Firmware.Log.Frames

/-!
# The books of the log

Every block in use belongs to the logger that fills it, waits with a whole frame, or belongs to the
reader that prints it. Every step of every call keeps the books, and none of them fails.
-/

namespace K210Firmware.Log

open Memory Extent

/-! ## Blocks of a status -/

section Owns

variable {rbb : RtRbb} {block blkSize addr i : ℕ} {status other : RtRbbStatus} {blocks : List ℕ}

/-- Block `i` is in use with this status. -/
def Has (rbb : RtRbb) (i : ℕ) (status : RtRbbStatus) : Prop :=
  i ∈ rbb.blkList ∧ (rbb.blkSet i).status = status

theorem has_append (hnot : block ∉ rbb.blkList) :
    Has (rbb.append block blkSize addr) i status ↔
      i = block ∧ status = .inited ∨ Has rbb i status := by
  simp only [Has, RtRbb.append, List.mem_append, List.mem_singleton]
  rcases eq_or_ne i block with rfl | hne
  · simp [hnot, eq_comm]
  · simp [hne]

theorem has_setStatus (hmem : block ∈ rbb.blkList) :
    Has (rbb.setStatus block other) i status ↔
      i = block ∧ status = other ∨ i ≠ block ∧ Has rbb i status := by
  simp only [Has, RtRbb.setStatus]
  rcases eq_or_ne i block with rfl | hne
  · simp [hmem, eq_comm]
  · simp [hne]

theorem has_free (hnodup : rbb.blkList.Nodup) :
    Has { rbb.setStatus block .unused with blkList := rbb.blkList.erase block } i status ↔
      i ≠ block ∧ Has rbb i status := by
  simp only [Has, RtRbb.setStatus, hnodup.mem_erase_iff, and_assoc]
  rcases eq_or_ne i block with rfl | hne
  · simp
  · simp [hne]

/-- The blocks of the list are those in use with this status. -/
structure Owns (rbb : RtRbb) (status : RtRbbStatus) (blocks : List ℕ) : Prop where
  nodup : blocks.Nodup
  mem : ∀ i, i ∈ blocks ↔ Has rbb i status

theorem Owns.perm {blocks' : List ℕ} (h : Owns rbb status blocks) (hperm : blocks.Perm blocks') :
    Owns rbb status blocks' :=
  ⟨hperm.nodup_iff.mp h.nodup, fun i ↦ hperm.mem_iff.symm.trans (h.mem i)⟩

/-- A block is added to those with the status. -/
theorem Owns.gain {rbb' : RtRbb} (h : Owns rbb status blocks) (hnot : ¬ Has rbb block status)
    (hhas : ∀ i, Has rbb' i status ↔ i = block ∨ Has rbb i status) :
    Owns rbb' status (block :: blocks) := by
  refine ⟨List.nodup_cons.mpr ⟨fun hmem ↦ hnot ((h.mem block).mp hmem), h.nodup⟩, fun i ↦ ?_⟩
  rw [List.mem_cons, hhas, h.mem]

theorem Owns.keep {rbb' : RtRbb} (h : Owns rbb status blocks)
    (hhas : ∀ i, Has rbb' i status ↔ Has rbb i status) : Owns rbb' status blocks :=
  ⟨h.nodup, fun i ↦ (h.mem i).trans (hhas i).symm⟩

theorem Owns.lose {rbb' : RtRbb} (h : Owns rbb status (block :: blocks))
    (hhas : ∀ i, Has rbb' i status ↔ i ≠ block ∧ Has rbb i status) : Owns rbb' status blocks := by
  obtain ⟨hnot, hnodup⟩ := List.nodup_cons.mp h.nodup
  refine ⟨hnodup, fun i ↦ ?_⟩
  rw [hhas, ← h.mem, List.mem_cons]
  constructor
  · exact fun hi ↦ ⟨ne_of_mem_of_not_mem hi hnot, .inr hi⟩
  · rintro ⟨hne, hi⟩
    exact hi.resolve_left hne

end Owns

/-! ## The books -/

/-- The block holds a whole frame. -/
def Packed (rbb : RtRbb) (buf : Block UInt8) (accepted : List Record) (ids : ℕ → ℕ)
    (block : ℕ) (record : Record) : Prop :=
  Keeps rbb buf accepted ids block record (record.bytes (rbb.blkSet block).buf).length

structure Books (rbb : RtRbb) (buf : Block UInt8) (accepted : List Record) (ids : ℕ → ℕ)
    (loggers : List Logger) (readers : List Reader) (printed : List (ℕ × Record)) : Prop where
  sound : rbb.Sound
  size : buf.size = rbb.bufSize
  room : 280 ≤ rbb.bufSize
  filling : Owns rbb .inited (loggers.map Logger.block)
  printing : Owns rbb .get (readers.map Reader.block)
  logger : ∀ logger ∈ loggers, Keeps rbb buf accepted ids logger.block logger.record logger.stored
  waiting : ∀ i, Has rbb i .put → ∃ record, Packed rbb buf accepted ids i record
  reader : ∀ reader ∈ readers, ∃ record, Packed rbb buf accepted ids reader.block record ∧
    reader.fetched <+: record.bytes (rbb.blkSet reader.block).buf
  numbered : (rbb.blkList.map ids).Pairwise (· < ·)
  conserved : (printed.map Prod.fst ++ rbb.blkList.map ids).Perm (List.range accepted.length)
  intact : ∀ entry ∈ printed, accepted[entry.1]? = some entry.2

namespace Books

variable {rbb : RtRbb} {buf : Block UInt8} {accepted : List Record} {ids : ℕ → ℕ}
  {loggers : List Logger} {readers : List Reader} {printed : List (ℕ × Record)}
  {block : ℕ} {record : Record} {logger : Logger} {reader : Reader}

theorem perm {loggers' : List Logger} {readers' : List Reader}
    (h : Books rbb buf accepted ids loggers readers printed) (hloggers : loggers.Perm loggers')
    (hreaders : readers.Perm readers') : Books rbb buf accepted ids loggers' readers' printed :=
  { h with
    filling := h.filling.perm (hloggers.map _)
    printing := h.printing.perm (hreaders.map _)
    logger := fun logger hmem ↦ h.logger logger (hloggers.mem_iff.mpr hmem)
    reader := fun reader hmem ↦ h.reader reader (hreaders.mem_iff.mpr hmem) }

theorem ids_lt (h : Books rbb buf accepted ids loggers readers printed) (hmem : block ∈ rbb.blkList) :
    ids block < accepted.length :=
  List.mem_range.mp (h.conserved.mem_iff.mp
    (List.mem_append_right _ (List.mem_map_of_mem hmem)))

theorem has_logger (h : Books rbb buf accepted ids loggers readers printed)
    (hmem : logger ∈ loggers) : Has rbb logger.block .inited :=
  (h.filling.mem _).mp (List.mem_map_of_mem hmem)

theorem has_reader (h : Books rbb buf accepted ids loggers readers printed)
    (hmem : reader ∈ readers) : Has rbb reader.block .get :=
  (h.printing.mem _).mp (List.mem_map_of_mem hmem)

/-- A log gets a block. -/
theorem append (h : Books rbb buf accepted ids loggers readers printed) (hvalid : record.Valid)
    {addr : ℕ} (hnot : block ∉ rbb.blkList)
    (hsound : (rbb.append block record.blkSize addr).Sound) :
    Books (rbb.append block record.blkSize addr) buf (accepted ++ [record])
      (Function.update ids block accepted.length) (⟨block, record, 0⟩ :: loggers) readers
      printed := by
  have hne {i : ℕ} {status : RtRbbStatus} (hi : Has rbb i status) : i ≠ block :=
    ne_of_mem_of_not_mem hi.1 hnot
  have hmap : (rbb.blkList.map (Function.update ids block accepted.length)) = rbb.blkList.map ids :=
    List.map_congr_left fun i hi ↦ Function.update_of_ne (ne_of_mem_of_not_mem hi hnot) ..
  have hsame {i : ℕ} (hi : i ≠ block) :
      ((rbb.append block record.blkSize addr).blkSet i).buf = (rbb.blkSet i).buf := by
    rw [RtRbb.append_blkSet_of_ne hi]
  exact {
    sound := hsound
    size := h.size
    room := h.room
    filling := h.filling.gain (fun hhas ↦ hnot hhas.1) fun i ↦ by rw [has_append hnot]; simp
    printing := h.printing.keep fun i ↦ by rw [has_append hnot]; simp
    logger := by
      rintro logger (_ | ⟨_, hmem⟩)
      · refine ⟨?_, hvalid, ?_, ?_⟩
        · rw [Function.update_self, List.getElem?_concat_length]
        · rw [RtRbb.append_blkSet_same]
        · exact Stored.nil
      · exact (h.logger logger hmem).append (hne (h.has_logger hmem)) _ _ _
    waiting := fun i hi ↦ by
      have hold : Has rbb i .put := by simpa using (has_append hnot).mp hi
      obtain ⟨record', hpacked⟩ := h.waiting i hold
      refine ⟨record', ?_⟩
      rw [Packed, hsame (hne hold)]
      exact hpacked.append (hne hold) _ _ _
    reader := fun reader hmem ↦ by
      have hold := hne (h.has_reader hmem)
      obtain ⟨record', hpacked, hfetched⟩ := h.reader reader hmem
      refine ⟨record', ?_, ?_⟩
      · rw [Packed, hsame hold]
        exact hpacked.append hold _ _ _
      · rw [hsame hold]
        exact hfetched
    numbered := by
      rw [RtRbb.append, List.map_append, hmap]
      refine List.pairwise_append.mpr ⟨h.numbered, List.pairwise_singleton _ _, ?_⟩
      intro id hid other hother
      obtain ⟨i, hi, rfl⟩ := List.mem_map.mp hid
      rw [List.map_singleton, Function.update_self] at hother
      rw [List.mem_singleton.mp hother]
      exact h.ids_lt hi
    conserved := by
      have hlist : (rbb.append block record.blkSize addr).blkList.map
          (Function.update ids block accepted.length) =
            rbb.blkList.map ids ++ [accepted.length] := by
        rw [RtRbb.append, List.map_append, hmap, List.map_singleton, Function.update_self]
      rw [hlist, List.length_append, List.length_singleton, List.range_succ, ← List.append_assoc]
      exact h.conserved.append_right _
    intact := fun entry hentry ↦ by
      have hold := h.intact entry hentry
      rw [List.getElem?_append_left (List.getElem?_eq_some_iff.mp hold).1]
      exact hold }

/-- A logger stores a byte. -/
theorem store (h : Books rbb buf accepted ids (logger :: loggers) readers printed)
    (hmore : logger.stored < (logger.record.bytes (rbb.blkSet logger.block).buf).length) :
    ∃ buf', buf.write (((rbb.blkSet logger.block).buf + logger.stored : ℕ) - rbb.buf)
        ((logger.record.bytes (rbb.blkSet logger.block).buf).getD logger.stored 0) = .ok buf' ∧
      Books rbb buf' accepted ids ({ logger with stored := logger.stored + 1 } :: loggers) readers
        printed := by
  have hlogger := List.mem_cons_self (a := logger) (l := loggers)
  have hkeeps := h.logger logger hlogger
  obtain ⟨hmem, hstatus⟩ := h.has_logger hlogger
  have hholds : (rbb.blkSet logger.block).extent.Holds
      ((rbb.blkSet logger.block).buf + logger.stored) := by
    have hspec := hkeeps.valid.blkSize_spec
    have hsize := hkeeps.size
    rw [Record.length_bytes] at hmore
    simp only [RtRbbBlk.extent, Holds, stop]
    omega
  have hwithin := (h.sound.within hmem).holds hholds
  simp only [RtRbb.whole, Holds, stop] at hwithin
  have hbuf := h.size
  refine ⟨_, Block.write_eq_ok (by omega) (by omega), ?_⟩
  have hother {i count : ℕ} {record : Record} (hi : i ∈ rbb.blkList) (hne : i ≠ logger.block)
      (hold : Keeps rbb buf accepted ids i record count) (byte : UInt8) :
      Keeps rbb ⟨buf.size, Function.update buf.cell
        (((rbb.blkSet logger.block).buf + logger.stored : ℕ) - rbb.buf) byte⟩ accepted ids i record
        count :=
    hold.write h.sound hi hmem hne hholds
  have hnodup := h.filling.nodup
  rw [List.map_cons, List.nodup_cons] at hnodup
  exact { h with
    size := h.size
    filling := h.filling
    logger := by
      rintro other (_ | ⟨_, hmem'⟩)
      · exact ⟨hkeeps.accepted, hkeeps.valid, hkeeps.size, hkeeps.stored.next hmore rfl⟩
      · refine hother (h.has_logger (List.mem_cons_of_mem _ hmem')).1 ?_
          (h.logger other (List.mem_cons_of_mem _ hmem')) _
        exact fun hsame ↦ hnodup.1 (hsame ▸ List.mem_map_of_mem hmem')
    waiting := fun i hi ↦ by
      obtain ⟨record, hpacked⟩ := h.waiting i hi
      refine ⟨record, hother hi.1 ?_ hpacked _⟩
      rintro rfl
      cases hstatus.symm.trans hi.2
    reader := fun reader hreader ↦ by
      obtain ⟨record, hpacked, hfetched⟩ := h.reader reader hreader
      have hhas := h.has_reader hreader
      refine ⟨record, hother hhas.1 ?_ hpacked _, hfetched⟩
      intro hsame
      rw [hsame] at hhas
      cases hstatus.symm.trans hhas.2 }

theorem packed_congr {rbb' : RtRbb} (h : Packed rbb buf accepted ids block record)
    (hbuf : rbb'.buf = rbb.buf)
    (hextent : (rbb'.blkSet block).extent = (rbb.blkSet block).extent) :
    Packed rbb' buf accepted ids block record := by
  have haddr : (rbb'.blkSet block).buf = (rbb.blkSet block).buf := congrArg Extent.first hextent
  rw [Packed, haddr]
  exact h.congr hbuf hextent

theorem reader_congr {rbb' : RtRbb}
    (h : ∃ record, Packed rbb buf accepted ids reader.block record ∧
      reader.fetched <+: record.bytes (rbb.blkSet reader.block).buf)
    (hbuf : rbb'.buf = rbb.buf)
    (hextent : (rbb'.blkSet reader.block).extent = (rbb.blkSet reader.block).extent) :
    ∃ record, Packed rbb' buf accepted ids reader.block record ∧
      reader.fetched <+: record.bytes (rbb'.blkSet reader.block).buf := by
  obtain ⟨record, hpacked, hfetched⟩ := h
  have haddr : (rbb'.blkSet reader.block).buf = (rbb.blkSet reader.block).buf :=
    congrArg Extent.first hextent
  rw [haddr]
  exact ⟨record, packed_congr hpacked hbuf hextent, hfetched⟩

/-- A logger puts its block. -/
theorem put (h : Books rbb buf accepted ids (logger :: loggers) readers printed)
    (hdone : logger.stored = (logger.record.bytes (rbb.blkSet logger.block).buf).length) :
    Books (rbb.setStatus logger.block .put) buf accepted ids loggers readers printed := by
  have hmem := h.has_logger (List.mem_cons_self ..)
  have hkeeps := h.logger logger (List.mem_cons_self ..)
  rw [hdone] at hkeeps
  have hhas (i : ℕ) (status : RtRbbStatus) :=
    @has_setStatus rbb logger.block i status .put hmem.1
  exact { h with
    sound := h.sound.setStatus hmem.1 (by decide)
    filling := h.filling.lose fun i ↦ by rw [hhas]; simp
    printing := h.printing.keep fun i ↦ by
      rw [hhas]
      constructor
      · rintro (⟨_, hstatus⟩ | ⟨_, hi⟩)
        · cases hstatus
        · exact hi
      · refine fun hi ↦ .inr ⟨?_, hi⟩
        rintro rfl
        cases hmem.2.symm.trans hi.2
    logger := fun other hother ↦ (h.logger other (List.mem_cons_of_mem _ hother)).congr rfl
      (RtRbb.setStatus_extent _)
    waiting := fun i hi ↦ by
      rcases (hhas i .put).mp hi with ⟨rfl, _⟩ | ⟨_, hold⟩
      · exact ⟨logger.record, packed_congr hkeeps rfl (RtRbb.setStatus_extent _)⟩
      · obtain ⟨record, hpacked⟩ := h.waiting i hold
        exact ⟨record, packed_congr hpacked rfl (RtRbb.setStatus_extent _)⟩
    reader := fun reader hreader ↦ reader_congr (h.reader reader hreader) rfl
      (RtRbb.setStatus_extent _) }

/-- A reader takes a block that waits. -/
theorem get (h : Books rbb buf accepted ids loggers readers printed) (hput : Has rbb block .put)
    (caller : Caller) :
    Books (rbb.setStatus block .get) buf accepted ids loggers (⟨caller, block, []⟩ :: readers)
      printed := by
  have hhas (i : ℕ) (status : RtRbbStatus) := @has_setStatus rbb block i status .get hput.1
  have hnot {i : ℕ} {status : RtRbbStatus} (hi : Has rbb i status) (hne : status ≠ .put) :
      i ≠ block := by
    rintro rfl
    exact hne (hi.2.symm.trans hput.2)
  exact { h with
    sound := h.sound.setStatus hput.1 (by decide)
    filling := h.filling.keep fun i ↦ by
      rw [hhas]
      constructor
      · rintro (⟨_, hstatus⟩ | ⟨_, hi⟩)
        · cases hstatus
        · exact hi
      · exact fun hi ↦ .inr ⟨hnot hi (by decide), hi⟩
    printing := by
      refine h.printing.gain (fun hget ↦ hnot hget (by decide) rfl) fun i ↦ ?_
      rw [hhas]
      constructor
      · rintro (⟨hi, _⟩ | ⟨_, hi⟩)
        · exact .inl hi
        · exact .inr hi
      · rintro (hi | hi)
        · exact .inl ⟨hi, rfl⟩
        · exact .inr ⟨hnot hi (by decide), hi⟩
    logger := fun other hother ↦ (h.logger other hother).congr rfl (RtRbb.setStatus_extent _)
    waiting := fun i hi ↦ by
      rcases (hhas i .put).mp hi with ⟨_, hstatus⟩ | ⟨_, hold⟩
      · cases hstatus
      · obtain ⟨record, hpacked⟩ := h.waiting i hold
        exact ⟨record, packed_congr hpacked rfl (RtRbb.setStatus_extent _)⟩
    reader := by
      rintro reader (_ | ⟨_, hmem⟩)
      · obtain ⟨record, hpacked⟩ := h.waiting block hput
        exact ⟨record, packed_congr hpacked rfl (RtRbb.setStatus_extent _), List.nil_prefix⟩
      · exact reader_congr (h.reader reader hmem) rfl (RtRbb.setStatus_extent _) }

/-- A reader goes on in its frame. -/
theorem fetch (h : Books rbb buf accepted ids loggers (reader :: readers) printed)
    {record : Record} (hpacked : Packed rbb buf accepted ids reader.block record)
    (hfetched : reader.fetched <+: record.bytes (rbb.blkSet reader.block).buf)
    (hmore : reader.fetched.length < (record.bytes (rbb.blkSet reader.block).buf).length) :
    ∃ byte, buf.read (((rbb.blkSet reader.block).buf + reader.fetched.length : ℕ) - rbb.buf) =
        .ok byte ∧
      Books rbb buf accepted ids loggers
        ({ reader with fetched := reader.fetched ++ [byte] } :: readers) printed := by
  have hmem := (h.has_reader (List.mem_cons_self ..)).1
  have hwithin := h.sound.within hmem
  have hle := hpacked.frame_le
  rw [List.take_length] at hle
  simp only [RtRbb.whole, RtRbbBlk.extent, Within, stop] at hwithin
  have hbuf := h.size
  have hstored := hpacked.stored reader.fetched.length (by rwa [List.take_length])
  rw [List.take_length] at hstored
  refine ⟨_, Block.read_eq_ok (by omega) (by omega), ?_⟩
  exact { h with
    printing := h.printing
    reader := by
      rintro other (_ | ⟨_, hother⟩)
      · refine ⟨record, hpacked, ?_⟩
        rw [hstored]
        obtain ⟨rest, hrest⟩ := hfetched
        rw [← hrest] at hmore ⊢
        cases rest with
        | nil => simp at hmore
        | cons byte rest => simp
      · exact h.reader other (List.mem_cons_of_mem _ hother) }

/-- A reader prints its frame and frees the block. -/
theorem print (h : Books rbb buf accepted ids loggers (reader :: readers) printed)
    {record : Record} (hpacked : Packed rbb buf accepted ids reader.block record) :
    Books { rbb.setStatus reader.block .unused with blkList := rbb.blkList.erase reader.block } buf
      accepted ids loggers readers (printed ++ [(ids reader.block, record)]) := by
  have hget := h.has_reader (List.mem_cons_self ..)
  have hhas (i : ℕ) (status : RtRbbStatus) := @has_free rbb reader.block i status h.sound.nodup
  have hnot {i : ℕ} {status : RtRbbStatus} (hi : Has rbb i status) (hne : status ≠ .get) :
      i ≠ reader.block := by
    rintro rfl
    exact hne (hi.2.symm.trans hget.2)
  exact {
    sound := h.sound.free
    size := h.size
    room := h.room
    filling := h.filling.keep fun i ↦ (hhas i .inited).trans
      ⟨fun hi ↦ hi.2, fun hi ↦ ⟨hnot hi (by decide), hi⟩⟩
    printing := h.printing.lose fun i ↦ hhas i .get
    logger := fun logger hlogger ↦ (h.logger logger hlogger).congr rfl (RtRbb.setStatus_extent _)
    waiting := fun i hi ↦ by
      obtain ⟨record, hpacked⟩ := h.waiting i ((hhas i .put).mp hi).2
      exact ⟨record, packed_congr hpacked rfl (RtRbb.setStatus_extent _)⟩
    reader := fun reader hmem ↦ reader_congr (h.reader reader (List.mem_cons_of_mem _ hmem)) rfl
      (RtRbb.setStatus_extent _)
    numbered := h.numbered.sublist (List.erase_sublist.map _)
    conserved := by
      have hlist : (rbb.blkList.map ids).Perm
          (ids reader.block :: (rbb.blkList.erase reader.block).map ids) :=
        (List.perm_cons_erase hget.1).map ids
      rw [List.map_append, List.append_assoc]
      exact (hlist.symm.append_left _).trans h.conserved
    intact := fun entry hentry ↦ by
      rcases List.mem_append.mp hentry with hold | hnew
      · exact h.intact entry hold
      · rw [List.mem_singleton.mp hnew]
        exact hpacked.accepted }

end Books

end K210Firmware.Log
