import K210Firmware.Log.Delivery

/-!
# Order and notices

Logs are numbered in the order in which they got their blocks. A complete log is never passed over
by a later one. A complete log on which the thread `ulog_async` sleeps was put between the last look
of the thread into the buffer and its reset of `async_notice`, or its notice is one of so many that
the 16 bits of `async_notice` were 0 again.
-/

namespace K210Firmware.Log

open Memory Extent

/-! ## Histories -/

/-- When a log is taken, every earlier log that has been put is taken already. -/
def Ordered (notes : List Note) : Prop :=
  ∀ before after id, notes = before ++ .taken id :: after →
    ∀ earlier < id, .put earlier ∈ before → .taken earlier ∈ before

/-- The thread neither looks in vain nor resets the notice. -/
def Quiet (notes : List Note) : Prop := .empty ∉ notes ∧ .reset ∉ notes

/-- The log was put after the last look of the thread and before the reset that followed. -/
def Missed (notes : List Note) (id : ℕ) : Prop :=
  ∃ past between later, notes = past ++ .empty :: (between ++ .reset :: later) ∧
    Quiet between ∧ Quiet later ∧ .put id ∈ between

/-- The notice of the log was counted after the last reset, with as many others as make the value
of 16 bits return to 0. -/
def Wrapped (notes : List Note) (id : ℕ) : Prop :=
  ∃ past later, notes = past ++ .reset :: later ∧ Quiet later ∧ .noticed id ∈ later ∧
    2 ^ 16 ∣ later.countP Note.isNoticed

section Histories

variable {notes : List Note} {note : Note} {id : ℕ}

theorem Ordered.concat (h : Ordered notes)
    (hnote : ∀ id, note = .taken id → ∀ earlier < id, .put earlier ∈ notes →
      .taken earlier ∈ notes) : Ordered (notes ++ [note]) := by
  intro before after id hsplit earlier hlt hput
  rcases List.eq_nil_or_concat after with rfl | ⟨rest, last, rfl⟩
  · obtain ⟨rfl, hlast⟩ := List.append_inj' hsplit rfl
    exact hnote id (List.cons.inj hlast).1 earlier hlt hput
  · rw [List.concat_eq_append, ← List.cons_append, ← List.append_assoc] at hsplit
    obtain ⟨rfl, _⟩ := List.append_inj' hsplit rfl
    exact h before rest id rfl earlier hlt hput

theorem Quiet.concat (h : Quiet notes) (hempty : note ≠ .empty) (hreset : note ≠ .reset) :
    Quiet (notes ++ [note]) := by
  simp only [Quiet, List.mem_append, List.mem_singleton, not_or]
  exact ⟨⟨h.1, hempty.symm⟩, h.2, hreset.symm⟩

theorem Missed.concat (h : Missed notes id) (hempty : note ≠ .empty) (hreset : note ≠ .reset) :
    Missed (notes ++ [note]) id := by
  obtain ⟨past, between, later, rfl, hbetween, hlater, hput⟩ := h
  exact ⟨past, between, later ++ [note], by simp, hbetween, hlater.concat hempty hreset, hput⟩

theorem countP_concat (hnote : note.isNoticed = false) :
    (notes ++ [note]).countP Note.isNoticed = notes.countP Note.isNoticed := by
  rw [List.countP_append, List.countP_singleton, if_neg (by simp [hnote]), Nat.add_zero]

theorem Wrapped.concat (h : Wrapped notes id) (hempty : note ≠ .empty) (hreset : note ≠ .reset)
    (hnote : note.isNoticed = false) : Wrapped (notes ++ [note]) id := by
  obtain ⟨past, later, rfl, hquiet, hnoticed, hcount⟩ := h
  refine ⟨past, later ++ [note], by simp, hquiet.concat hempty hreset,
    List.mem_append_left _ hnoticed, ?_⟩
  rwa [countP_concat hnote]

end Histories

/-! ## What a complete log waits for -/

namespace Ulog

variable {ulog next : Ulog} {id : ℕ}

/-- The log is complete and not taken yet. -/
def Waiting (ulog : Ulog) (id : ℕ) : Prop := ∃ i, Has ulog.asyncRbb i .put ∧ ulog.ids i = id

/-- What the thread knows of the logs that wait, at each point of its loop. -/
def Aware (ulog : Ulog) : Prop :=
  match ulog.asyncTh with
  | .looking => True
  | .printing => True
  | .resetting => ∃ past between, ulog.notes = past ++ .empty :: between ∧ Quiet between ∧
      ∀ id, ulog.Waiting id → .put id ∈ between
  | .taking => ∃ past later, ulog.notes = past ++ .reset :: later ∧ Quiet later ∧
      ulog.asyncNotice = later.countP Note.isNoticed % 2 ^ 16 ∧
      ∀ id, ulog.Waiting id →
        Missed ulog.notes id ∨ id ∈ ulog.notices ∨ .noticed id ∈ later
  | .blocked => ∀ id, ulog.Waiting id →
      Missed ulog.notes id ∨ id ∈ ulog.notices ∨ Wrapped ulog.notes id

structure Noted (ulog : Ulog) : Prop where
  inv : ulog.Inv
  put : ∀ id, .put id ∈ ulog.notes → ulog.Waiting id ∨ .taken id ∈ ulog.notes
  ordered : Ordered ulog.notes
  aware : ulog.Aware

/-- Fewer logs wait, and the thread stays where it is. -/
theorem Aware.mono (h : ulog.Aware) (hwaiting : ∀ id, next.Waiting id → ulog.Waiting id)
    (hth : next.asyncTh = ulog.asyncTh) (hnotice : next.asyncNotice = ulog.asyncNotice)
    (hnotices : next.notices = ulog.notices) (hnotes : next.notes = ulog.notes) : next.Aware := by
  unfold Aware at *
  rw [hth, hnotice, hnotices, hnotes]
  cases hcase : ulog.asyncTh with
  | looking => trivial
  | printing => trivial
  | resetting =>
    rw [hcase] at h
    obtain ⟨past, between, hsplit, hquiet, hput⟩ := h
    exact ⟨past, between, hsplit, hquiet, fun id hid ↦ hput id (hwaiting id hid)⟩
  | taking =>
    rw [hcase] at h
    obtain ⟨past, later, hsplit, hquiet, hcount, hknown⟩ := h
    exact ⟨past, later, hsplit, hquiet, hcount, fun id hid ↦ hknown id (hwaiting id hid)⟩
  | blocked =>
    rw [hcase] at h
    exact fun id hid ↦ h id (hwaiting id hid)

/-- A step that no complete log notices. -/
theorem Noted.mono (h : ulog.Noted) (hinv : next.Inv)
    (hwaiting : ∀ id, next.Waiting id ↔ ulog.Waiting id) (hth : next.asyncTh = ulog.asyncTh)
    (hnotice : next.asyncNotice = ulog.asyncNotice) (hnotices : next.notices = ulog.notices)
    (hnotes : next.notes = ulog.notes) : next.Noted where
  inv := hinv
  put := by
    rw [hnotes]
    simp only [hwaiting]
    exact h.put
  ordered := by
    rw [hnotes]
    exact h.ordered
  aware := h.aware.mono (fun id hid ↦ (hwaiting id).mp hid) hth hnotice hnotices hnotes

theorem Noted.doOutput (h : ulog.Noted) {record : Record} (hvalid : record.Valid)
    (hstep : ulog.doOutput record = .ok next) : next.Noted := by
  rcases h.inv.doOutput hvalid with ⟨block, addr, hnot, other, hrun, hinv, hother⟩ | hrun
  · obtain rfl : other = next := Except.ok.inj (hrun.symm.trans hstep)
    refine h.mono hinv (fun id ↦ ?_) (by rw [hother]) (by rw [hother]) (by rw [hother])
      (by rw [hother])
    have hids (i : ℕ) (hi : Has ulog.asyncRbb i .put) :
        Function.update ulog.ids block ulog.accepted.length i = ulog.ids i :=
      Function.update_of_ne (ne_of_mem_of_not_mem hi.1 hnot) ..
    simp only [hother, Waiting, has_append hnot, reduceCtorEq, and_false, false_or]
    constructor
    · rintro ⟨i, hi, hid⟩
      exact ⟨i, hi, (hids i hi).symm.trans hid⟩
    · rintro ⟨i, hi, hid⟩
      exact ⟨i, hi, (hids i hi).trans hid⟩
  · obtain rfl := Except.ok.inj (hrun.symm.trans hstep)
    exact h.mono h.inv (fun _ ↦ Iff.rfl) rfl rfl rfl rfl

theorem Noted.put_step (h : ulog.Noted) {logger : Logger} (henabled : UlogEnabled ulog (.put logger))
    (hstep : ulog.put logger = .ok next) : next.Noted := by
  obtain ⟨other, hrun, hinv, hother⟩ := h.inv.put henabled.1 henabled.2
  obtain rfl : other = next := Except.ok.inj (hrun.symm.trans hstep)
  have hbooks : Books .. := h.inv
  have hmem := (hbooks.has_logger henabled.1).1
  have hwaiting (id : ℕ) (hid : other.Waiting id) :
      id = ulog.ids logger.block ∨ ulog.Waiting id := by
    obtain ⟨i, hi, rfl⟩ := hid
    rw [hother] at hi ⊢
    rcases (has_setStatus hmem).mp hi with ⟨rfl, _⟩ | ⟨_, hold⟩
    · exact .inl rfl
    · exact .inr ⟨i, hold, rfl⟩
  have hold (id : ℕ) (hid : ulog.Waiting id) : other.Waiting id := by
    obtain ⟨i, hi, rfl⟩ := hid
    rw [hother]
    refine ⟨i, (has_setStatus hmem).mpr (.inr ⟨?_, hi⟩), rfl⟩
    rintro rfl
    cases (hbooks.has_logger henabled.1).2.symm.trans hi.2
  have hnew : other.Waiting (ulog.ids logger.block) := by
    rw [hother]
    exact ⟨logger.block, (has_setStatus hmem).mpr (.inl ⟨rfl, rfl⟩), rfl⟩
  have hempty : Note.put (ulog.ids logger.block) ≠ .empty := Note.noConfusion
  have hreset : Note.put (ulog.ids logger.block) ≠ .reset := Note.noConfusion
  have hnotes : other.notes = ulog.notes ++ [.put (ulog.ids logger.block)] := by rw [hother]
  have hnotices : other.notices = ulog.ids logger.block :: ulog.notices := by rw [hother]
  have hth : other.asyncTh = ulog.asyncTh := by rw [hother]
  have hnotice : other.asyncNotice = ulog.asyncNotice := by rw [hother]
  refine ⟨hinv, fun id hid ↦ ?_, ?_, ?_⟩
  · rw [hnotes] at hid ⊢
    rcases List.mem_append.mp hid with hid | hid
    · rcases h.put id hid with hwait | htaken
      · exact .inl (hold id hwait)
      · exact .inr (List.mem_append_left _ htaken)
    · obtain rfl := Note.put.inj (List.mem_singleton.mp hid)
      exact .inl hnew
  · rw [hnotes]
    refine h.ordered.concat ?_
    intro id hid
    cases hid
  · have haware := h.aware
    unfold Aware at *
    rw [hth, hnotice, hnotices, hnotes]
    cases hcase : ulog.asyncTh with
    | looking => trivial
    | printing => trivial
    | resetting =>
      rw [hcase] at haware
      obtain ⟨past, between, hsplit, hquiet, hput⟩ := haware
      refine ⟨past, between ++ [.put (ulog.ids logger.block)], by simp [hsplit],
        hquiet.concat hempty hreset, fun id hid ↦ ?_⟩
      rcases hwaiting id hid with rfl | hid
      · simp
      · exact List.mem_append_left _ (hput id hid)
    | taking =>
      rw [hcase] at haware
      obtain ⟨past, later, hsplit, hquiet, hcount, hknown⟩ := haware
      refine ⟨past, later ++ [.put (ulog.ids logger.block)], by simp [hsplit],
        hquiet.concat hempty hreset, by rw [countP_concat rfl, hcount], fun id hid ↦ ?_⟩
      rcases hwaiting id hid with rfl | hid
      · exact .inr (.inl (List.mem_cons_self ..))
      · rcases hknown id hid with hmissed | hcoming | hnoticed
        · exact .inl (hmissed.concat hempty hreset)
        · exact .inr (.inl (List.mem_cons_of_mem _ hcoming))
        · exact .inr (.inr (List.mem_append_left _ hnoticed))
    | blocked =>
      rw [hcase] at haware
      intro id hid
      rcases hwaiting id hid with rfl | hid
      · exact .inr (.inl (List.mem_cons_self ..))
      · rcases haware id hid with hmissed | hcoming | hwrapped
        · exact .inl (hmissed.concat hempty hreset)
        · exact .inr (.inl (List.mem_cons_of_mem _ hcoming))
        · exact .inr (.inr (hwrapped.concat hempty hreset rfl))

theorem Noted.release (h : ulog.Noted) (id : ℕ) : (ulog.release id).Noted := by
  have haware := h.aware
  unfold Ulog.release
  split_ifs with hblocked
  · exact ⟨h.inv, h.put, h.ordered, trivial⟩
  · have hempty : Note.noticed id ≠ .empty := Note.noConfusion
    have hreset : Note.noticed id ≠ .reset := Note.noConfusion
    refine ⟨h.inv, fun other hother ↦ ?_, ?_, ?_⟩
    · rcases List.mem_append.mp hother with hother | hother
      · exact (h.put other hother).imp_right (List.mem_append_left _)
      · cases List.mem_singleton.mp hother
    · refine h.ordered.concat fun other hother ↦ ?_
      cases hother
    · unfold Aware at *
      cases hcase : ulog.asyncTh with
      | looking => trivial
      | printing => trivial
      | resetting =>
        rw [hcase] at haware
        obtain ⟨past, between, hsplit, hquiet, hput⟩ := haware
        exact ⟨past, between ++ [.noticed id], by simp [hsplit], hquiet.concat hempty hreset,
          fun other hother ↦ List.mem_append_left _ (hput other hother)⟩
      | taking =>
        rw [hcase] at haware
        obtain ⟨past, later, hsplit, hquiet, hcount, hknown⟩ := haware
        refine ⟨past, later ++ [.noticed id], by simp [hsplit], hquiet.concat hempty hreset, ?_,
          fun other hother ↦ ?_⟩
        · rw [List.countP_append, hcount, Nat.mod_add_mod]
          rfl
        · rcases hknown other hother with hmissed | hcoming | hnoticed
          · exact .inl (hmissed.concat hempty hreset)
          · rcases eq_or_ne other id with rfl | hne
            · exact .inr (.inr (List.mem_append_right _ (List.mem_singleton.mpr rfl)))
            · exact .inr (.inl ((List.mem_erase_of_ne hne).mpr hcoming))
          · exact .inr (.inr (List.mem_append_left _ hnoticed))
      | blocked => exact absurd hcase hblocked

theorem Noted.get (h : ulog.Noted) {caller : Caller} (henabled : UlogEnabled ulog (.get caller)) :
    (ulog.get caller).Noted := by
  have haware := h.aware
  rcases h.inv.get caller with ⟨block, hput, hleast, hinv, hnext⟩ | ⟨hnone, hinv, hnext⟩
  · have hwaiting (id : ℕ) (hid : (ulog.get caller).Waiting id) : ulog.Waiting id := by
      obtain ⟨i, hi, rfl⟩ := hid
      rw [hnext] at hi ⊢
      rcases (has_setStatus hput.1).mp hi with ⟨_, hstatus⟩ | ⟨_, hold⟩
      · cases hstatus
      · exact ⟨i, hold, rfl⟩
    have hold (id : ℕ) (hid : ulog.Waiting id) :
        id = ulog.ids block ∨ (ulog.get caller).Waiting id := by
      obtain ⟨i, hi, rfl⟩ := hid
      rcases eq_or_ne i block with rfl | hne
      · exact .inl rfl
      · rw [hnext]
        exact .inr ⟨i, (has_setStatus hput.1).mpr (.inr ⟨hne, hi⟩), rfl⟩
    have hempty : Note.taken (ulog.ids block) ≠ .empty := Note.noConfusion
    have hreset : Note.taken (ulog.ids block) ≠ .reset := Note.noConfusion
    have hnotes : (ulog.get caller).notes = ulog.notes ++ [.taken (ulog.ids block)] := by rw [hnext]
    refine ⟨hinv, fun id hid ↦ ?_, ?_, ?_⟩
    · rw [hnotes] at hid ⊢
      rcases List.mem_append.mp hid with hid | hid
      · rcases h.put id hid with hwait | htaken
        · rcases hold id hwait with rfl | hwait
          · exact .inr (List.mem_append_right _ (List.mem_singleton.mpr rfl))
          · exact .inl hwait
        · exact .inr (List.mem_append_left _ htaken)
      · cases List.mem_singleton.mp hid
    · rw [hnotes]
      refine h.ordered.concat fun id hid earlier hlt hearlier ↦ ?_
      obtain rfl : ulog.ids block = id := Note.taken.inj hid
      -- the log taken has the least number of those that wait
      refine (h.put earlier hearlier).resolve_left ?_
      rintro ⟨i, hi, rfl⟩
      exact absurd (hleast i hi) (Nat.not_le.mpr hlt)
    · cases caller with
      | asyncTh =>
        have hth : (ulog.get .asyncTh).asyncTh = .printing := by
          rw [hnext]
          rfl
        rw [Aware, hth]
        trivial
      | flush =>
        have hth : (ulog.get .flush).asyncTh = ulog.asyncTh := by
          rw [hnext]
          rfl
        have hnotices : (ulog.get .flush).notices = ulog.notices := by rw [hnext]
        have hnotice : (ulog.get .flush).asyncNotice = ulog.asyncNotice := by rw [hnext]
        unfold Aware at *
        rw [hth, hnotice, hnotices, hnotes]
        cases hcase : ulog.asyncTh with
        | looking => trivial
        | printing => trivial
        | resetting =>
          rw [hcase] at haware
          obtain ⟨past, between, hsplit, hquiet, hbetween⟩ := haware
          exact ⟨past, between ++ [.taken (ulog.ids block)], by simp [hsplit],
            hquiet.concat hempty hreset,
            fun id hid ↦ List.mem_append_left _ (hbetween id (hwaiting id hid))⟩
        | taking =>
          rw [hcase] at haware
          obtain ⟨past, later, hsplit, hquiet, hcount, hknown⟩ := haware
          refine ⟨past, later ++ [.taken (ulog.ids block)], by simp [hsplit],
            hquiet.concat hempty hreset, by rw [countP_concat rfl, hcount], fun id hid ↦ ?_⟩
          rcases hknown id (hwaiting id hid) with hmissed | hcoming | hnoticed
          · exact .inl (hmissed.concat hempty hreset)
          · exact .inr (.inl hcoming)
          · exact .inr (.inr (List.mem_append_left _ hnoticed))
        | blocked =>
          rw [hcase] at haware
          intro id hid
          rcases haware id (hwaiting id hid) with hmissed | hcoming | hwrapped
          · exact .inl (hmissed.concat hempty hreset)
          · exact .inr (.inl hcoming)
          · exact .inr (.inr (hwrapped.concat hempty hreset rfl))
  · cases caller with
    | flush =>
      rw [hnext]
      exact h
    | asyncTh =>
      rw [hnext]
      refine ⟨hnext ▸ hinv, fun id hid ↦ ?_, ?_, ?_⟩
      · rcases List.mem_append.mp hid with hid | hid
        · rcases h.put id hid with ⟨i, hi, _⟩ | htaken
          · exact absurd hi (hnone i)
          · exact .inr (List.mem_append_left _ htaken)
        · cases List.mem_singleton.mp hid
      · refine h.ordered.concat fun id hid ↦ ?_
        cases hid
      · refine ⟨ulog.notes, [], rfl, ⟨List.not_mem_nil, List.not_mem_nil⟩, ?_⟩
        rintro id ⟨i, hi, _⟩
        exact absurd hi (hnone i)

theorem Noted.print (h : ulog.Noted) {reader : Reader} (henabled : UlogEnabled ulog (.print reader))
    (hstep : ulog.print reader = .ok next) : next.Noted := by
  obtain ⟨record, other, hrun, hinv, hother⟩ := h.inv.print henabled.1 henabled.2
  obtain rfl : other = next := Except.ok.inj (hrun.symm.trans hstep)
  have hbooks : Books .. := h.inv
  have hget := hbooks.has_reader henabled.1
  have hwaiting (id : ℕ) : other.Waiting id ↔ ulog.Waiting id := by
    simp only [hother, Waiting, has_free hbooks.sound.nodup]
    constructor
    · rintro ⟨i, ⟨_, hi⟩, hid⟩
      exact ⟨i, hi, hid⟩
    · rintro ⟨i, hi, hid⟩
      refine ⟨i, ⟨?_, hi⟩, hid⟩
      rintro rfl
      cases hget.2.symm.trans hi.2
  have hnotes : other.notes = ulog.notes := by rw [hother]
  by_cases hcaller : reader.caller = .asyncTh
  · refine ⟨hinv, ?_, by rw [hnotes]; exact h.ordered, ?_⟩
    · rw [hnotes]
      simp only [hwaiting]
      exact h.put
    · have hth : other.asyncTh = .looking := by
        rw [hother]
        exact if_pos hcaller
      rw [Aware, hth]
      trivial
  · have hth : other.asyncTh = ulog.asyncTh := by
      rw [hother]
      exact if_neg hcaller
    exact h.mono hinv hwaiting hth (by rw [hother]) (by rw [hother]) hnotes

theorem Noted.reset (h : ulog.Noted) (henabled : UlogEnabled ulog .reset) :
    ulog.reset.Noted := by
  have haware := h.aware
  have hth : ulog.asyncTh = .resetting := henabled
  rw [Aware, hth] at haware
  obtain ⟨past, between, hsplit, hquiet, hput⟩ := haware
  have hnone : Quiet [] := ⟨List.not_mem_nil, List.not_mem_nil⟩
  refine ⟨h.inv, fun id hid ↦ ?_, ?_, ulog.notes, [], rfl, hnone, rfl,
    fun id hid ↦ .inl ⟨past, between, [], ?_, hquiet, hnone, hput id hid⟩⟩
  · rcases List.mem_append.mp hid with hid | hid
    · exact (h.put id hid).imp_right (List.mem_append_left _)
    · cases List.mem_singleton.mp hid
  · refine h.ordered.concat fun id hid ↦ ?_
    cases hid
  · simp only [Ulog.reset, hsplit, List.append_assoc, List.cons_append]

theorem Noted.take (h : ulog.Noted) (henabled : UlogEnabled ulog .take) : ulog.take.Noted := by
  have haware := h.aware
  have hth : ulog.asyncTh = .taking := henabled
  rw [Aware, hth] at haware
  obtain ⟨past, later, hsplit, hquiet, hcount, hknown⟩ := haware
  unfold Ulog.take
  split_ifs with hnotice
  · exact ⟨h.inv, h.put, h.ordered, trivial⟩
  · refine ⟨h.inv, h.put, h.ordered, fun id hid ↦ ?_⟩
    rcases hknown id hid with hmissed | hcoming | hnoticed
    · exact .inl hmissed
    · exact .inr (.inl hcoming)
    · -- the notice was counted, and the value is 0 nevertheless
      have hzero : later.countP Note.isNoticed % 2 ^ 16 = 0 := by omega
      exact .inr (.inr ⟨past, later, hsplit, hquiet, hnoticed, Nat.dvd_of_mod_eq_zero hzero⟩)

theorem Noted.step (h : ulog.Noted) {event : UlogEvent} (henabled : UlogEnabled ulog event)
    (hstep : ulog.step event = .ok next) : next.Noted := by
  cases event with
  | doOutput record => exact h.doOutput ⟨henabled.1, henabled.2.1, henabled.2.2⟩ hstep
  | store logger =>
    obtain ⟨buf, hrun, hinv⟩ := h.inv.store henabled.1 henabled.2
    obtain rfl := Except.ok.inj (hrun.symm.trans hstep)
    exact h.mono hinv (fun _ ↦ Iff.rfl) rfl rfl rfl rfl
  | put logger => exact h.put_step henabled hstep
  | release id =>
    obtain rfl := Except.ok.inj hstep
    exact h.release id
  | get caller =>
    obtain rfl := Except.ok.inj hstep
    exact h.get henabled
  | fetch reader =>
    obtain ⟨byte, hrun, hinv⟩ := h.inv.fetch henabled.1 henabled.2
    obtain rfl := Except.ok.inj (hrun.symm.trans hstep)
    exact h.mono hinv (fun _ ↦ Iff.rfl) rfl rfl rfl rfl
  | print reader => exact h.print henabled hstep
  | reset =>
    obtain rfl := Except.ok.inj hstep
    exact h.reset henabled
  | take =>
    obtain rfl := Except.ok.inj hstep
    exact h.take henabled

end Ulog

/-! ## Main results -/

section Results

variable {buf : ℕ} {blockSet : ℕ → RtRbbBlk} {bytes : ℤ → UInt8} {events : List UlogEvent}
  {ulog : Ulog}

theorem run_noted (hfits : buf + 2048 < 2 ^ 64)
    (hrun : ulogSystem.Run (Ulog.init buf blockSet bytes) events ulog) : ulog.Noted := by
  have hstart : (Ulog.init buf blockSet bytes).Noted := by
    refine ⟨Ulog.Inv.init blockSet bytes hfits, fun _ hid ↦ absurd hid List.not_mem_nil, ?_, trivial⟩
    intro before after id hsplit
    exact absurd hsplit.symm (List.append_ne_nil_of_right_ne_nil _ (List.cons_ne_nil _ _))
  exact hrun.invariant (fun _ _ _ hnoted henabled hstep ↦ hnoted.step henabled hstep) hstart

/-- **Order.** A log is not taken out of the buffer before an earlier log that is complete. -/
theorem ulog_takes_in_order (hfits : buf + 2048 < 2 ^ 64)
    (hrun : ulogSystem.Run (Ulog.init buf blockSet bytes) events ulog) : Ordered ulog.notes :=
  (run_noted hfits hrun).ordered

theorem ulog_takes_in_order_threeLogs : ∃ ulog : Ulog,
    ulog.notes.take 4 = [.put 1, .noticed 1, .taken 1, .put 0] ∧ Ordered ulog.notes := by
  obtain ⟨ulog, hrun, _, _, _, hnotes⟩ := run_threeLogs
  exact ⟨ulog, hnotes, ulog_takes_in_order (by decide) hrun⟩

/-- **No other log is left behind.** While the thread sleeps, every log is printed, or is in the
hands of a logger or a reader, or its notice is still to come, or it was put between the last look
of the thread into the buffer and its reset of the notice, or its notice was lost when the count of
notices since that reset came to a multiple of `2 ^ 16`. -/
theorem ulog_sleeps_only_on_missed (hfits : buf + 2048 < 2 ^ 64)
    (hrun : ulogSystem.Run (Ulog.init buf blockSet bytes) events ulog)
    (hblocked : ulog.asyncTh = .blocked) {id : ℕ} (hid : id < ulog.accepted.length) :
    id ∈ ulog.printed.map Prod.fst ∨ (∃ logger ∈ ulog.loggers, ulog.ids logger.block = id) ∨
      (∃ reader ∈ ulog.readers, ulog.ids reader.block = id) ∨ id ∈ ulog.notices ∨
        Missed ulog.notes id ∨ Wrapped ulog.notes id := by
  have hnoted := run_noted hfits hrun
  have hbooks : Books .. := hnoted.inv
  have haware := hnoted.aware
  rw [Ulog.Aware, hblocked] at haware
  rcases List.mem_append.mp (hbooks.conserved.mem_iff.mpr (List.mem_range.mpr hid)) with
    hprinted | hheld
  · exact .inl hprinted
  · obtain ⟨i, hi, rfl⟩ := List.mem_map.mp hheld
    cases hstatus : (ulog.asyncRbb.blkSet i).status with
    | unused => exact absurd hstatus ((hbooks.sound.mem i).mp hi).2
    | inited =>
      obtain ⟨logger, hlogger, rfl⟩ := List.mem_map.mp ((hbooks.filling.mem i).mpr ⟨hi, hstatus⟩)
      exact .inr (.inl ⟨logger, hlogger, rfl⟩)
    | put =>
      rcases haware _ ⟨i, ⟨hi, hstatus⟩, rfl⟩ with hmissed | hcoming | hwrapped
      · exact .inr (.inr (.inr (.inr (.inl hmissed))))
      · exact .inr (.inr (.inr (.inl hcoming)))
      · exact .inr (.inr (.inr (.inr (.inr hwrapped))))
    | get =>
      obtain ⟨reader, hreader, rfl⟩ := List.mem_map.mp ((hbooks.printing.mem i).mpr ⟨hi, hstatus⟩)
      exact .inr (.inr (.inl ⟨reader, hreader, rfl⟩))

theorem ulog_sleeps_only_on_missed_threeLogs : ∃ ulog : Ulog, ulog.asyncTh = .blocked ∧
    2 ∉ ulog.printed.map Prod.fst ∧
    (2 ∈ ulog.printed.map Prod.fst ∨ (∃ logger ∈ ulog.loggers, ulog.ids logger.block = 2) ∨
      (∃ reader ∈ ulog.readers, ulog.ids reader.block = 2) ∨ 2 ∈ ulog.notices ∨
        Missed ulog.notes 2 ∨ Wrapped ulog.notes 2) := by
  obtain ⟨ulog, hrun, hblocked, hlength, hprinted, _⟩ := run_threeLogs
  refine ⟨ulog, hblocked, ?_, ulog_sleeps_only_on_missed (by decide) hrun hblocked (by omega)⟩
  rw [hprinted]
  decide

end Results

end K210Firmware.Log
