import K210Firmware.Library.Transition
import K210Firmware.Terminal.Keyboard
import K210Firmware.Terminal.Ringbuffer

/-!
# Key presses and a full receive buffer

`on_kb_value_changed` sends an arrow key with three calls of `send` and ignores their results; the
shell may read between the calls. Which calls find room depends on the free space and on these
reads alone (`outcomes`). `sent_whole_iff` says when a key is sent whole or not at all, and that
the shell then understands nothing but pressed keys.
-/

namespace K210Firmware.Terminal.Keys

open Memory Ringbuffer Keyboard Transition Decoding

/-- The receive buffer and the map of the keyboard, with the bytes that the shell has received,
what the sends of the last press returned, and the keys that were pressed. -/
structure State where
  rxBuff : RtRingbuffer
  kbMap : KbMap
  received : List UInt8
  results : List ℤ
  pressed : List Key

/-- The state after the constructor. -/
def lvglTerminal (pool : ℤ → UInt8) : State :=
  ⟨rtRingbufferInit ⟨64, pool⟩ 64, .lc, [], [], []⟩

def send (state : State) (c : UInt8) : Except Fault State := do
  let (result, rxBuff) ← rtRingbufferPutchar state.rxBuff c
  return { state with rxBuff, results := state.results ++ [if result = 0 then -1 else 0] }

/-- The shell takes a byte; it waits while the buffer is empty. -/
def readByte (state : State) : Except Fault State := do
  let (ch, rxBuff) ← rtRingbufferGetchar state.rxBuff
  return { state with rxBuff, received := state.received ++ ch.toList }

def readBytes (state : State) : ℕ → Except Fault State
  | 0 => return state
  | n + 1 => do
    let state ← readByte state
    readBytes state n

/-- The sends of a key, each with the number of bytes that the shell reads before the next. -/
def sendAll (state : State) : List (UInt8 × ℕ) → Except Fault State
  | [] => return state
  | (c, reads) :: rest => do
    let state ← send state c
    let state ← readBytes state reads
    sendAll state rest

/-- `on_kb_value_changed`, with the reads after the first and the second send. -/
def onKbValueChanged (state : State) (txt : Text) (first second : ℕ) : Except Fault State :=
  match reaction txt with
  | .setMap map => return { state with kbMap := map, results := [] }
  | .cancel => return { state with results := [] }
  | .send key =>
      sendAll { state with results := [], pressed := state.pressed ++ [key] }
        (key.bytes.zip [first, second, 0])

/-! ## The buffer as a queue of 64 bytes -/

structure Holds (state : State) (queue : List UInt8) : Prop where
  represents : Represents state.rxBuff queue
  size : state.rxBuff.bufferSize = 64

variable {state : State} {queue : List UInt8}

theorem Holds.length_le (h : Holds state queue) : queue.length ≤ 64 := by
  have hlength := h.represents.stores.length_le
  rw [h.size] at hlength
  omega

theorem Holds.spaceLen_eq (h : Holds state queue) :
    rtRingbufferSpaceLen state.rxBuff = 64 - queue.length := by
  rw [rtRingbufferSpaceLen, h.represents.dataLen_eq, h.size]

/-- What the sends and reads of a press add to the histories. -/
structure Extends (state after : State) (received : List UInt8) (results : List ℤ) : Prop where
  kbMap : after.kbMap = state.kbMap
  pressed : after.pressed = state.pressed
  received : after.received = state.received ++ received
  results : after.results = state.results ++ results

theorem Extends.refl (state : State) : Extends state state [] [] :=
  ⟨rfl, rfl, (List.append_nil _).symm, (List.append_nil _).symm⟩

theorem Extends.trans {middle after : State} {first second : List UInt8} {left right : List ℤ}
    (h : Extends state middle first left) (hafter : Extends middle after second right) :
    Extends state after (first ++ second) (left ++ right) where
  kbMap := hafter.kbMap.trans h.kbMap
  pressed := hafter.pressed.trans h.pressed
  received := by rw [hafter.received, h.received, List.append_assoc]
  results := by rw [hafter.results, h.results, List.append_assoc]

/-- A send appends its byte if there is room, and says so. -/
theorem send_spec (h : Holds state queue) (c : UInt8) :
    ∃ after, send state c = .ok after ∧
      Holds after (queue ++ if queue.length < 64 then [c] else []) ∧
      Extends state after [] [if queue.length < 64 then 0 else -1] := by
  have hsize := h.size
  rcases rtRingbufferPutchar_spec h.represents c with
    ⟨hfull, hput⟩ | ⟨hroom, rxBuff, hput, hkeep, hnew⟩
  · have hlength : ¬ queue.length < 64 := by omega
    rw [if_neg hlength, if_neg hlength, List.append_nil]
    exact ⟨{ state with results := state.results ++ [-1] }, by rw [send, hput]; rfl,
      ⟨h.represents, hsize⟩, rfl, rfl, (List.append_nil _).symm, rfl⟩
  · have hlength : queue.length < 64 := by omega
    rw [if_pos hlength, if_pos hlength]
    exact ⟨{ state with rxBuff, results := state.results ++ [0] }, by rw [send, hput]; rfl,
      ⟨hnew, hkeep.trans hsize⟩, rfl, rfl, (List.append_nil _).symm, rfl⟩

theorem readByte_spec (h : Holds state queue) :
    ∃ after, readByte state = .ok after ∧ Holds after (queue.drop 1) ∧
      Extends state after (queue.take 1) [] := by
  rcases rtRingbufferGetchar_spec h.represents with ⟨rfl, hget⟩ |
    ⟨ch, rest, rxBuff, rfl, hget, hkeep, hrest⟩
  · exact ⟨{ state with received := state.received ++ [] }, by rw [readByte, hget]; rfl,
      ⟨h.represents, h.size⟩, rfl, rfl, rfl, (List.append_nil _).symm⟩
  · exact ⟨{ state with rxBuff, received := state.received ++ [ch] }, by rw [readByte, hget]; rfl,
      ⟨hrest, hkeep.trans h.size⟩, rfl, rfl, rfl, (List.append_nil _).symm⟩

theorem readBytes_spec (h : Holds state queue) (n : ℕ) :
    ∃ after, readBytes state n = .ok after ∧ Holds after (queue.drop n) ∧
      Extends state after (queue.take n) [] := by
  induction n generalizing state queue with
  | zero => exact ⟨state, rfl, h, .refl state⟩
  | succ n ih =>
    obtain ⟨middle, hmiddle, hholds, hfirst⟩ := readByte_spec h
    obtain ⟨after, hafter, hlast, hrest⟩ := ih hholds
    refine ⟨after, by rw [readBytes, hmiddle, ok_bind, hafter], ?_, ?_⟩
    · rwa [List.drop_drop, Nat.add_comm] at hlast
    · have hboth := hfirst.trans hrest
      rwa [← List.take_add, Nat.add_comm] at hboth

/-! ## Which sends find room -/

/-- The results of the sends into a buffer that holds `used` bytes. -/
def outcomes (used : ℕ) : List (UInt8 × ℕ) → List ℤ
  | [] => []
  | (_, reads) :: rest =>
      if used < 64 then 0 :: outcomes (used + 1 - reads) rest
      else -1 :: outcomes (used - reads) rest

/-- The bytes that found room. -/
def accepted (used : ℕ) : List (UInt8 × ℕ) → List UInt8
  | [] => []
  | (c, reads) :: rest =>
      if used < 64 then c :: accepted (used + 1 - reads) rest else accepted (used - reads) rest

/-- **The sends of a press.** No byte that was accepted is lost or overtaken. -/
theorem sendAll_spec (h : Holds state queue) (sends : List (UInt8 × ℕ)) :
    ∃ after rest taken, sendAll state sends = .ok after ∧ Holds after rest ∧
      Extends state after taken (outcomes queue.length sends) ∧
      taken ++ rest = queue ++ accepted queue.length sends := by
  induction sends generalizing state queue with
  | nil =>
    exact ⟨state, queue, [], rfl, h, .refl state, (List.append_nil _).symm⟩
  | cons head sends ih =>
    obtain ⟨c, reads⟩ := head
    obtain ⟨first, hfirst, hsent, hsend⟩ := send_spec h c
    obtain ⟨second, hsecond, hread, hreads⟩ := readBytes_spec hsent reads
    obtain ⟨after, rest, taken, hafter, hlast, hrest, hstream⟩ := ih hread
    have hrun : sendAll state ((c, reads) :: sends) = .ok after := by
      rw [sendAll, hfirst, ok_bind, hsecond, ok_bind, hafter]
    have hextends := (hsend.trans hreads).trans hrest
    rw [outcomes, accepted]
    by_cases hroom : queue.length < 64
    · simp only [if_pos hroom, List.length_drop, List.length_append, List.length_singleton]
        at hextends hstream ⊢
      refine ⟨after, rest, _, hrun, hlast, hextends, ?_⟩
      rw [List.append_assoc, hstream, List.nil_append, ← List.append_assoc,
        List.take_append_drop, List.append_assoc]
      rfl
    · simp only [if_neg hroom, List.length_drop, List.append_nil] at hextends hstream ⊢
      refine ⟨after, rest, _, hrun, hlast, hextends, ?_⟩
      rw [List.append_assoc, hstream, List.nil_append, ← List.append_assoc,
        List.take_append_drop]

/-- All sends of the press have stored their byte, or none has. -/
def Whole (results : List ℤ) : Prop :=
  (∀ result ∈ results, result = 0) ∨ ∀ result ∈ results, result = -1

instance : DecidablePred Whole := fun _ ↦ inferInstanceAs (Decidable (_ ∨ _))

/-- The key has one byte; or the buffer is full and stays so; or every byte finds room, because of
the free space or of the reads that come first. -/
def Room (space : ℤ) (key : Key) (first second : ℕ) : Prop :=
  key.bytes.length = 1 ∨ space = 0 ∧ first = 0 ∧ second = 0 ∨
    1 ≤ space ∧ 2 ≤ space + first ∧ 3 ≤ space + first + second

/-- The three sends of an arrow key. -/
theorem whole_three_iff {used : ℕ} (hused : used ≤ 64) (a b c : UInt8) (first second : ℕ) :
    Whole (outcomes used [(a, first), (b, second), (c, 0)]) ↔
      64 - used = 0 ∧ first = 0 ∧ second = 0 ∨
        1 ≤ 64 - used ∧ 2 ≤ 64 - used + first ∧ 3 ≤ 64 - used + first + second := by
  simp only [outcomes, Whole]
  split_ifs <;> simp <;> omega

theorem whole_outcomes_iff {used : ℕ} (hused : used ≤ 64) (key : Key) (first second : ℕ) :
    Whole (outcomes used (key.bytes.zip [first, second, 0])) ↔
      Room (64 - used) key first second := by
  have hthree (a b c : UInt8) (hbytes : key.bytes = [a, b, c]) :
      Whole (outcomes used (key.bytes.zip [first, second, 0])) ↔
        Room (64 - used) key first second := by
    rw [hbytes, Room, hbytes]
    refine (whole_three_iff hused a b c first second).trans ?_
    simp only [List.length_cons, List.length_nil]
    omega
  cases key with
  | char c =>
    refine iff_of_true ?_ (.inl rfl)
    by_cases hroom : used < 64
    · exact .inl (by simp [outcomes, Key.bytes, hroom])
    · exact .inr (by simp [outcomes, Key.bytes, hroom])
  | up => exact hthree _ _ _ rfl
  | down => exact hthree _ _ _ rfl
  | right => exact hthree _ _ _ rfl
  | left => exact hthree _ _ _ rfl

theorem accepted_of_zero {used : ℕ} {sends : List (UInt8 × ℕ)}
    (h : ∀ result ∈ outcomes used sends, result = 0) :
    accepted used sends = sends.map Prod.fst := by
  induction sends generalizing used with
  | nil => rfl
  | cons head sends ih =>
    rw [outcomes] at h
    rw [accepted]
    split_ifs at h ⊢ with hroom
    · rw [ih (List.forall_mem_cons.mp h).2]
      rfl
    · exact absurd (List.forall_mem_cons.mp h).1 (by decide)

theorem accepted_of_minus {used : ℕ} {sends : List (UInt8 × ℕ)}
    (h : ∀ result ∈ outcomes used sends, result = -1) : accepted used sends = [] := by
  induction sends generalizing used with
  | nil => rfl
  | cons head sends ih =>
    rw [outcomes] at h
    rw [accepted]
    split_ifs at h ⊢ with hroom
    · exact absurd (List.forall_mem_cons.mp h).1 (by decide)
    · exact ih (List.forall_mem_cons.mp h).2

/-- A press that is whole adds the bytes of its key to the stream, or nothing. -/
theorem accepted_of_whole {used : ℕ} {key : Key} {first second : ℕ}
    (h : Whole (outcomes used (key.bytes.zip [first, second, 0]))) :
    accepted used (key.bytes.zip [first, second, 0]) = key.bytes ∨
      accepted used (key.bytes.zip [first, second, 0]) = [] := by
  rcases h with hzero | hminus
  · refine .inl ((accepted_of_zero hzero).trans (List.map_fst_zip ?_))
    cases key <;> simp [Key.bytes]
  · exact .inr (accepted_of_minus hminus)

/-! ## Runs of presses and reads -/

/-- A press of a button, with the reads between its sends, and a read at another time. -/
inductive Event
  | press (txt : Text) (first second : ℕ)
  | read

/-- The buttons are those of the map on display. -/
def enabled (state : State) : Event → Prop
  | .press txt _ _ => txt ∈ state.kbMap.texts
  | .read => True

def serve (state : State) : Event → Except Fault State
  | .press txt first second => onKbValueChanged state txt first second
  | .read => readByte { state with results := [] }

def keyboard : System State Event Fault where
  enabled := enabled
  step := serve

/-- The step returns, its sends have stored all of their bytes or none, and what the shell has
understood so far are some of the pressed keys, in their order. -/
def Understood (_ : State) (_ : Event) (outcome : Except Fault State) : Prop :=
  ∃ after, outcome = .ok after ∧ Whole after.results ∧
    (finsh.tokens after.received).Sublist after.pressed

/-- What a press needs from the buffer and the reads. -/
def Roomy (state : State) : Event → Prop
  | .press txt first second => ∀ key, reaction txt = .send key →
      Room (rtRingbufferSpaceLen state.rxBuff) key first second
  | .read => True

/-- **A press.** It returns, it is whole exactly if it is roomy, and a whole press adds the bytes
of its key to the stream, or nothing. -/
theorem onKbValueChanged_spec (h : Holds state queue) (txt : Text) (first second : ℕ) :
    ∃ after rest added, onKbValueChanged state txt first second = .ok after ∧ Holds after rest ∧
      (Whole after.results ↔ Roomy state (.press txt first second)) ∧
      after.received ++ rest = state.received ++ queue ++ added ∧
      state.pressed.Sublist after.pressed ∧
      (Whole after.results → added = [] ∨ ∃ key, reaction txt = .send key ∧
        added = key.bytes ∧ after.pressed = state.pressed ++ [key]) := by
  rw [onKbValueChanged, Roomy]
  cases hreaction : reaction txt with
  | setMap map =>
    exact ⟨_, queue, [], rfl, ⟨h.represents, h.size⟩, iff_of_true (.inl (by simp)) nofun,
      (List.append_nil _).symm, .refl _, fun _ ↦ .inl rfl⟩
  | cancel =>
    exact ⟨_, queue, [], rfl, ⟨h.represents, h.size⟩, iff_of_true (.inl (by simp)) nofun,
      (List.append_nil _).symm, .refl _, fun _ ↦ .inl rfl⟩
  | send key =>
    have hstart : Holds { state with results := [], pressed := state.pressed ++ [key] } queue :=
      ⟨h.represents, h.size⟩
    obtain ⟨after, rest, taken, hrun, hafter, hextends, hstream⟩ :=
      sendAll_spec hstart (key.bytes.zip [first, second, 0])
    have hresults : after.results = outcomes queue.length (key.bytes.zip [first, second, 0]) :=
      hextends.results
    refine ⟨after, rest, accepted queue.length (key.bytes.zip [first, second, 0]), hrun, hafter,
      ?_, ?_, ?_, fun hwhole ↦ ?_⟩
    · rw [hresults, whole_outcomes_iff h.length_le, h.spaceLen_eq]
      simp
    · rw [hextends.received, List.append_assoc, hstream, List.append_assoc]
    · rw [hextends.pressed]
      exact List.sublist_append_left ..
    · rw [hresults] at hwhole
      rcases accepted_of_whole hwhole with hbytes | hnone
      · exact .inr ⟨key, rfl, hbytes, hextends.pressed⟩
      · exact .inl hnone

/-- The shell has received, and the buffer holds, the bytes of some of the pressed keys. -/
def Streamed (state : State) : Prop :=
  ∃ (queue : List UInt8) (sent : List Key), Holds state queue ∧
    state.received ++ queue = sent.flatMap Key.bytes ∧
    (∀ key ∈ sent, key.Readable) ∧ sent.Sublist state.pressed

theorem lvglTerminal_streamed (pool : ℤ → UInt8) : Streamed (lvglTerminal pool) :=
  ⟨[], [], ⟨init_64_represents _, rfl⟩, rfl, by simp, .slnil⟩

/-- From a stream of whole keys the shell understands nothing but pressed keys. -/
theorem Streamed.sublist (h : Streamed state) :
    (finsh.tokens state.received).Sublist state.pressed := by
  obtain ⟨queue, sent, _, hstream, hreadable, hsent⟩ := h
  have hinverts : ∀ key ∈ sent, finsh.Inverts Key.bytes key :=
    fun key hkey ↦ inverts_of_readable (hreadable key hkey)
  exact (Decoder.tokens_isPrefix hinverts hstream).sublist.trans hsent

/-- **One step** is whole exactly if it is roomy, and then keeps the stream. -/
theorem serve_spec (h : Streamed state) {event : Event} (henabled : enabled state event) :
    ∃ after, serve state event = .ok after ∧ (Whole after.results ↔ Roomy state event) ∧
      (Whole after.results → Streamed after) := by
  obtain ⟨queue, sent, hholds, hstream, hreadable, hsent⟩ := h
  cases event with
  | press txt first second =>
    obtain ⟨after, rest, added, hrun, hafter, hwhole, hadded, hpressed, hkey⟩ :=
      onKbValueChanged_spec hholds txt first second
    refine ⟨after, hrun, hwhole, fun hall ↦ ?_⟩
    rcases hkey hall with rfl | ⟨key, hreaction, rfl, hkeys⟩
    · refine ⟨rest, sent, hafter, ?_, hreadable, hsent.trans hpressed⟩
      rw [hadded, hstream, List.append_nil]
    · refine ⟨rest, sent ++ [key], hafter, ?_, ?_, ?_⟩
      · rw [hadded, hstream, List.flatMap_append, List.flatMap_singleton]
      · intro other hother
        rcases List.mem_append.mp hother with hold | hnew
        · exact hreadable other hold
        · rw [List.mem_singleton.mp hnew]
          exact readable_of_mem_texts henabled hreaction
      · rw [hkeys]
        exact hsent.append (.refl _)
  | read =>
    have hstart : Holds { state with results := [] } queue := ⟨hholds.represents, hholds.size⟩
    obtain ⟨after, hrun, hafter, hextends⟩ := readByte_spec hstart
    have hresults : after.results = [] := hextends.results
    refine ⟨after, hrun, iff_of_true (.inl (by simp [hresults])) trivial, fun _ ↦
      ⟨queue.drop 1, sent, hafter, ?_, hreadable, hextends.pressed ▸ hsent⟩⟩
    rw [hextends.received, List.append_assoc, List.take_append_drop, hstream]

/-! ## Exactly when keys are sent whole -/

/-- **Exact condition.** From any state of the buffer, a press sends its key whole or not at all
if and only if it is roomy. A run from the constructor on sends every key so, and gives the shell
nothing but pressed keys to understand, if and only if each of its presses is roomy. -/
theorem sent_whole_iff (pool : ℤ → UInt8) (events : List Event) :
    (∀ state queue, Represents state.rxBuff queue → state.rxBuff.bufferSize = 64 →
      ∀ txt first second,
        (∃ after, onKbValueChanged state txt first second = .ok after ∧ Whole after.results) ↔
          Roomy state (.press txt first second)) ∧
    (keyboard.Always Understood (lvglTerminal pool) events ↔
      keyboard.Guarded Roomy (lvglTerminal pool) events) := by
  constructor
  · intro state queue hrepresents hsize txt first second
    obtain ⟨after, _, _, hrun, _, hwhole, _⟩ :=
      onKbValueChanged_spec ⟨hrepresents, hsize⟩ txt first second
    rw [← hwhole, hrun]
    exact ⟨fun ⟨other, hother, hall⟩ ↦ Except.ok.inj hother ▸ hall, fun hall ↦ ⟨after, rfl, hall⟩⟩
  · refine System.always_iff_guarded (fun state event hstreamed henabled ↦ ?_)
      (fun state event next hstreamed henabled hroomy hstep ↦ ?_) (lvglTerminal_streamed pool)
    · obtain ⟨after, hrun, hwhole, hkept⟩ := serve_spec hstreamed henabled
      constructor
      · rintro ⟨other, hother, hall, _⟩
        obtain rfl : after = other := Except.ok.inj (hrun.symm.trans hother)
        exact hwhole.mp hall
      · intro hroomy
        have hall := hwhole.mpr hroomy
        exact ⟨after, hrun, hall, (hkept hall).sublist⟩
    · obtain ⟨after, hrun, hwhole, hkept⟩ := serve_spec hstreamed henabled
      obtain rfl : after = next := Except.ok.inj (hrun.symm.trans hstep)
      exact hkept (hwhole.mpr hroomy)

/-- An arrow key on the empty buffer. -/
theorem sent_whole_arrow :
    (∃ after, onKbValueChanged (lvglTerminal fun _ ↦ 0) lvSymbolLeft 0 0 = .ok after ∧
        Whole after.results) ∧
      keyboard.Always Understood (lvglTerminal fun _ ↦ 0) [.press lvSymbolLeft 0 0] := by
  have hroomy : Roomy (lvglTerminal fun _ ↦ 0) (.press lvSymbolLeft 0 0) := by
    intro key hkey
    have hleft : reaction lvSymbolLeft = .send .left := by decide
    obtain rfl : Key.left = key := Reaction.send.inj (hleft.symm.trans hkey)
    exact .inr (.inr (by decide))
  obtain ⟨hpress, hrun⟩ := sent_whole_iff (fun _ ↦ 0) [.press lvSymbolLeft 0 0]
  constructor
  · exact (hpress _ [] (init_64_represents _) rfl lvSymbolLeft 0 0).mpr hroomy
  · exact hrun.mpr fun _ ↦ ⟨hroomy, fun _ _ ↦ trivial⟩

/-- Room for one byte behind 63 others. -/
def nearlyFull : State :=
  ⟨⟨⟨64, fun _ ↦ 0x71⟩, false, 0, false, 63, 64⟩, .lc, [], [], List.replicate 63 (.char 0x71)⟩

/-- The left arrow is cut to an escape. -/
theorem arrow_is_cut :
    Represents nearlyFull.rxBuff (List.replicate 63 0x71) ∧
      ∃ after, onKbValueChanged nearlyFull lvSymbolLeft 0 0 = .ok after ∧
        after.results = [0, -1, -1] ∧ ¬ Whole after.results := by
  constructor
  · refine ⟨le_rfl, ⟨by decide, by decide, by decide, fun age hage ↦ ?_⟩, by decide, by decide,
      fun _ ↦ by decide, fun hmirror ↦ absurd rfl hmirror⟩
    rw [List.length_replicate] at hage
    rw [List.getElem?_replicate, if_pos hage]
    rfl
  · refine ⟨_, rfl, rfl, ?_⟩
    change ¬ Whole [0, -1, -1]
    decide

end K210Firmware.Terminal.Keys
