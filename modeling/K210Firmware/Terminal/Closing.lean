import K210Firmware.Terminal.Delivery

/-!
# Closing the terminal while the shell reads

The destructor gives the shell another device, but it cannot call back a reader that is already
in the driver: detaching the semaphore wakes the reader, which goes on to use the object. The
shell waits in `read` whenever nothing is typed, so this is what normally happens. `safe_closing`
says when closing is safe: no reader has a wait left when the semaphore goes, and none has any use
of the object left when the object goes.
-/

namespace K210Firmware.Terminal.Closing

open Memory Ringbuffer Device Delivery Transition

/-- The reader waits for the semaphore, or will. -/
def Waits : Reader → Prop
  | .looping call => call.i < call.size
  | .suspended _ => True
  | .taken call => call.i + 1 < call.size
  | _ => False

/-- The reader will use the object. -/
def Uses : Reader → Prop
  | .outside => False
  | .looping call => call.i < call.size
  | _ => True

/-- The semaphore is destroyed only when no reader waits or will wait, and the object only when no
reader will use it. -/
def Guard (state : State) : Event → Prop
  | .detach => ¬ Waits state.reader
  | .destroy => ¬ Uses state.reader
  | _ => True

/-- The step accesses no destroyed member, and what readers report they have obtained. -/
def Sound (_ : State) (_ : Event) (outcome : Except Fault State) : Prop :=
  outcome ≠ .error .deadObject ∧
    ∀ after, outcome = .ok after → ∀ report ∈ after.reports, report.1 = report.2

/-- A call in progress has obtained a byte in each iteration. -/
def Obtaining : Reader → Prop
  | .looping call => call.obtained = call.i ∧ call.i ≤ call.size
  | .suspended call => call.obtained = call.i ∧ call.i < call.size
  | .taken call => call.obtained = call.i ∧ call.i < call.size
  | _ => True

/-- What the members are good for, by the stage of the deletion. -/
def Usable (state : State) : Prop :=
  match state.life with
  | .detached => ¬ Waits state.reader ∧
      ∃ queue, Represents state.rxBuff queue ∧ state.reader.between ≤ queue.length
  | .freed => ¬ Uses state.reader
  | _ => ∃ queue, Coupled state queue

/-- What guarded steps keep. -/
structure Kept (state : State) : Prop where
  reports : ∀ report ∈ state.reports, report.1 = report.2
  obtaining : Obtaining state.reader
  usable : Usable state
  busy : state.sender ≠ .idle → state.life = .alive

variable {state next : State} {queue : List UInt8}

theorem Usable.coupled (h : Usable state) (hintact : Intact state) :
    ∃ queue, Coupled state queue := by
  unfold Usable at h
  split at h
  case h_1 hlife => exact absurd hlife hintact.1
  case h_2 hlife => exact absurd hlife hintact.2
  case h_3 => exact h

theorem usable_of_coupled (hintact : Intact state) (h : Coupled state queue) : Usable state := by
  unfold Usable
  split
  case h_1 hlife => exact absurd hlife hintact.1
  case h_2 hlife => exact absurd hlife hintact.2
  case h_3 => exact ⟨queue, h⟩

theorem Usable.detached (h : Usable state) (hlife : state.life = .detached) :
    ¬ Waits state.reader ∧
      ∃ queue, Represents state.rxBuff queue ∧ state.reader.between ≤ queue.length := by
  unfold Usable at h
  rwa [hlife] at h

theorem Usable.freed (h : Usable state) (hlife : state.life = .freed) : ¬ Uses state.reader := by
  unfold Usable at h
  rwa [hlife] at h

theorem start_kept (pool : ℤ → UInt8) : Kept (lvglTerminal pool) where
  reports := nofun
  obtaining := trivial
  usable := usable_of_coupled ⟨nofun, nofun⟩ (start_coupled pool)
  busy h := absurd rfl h

/-! ## The shell thread -/

/-- A reader that leaves the driver owes the object nothing. -/
theorem Usable.outside (h : Usable state) (hbetween : state.reader.between = 0)
    (reports : List (ℕ × ℕ)) : Usable { state with reader := .outside, reports } := by
  by_cases hdetached : state.life = .detached
  · obtain ⟨_, queue, hqueue, _⟩ := h.detached hdetached
    simp only [Usable, hdetached]
    exact ⟨id, queue, hqueue, Nat.zero_le _⟩
  by_cases hfreed : state.life = .freed
  · simp only [Usable, hfreed]
    exact id
  obtain ⟨queue, hcoupled⟩ := h.coupled ⟨hdetached, hfreed⟩
  have hnext : Coupled { state with reader := .outside, reports } queue :=
    Coupled.congr hcoupled rfl rfl rfl (by rw [hbetween]; rfl)
  exact usable_of_coupled ⟨hdetached, hfreed⟩ hnext

theorem Kept.enter {size : ℕ} (h : Kept state) (hreader : state.reader = .entering size) :
    ∃ next, enterRead state size = .ok next ∧ Kept next := by
  have hbetween : state.reader.between = 0 := by
    rw [hreader]
    rfl
  by_cases halive : state.life = .alive
  · have hintact : Intact state := by simp [Intact, halive]
    obtain ⟨queue, hcoupled⟩ := h.usable.coupled hintact
    have hnext : Coupled { state with reader := .looping ⟨size, 0, 0⟩ } queue :=
      Coupled.congr hcoupled rfl rfl rfl (by rw [hbetween]; rfl)
    refine ⟨{ state with reader := .looping ⟨size, 0, 0⟩ }, by simp only [enterRead, halive],
      h.reports, ⟨rfl, Nat.zero_le size⟩, usable_of_coupled hintact hnext, h.busy⟩
  · have hfreed : state.life ≠ .freed := by
      intro hlife
      have huses := h.usable.freed hlife
      rw [hreader] at huses
      exact huses trivial
    have hrun : enterRead state size = .ok { state with reader := .outside } := by
      unfold enterRead
      split
      case h_1 hlife => exact absurd hlife halive
      case h_2 hlife => exact absurd hlife hfreed
      case h_3 => rfl
    exact ⟨_, hrun, h.reports, trivial, h.usable.outside hbetween state.reports, h.busy⟩

theorem Kept.intact_of_waits (h : Kept state) (hwaits : Waits state.reader)
    (huses : Uses state.reader) : Intact state :=
  ⟨fun hlife ↦ (h.usable.detached hlife).1 hwaits, fun hlife ↦ h.usable.freed hlife huses⟩

theorem Kept.wait {call : ReadCall} (h : Kept state) (hreader : state.reader = .looping call)
    (hlt : call.i < call.size) : ∃ next, rxCountWait state call = .ok next ∧ Kept next := by
  have hobtaining := h.obtaining
  rw [hreader] at hobtaining
  have hintact : Intact state := h.intact_of_waits (hreader ▸ hlt) (hreader ▸ hlt)
  obtain ⟨queue, hcoupled⟩ := h.usable.coupled hintact
  have hnext := Coupled.wait hcoupled hreader
  refine ⟨_, rxCountWait_eq hintact call, ?_⟩
  split_ifs at hnext ⊢ with hpositive
  · exact ⟨h.reports, ⟨hobtaining.1, hlt⟩, usable_of_coupled hintact hnext, h.busy⟩
  · exact ⟨h.reports, ⟨hobtaining.1, hlt⟩, usable_of_coupled hintact hnext, h.busy⟩

theorem Kept.getchar {call : ReadCall} (h : Kept state) (hreader : state.reader = .taken call) :
    ∃ next, rxBuffGetchar state call = .ok next ∧ Kept next := by
  have hobtaining := h.obtaining
  rw [hreader] at hobtaining
  have hnext : Obtaining (.looping ⟨call.size, call.i + 1, call.obtained + 1⟩) :=
    ⟨congrArg Nat.succ hobtaining.1, hobtaining.2⟩
  by_cases hdetached : state.life = .detached
  · obtain ⟨hwaits, queue, hqueue, hbetween⟩ := h.usable.detached hdetached
    rw [hreader] at hwaits hbetween
    rcases rtRingbufferGetchar_spec hqueue with
      ⟨rfl, _⟩ | ⟨c, rest, rxBuff, rfl, hget, _, hrest⟩
    · exact absurd hbetween (Nat.not_succ_le_zero 0)
    refine ⟨{ state with
      rxBuff
      output := state.output ++ [c]
      reader := .looping ⟨call.size, call.i + 1, call.obtained + 1⟩ }, ?_, h.reports, hnext, ?_,
      h.busy⟩
    · unfold rxBuffGetchar
      rw [if_neg (by simp [hdetached]), hget, ok_bind]
      rfl
    · simp only [Usable, hdetached]
      exact ⟨hwaits, rest, hrest, Nat.zero_le _⟩
  · have hintact : Intact state :=
      ⟨hdetached, fun hlife ↦ h.usable.freed hlife (hreader ▸ trivial)⟩
    obtain ⟨queue, hcoupled⟩ := h.usable.coupled hintact
    obtain ⟨c, rest, rxBuff, _, hrun, hcoupled'⟩ := Coupled.getchar hcoupled hreader hintact
    exact ⟨_, hrun, h.reports, hnext, usable_of_coupled hintact hcoupled', h.busy⟩

/-- Returning uses nothing, and reports what was obtained. -/
theorem Kept.finishRead {call : ReadCall} (h : Kept state)
    (hreader : state.reader = .looping call) (hle : call.size ≤ call.i) :
    Kept (returnRead state call) := by
  have hobtaining := h.obtaining
  rw [hreader] at hobtaining
  obtain ⟨hobtained, hbound⟩ := hobtaining
  refine ⟨fun report hreport ↦ ?_, trivial, ?_, h.busy⟩
  · rcases List.mem_append.mp hreport with hold | hnew
    · exact h.reports report hold
    · rw [List.mem_singleton.mp hnew]
      exact (Nat.le_antisymm hle hbound).trans hobtained.symm
  · exact h.usable.outside (by rw [hreader]; rfl) _

/-! ## The GUI thread -/

theorem Kept.putchar (h : Kept state) (hsender : state.sender = .idle)
    (halive : state.life = .alive) (c : UInt8) :
    ∃ next, rxBuffPutchar state c = .ok next ∧ Kept next := by
  have hintact : Intact state := by simp [Intact, halive]
  obtain ⟨queue, hcoupled⟩ := h.usable.coupled hintact
  obtain ⟨next, queue', hrun, hnext, hlife⟩ := Coupled.putchar hcoupled hsender c
  have hsame : next.reader = state.reader ∧ next.reports = state.reports := by
    obtain ⟨rxBuff, rfl | rfl⟩ := rxBuffPutchar_ok hrun
    · exact ⟨rfl, rfl⟩
    · exact ⟨rfl, rfl⟩
  refine ⟨next, hrun, hsame.2 ▸ h.reports, hsame.1 ▸ h.obtaining, ?_, fun _ ↦ hlife.trans halive⟩
  exact usable_of_coupled (by rwa [Intact, hlife]) hnext

theorem Kept.release {c : UInt8} (h : Kept state) (hsender : state.sender = .stored c) :
    Kept (rxCountRelease state c) := by
  have halive : state.life = .alive := h.busy (by rw [hsender]; nofun)
  have hintact : Intact state := by simp [Intact, halive]
  obtain ⟨queue, hcoupled⟩ := h.usable.coupled hintact
  have hnext := Coupled.release hcoupled hsender
  have hobtaining := h.obtaining
  unfold rxCountRelease at hnext ⊢
  split at hnext
  case h_1 call hreader =>
    rw [hreader] at hobtaining
    exact ⟨h.reports, hobtaining, usable_of_coupled hintact hnext, fun _ ↦ halive⟩
  case h_2 => exact ⟨h.reports, hobtaining, usable_of_coupled hintact hnext, fun _ ↦ halive⟩

theorem Kept.returnSend {c : UInt8} (h : Kept state) (hsender : state.sender = .released c) :
    Kept (returnSend state c) := by
  have halive : state.life = .alive := h.busy (by rw [hsender]; nofun)
  have hintact : Intact state := by simp [Intact, halive]
  obtain ⟨queue, hcoupled⟩ := h.usable.coupled hintact
  have hnext := Coupled.returnSend hcoupled hsender
  exact ⟨h.reports, h.obtaining, usable_of_coupled hintact hnext, fun _ ↦ halive⟩

/-- The destructor before it destroys the members. -/
theorem Kept.life (h : Kept state) (hsender : state.sender = .idle) (hintact : Intact state)
    {life : Life} (hlife : life ≠ .detached ∧ life ≠ .freed) : Kept { state with life } := by
  obtain ⟨queue, hcoupled⟩ := h.usable.coupled hintact
  have hnext : Coupled { state with life } queue := Coupled.congr hcoupled rfl rfl rfl rfl
  exact ⟨h.reports, h.obtaining, usable_of_coupled hlife hnext, fun hbusy ↦ absurd hsender hbusy⟩

theorem Kept.idle (h : Kept state) (hlife : state.life ≠ .alive) : state.sender = .idle := by
  by_contra hbusy
  exact hlife (h.busy hbusy)

theorem Kept.detach (h : Kept state) (hlife : state.life = .unregistered)
    (hwaits : ¬ Waits state.reader) : Kept (rtSemDetach state) := by
  have hidle := h.idle (by rw [hlife]; nofun)
  have hintact : Intact state := by simp [Intact, hlife]
  obtain ⟨queue, hcoupled⟩ := h.usable.coupled hintact
  have hcount := hcoupled.count
  have hdetach : rtSemDetach state = { state with life := .detached } := by
    unfold rtSemDetach
    split
    case h_1 call hreader =>
      rw [hreader] at hwaits
      exact absurd trivial hwaits
    case h_2 => rfl
  have hbetween : state.reader.between ≤ queue.length := by omega
  rw [hdetach]
  exact ⟨h.reports, h.obtaining, ⟨hwaits, queue, hcoupled.represents, hbetween⟩,
    fun hbusy ↦ absurd hidle hbusy⟩

theorem Kept.destroy (h : Kept state) (hlife : state.life = .detached)
    (huses : ¬ Uses state.reader) : Kept { state with life := .freed } :=
  ⟨h.reports, h.obtaining, huses, fun hbusy ↦ absurd (h.idle (by rw [hlife]; nofun)) hbusy⟩

/-! ## Every interleaving -/

/-- A guarded step returns and keeps all this. -/
theorem serve_kept {event : Event} (h : Kept state) (henabled : Enabled state event)
    (hguard : Guard state event) : ∃ next, serve state event = .ok next ∧ Kept next := by
  cases event with
  | fetch size =>
    obtain ⟨hreader, halive⟩ := henabled
    have hintact : Intact state := by simp [Intact, halive]
    obtain ⟨queue, hcoupled⟩ := h.usable.coupled hintact
    have hnext : Coupled { state with reader := .entering size } queue :=
      Coupled.congr hcoupled rfl rfl rfl (by rw [hreader]; rfl)
    exact ⟨_, rfl, h.reports, trivial, usable_of_coupled hintact hnext, h.busy⟩
  | enter =>
    obtain ⟨size, hreader⟩ := henabled
    simp only [serve, hreader]
    exact h.enter hreader
  | wait =>
    obtain ⟨call, hreader, hlt⟩ := henabled
    simp only [serve, hreader]
    exact h.wait hreader hlt
  | getchar =>
    obtain ⟨call, hreader⟩ := henabled
    simp only [serve, hreader]
    exact h.getchar hreader
  | finishRead =>
    obtain ⟨call, hreader, hle⟩ := henabled
    simp only [serve, hreader]
    exact ⟨_, rfl, h.finishRead hreader hle⟩
  | putchar c => exact h.putchar henabled.1 henabled.2 c
  | release =>
    obtain ⟨c, hsender⟩ := henabled
    simp only [serve, hsender]
    exact ⟨_, rfl, h.release hsender⟩
  | finishSend =>
    obtain ⟨c, hsender⟩ := henabled
    simp only [serve, hsender]
    exact ⟨_, rfl, h.returnSend hsender⟩
  | switch =>
    exact ⟨_, rfl, h.life henabled.1 (by simp [Intact, henabled.2]) (by simp)⟩
  | unregister =>
    have hlife : state.life = .switched := henabled
    exact ⟨_, rfl, h.life (h.idle (by simp [hlife])) (by simp [Intact, hlife])
      (by simp)⟩
  | detach => exact ⟨_, rfl, h.detach henabled hguard⟩
  | destroy => exact ⟨_, rfl, h.destroy henabled hguard⟩

/-- **Closing the terminal** is safe in every interleaving in which the semaphore is destroyed
only when no reader waits or will wait, and the object only when no reader will use it. -/
theorem safe_closing (pool : ℤ → UInt8) (events : List Event)
    (hguard : terminal.Guarded Guard (lvglTerminal pool) events) :
    terminal.Always Sound (lvglTerminal pool) events := by
  apply System.Always.of_invariant _ _ (start_kept pool) hguard
  · intro state event hkept henabled hguard
    obtain ⟨next, hrun, hnext⟩ := serve_kept hkept henabled hguard
    refine ⟨?_, fun after hafter ↦ ?_⟩
    · rw [show terminal.step state event = .ok next from hrun]
      nofun
    · obtain rfl : next = after := Except.ok.inj (hrun.symm.trans hafter)
      exact hnext.reports
  · intro state event next hkept henabled hguard hstep
    obtain ⟨other, hrun, hother⟩ := serve_kept hkept henabled hguard
    obtain rfl : other = next := Except.ok.inj (hrun.symm.trans hstep)
    exact hother

/-- The shell reads a byte that was typed, and the terminal is closed while it is outside. -/
theorem safe_closing_idle : terminal.Always Sound (lvglTerminal fun _ ↦ 0)
    [.putchar 65, .release, .finishSend, .fetch 1, .enter, .wait, .getchar, .finishRead, .switch,
      .unregister, .detach, .destroy] := by
  refine safe_closing (fun _ ↦ 0) _ ?_
  refine .cons rfl trivial <| .cons rfl trivial <| .cons rfl trivial <| .cons rfl trivial <|
    .cons rfl trivial <| .cons rfl trivial <| .cons rfl trivial <| .cons rfl trivial <|
    .cons rfl trivial <| .cons rfl trivial <| .cons rfl id <| .cons rfl id trivial

/-- The shell waits for a byte while the terminal is closed: the detached semaphore wakes it, and
it takes a byte from the buffer of the freed object. -/
theorem closing_wakes_reader : ¬ terminal.Always Sound (lvglTerminal fun _ ↦ 0)
    [.fetch 1, .enter, .wait, .switch, .unregister, .detach, .destroy, .getchar] := by
  intro hsafe
  have hlast := System.always_iff_forall_run.mp hsafe
    [.fetch 1, .enter, .wait, .switch, .unregister, .detach, .destroy] .getchar [] _ rfl
    (.cons ⟨rfl, rfl⟩ rfl <| .cons ⟨1, rfl⟩ rfl <| .cons ⟨⟨1, 0, 0⟩, rfl, Nat.one_pos⟩ rfl <|
      .cons ⟨rfl, rfl⟩ rfl <| .cons rfl rfl <| .cons rfl rfl <| .cons rfl rfl <| .nil _)
    ⟨⟨1, 0, 0⟩, rfl⟩
  exact hlast.1 rfl

end K210Firmware.Terminal.Closing
