import K210Firmware.Terminal.Device

/-!
# Keyboard bytes reach the shell

As long as the terminal exists, the bytes that `send` has accepted are those delivered to readers
followed by those in the buffer, and the semaphore never counts a byte that is not there. Both
follow from the coupling of the semaphore with the buffer, which every step keeps. A byte may be
read before the `send` that stored it returns (`read_before_return`).
-/

namespace K210Firmware.Terminal.Delivery

open Memory Ringbuffer Device Transition

/-- The destructor has not reached the members. -/
def Intact (state : State) : Prop := state.life ≠ .detached ∧ state.life ≠ .freed

/-- The bytes for which `send` has returned 0, or is about to. -/
def accepted (state : State) : List UInt8 := returned state ++ state.sender.pending

variable {state next : State} {queue : List UInt8}

/-! ## One step -/

theorem start_coupled (pool : ℤ → UInt8) : Coupled (lvglTerminal pool) [] where
  represents := init_64_represents _
  capacity := rfl
  history := rfl
  count := rfl

/-- Steps that change neither the buffer nor the semaphore, nor what the threads owe them. -/
theorem Coupled.congr (h : Coupled state queue) (hbuff : next.rxBuff = state.rxBuff)
    (hhistory : accepted next = accepted state) (houtput : next.output = state.output)
    (hcount : next.rxCount + next.reader.between + next.sender.uncounted =
      state.rxCount + state.reader.between + state.sender.uncounted) : Coupled next queue where
  represents := hbuff ▸ h.represents
  capacity := hbuff ▸ h.capacity
  history := by
    calc
      returned next ++ next.sender.pending = returned state ++ state.sender.pending := hhistory
      _ = state.output ++ queue := h.history
      _ = next.output ++ queue := by rw [houtput]
  count := hcount.trans h.count

theorem rxCountWait_eq (hintact : Intact state) (call : ReadCall) :
    rxCountWait state call = .ok (if state.rxCount > 0 then
      { state with rxCount := state.rxCount - 1, reader := .taken call }
    else { state with reader := .suspended call }) := by
  unfold rxCountWait
  rcases hlife : state.life
  case detached => exact absurd hlife hintact.1
  case freed => exact absurd hlife hintact.2
  all_goals
    simp only
    split_ifs <;> rfl

theorem Coupled.wait {call : ReadCall} (h : Coupled state queue)
    (hreader : state.reader = .looping call) :
    Coupled (if state.rxCount > 0 then
      { state with rxCount := state.rxCount - 1, reader := .taken call }
    else { state with reader := .suspended call }) queue := by
  split_ifs with hpositive
  · refine Coupled.congr h rfl rfl rfl ?_
    simp only [hreader, Reader.between]
    omega
  · refine Coupled.congr h rfl rfl rfl ?_
    simp only [hreader, Reader.between]

/-- A reader that holds the semaphore finds a byte. -/
theorem Coupled.getchar {call : ReadCall} (h : Coupled state queue)
    (hreader : state.reader = .taken call) (hintact : Intact state) :
    ∃ c rest rxBuff, queue = c :: rest ∧
      rxBuffGetchar state call = .ok { state with
        rxBuff
        output := state.output ++ [c]
        reader := .looping ⟨call.size, call.i + 1, call.obtained + 1⟩ } ∧
      Coupled { state with
        rxBuff
        output := state.output ++ [c]
        reader := .looping ⟨call.size, call.i + 1, call.obtained + 1⟩ } rest := by
  have hcount := h.count
  rw [hreader] at hcount
  rcases rtRingbufferGetchar_spec h.represents with
    ⟨rfl, _⟩ | ⟨c, rest, rxBuff, rfl, hget, hsize, hrest⟩
  · simp only [Reader.between, List.length_nil] at hcount
    omega
  refine ⟨c, rest, rxBuff, rfl, ?_, hrest, hsize.trans h.capacity, ?_, ?_⟩
  · unfold rxBuffGetchar
    rw [if_neg hintact.2, hget, ok_bind]
    rfl
  · calc
      returned state ++ state.sender.pending = state.output ++ c :: rest := h.history
      _ = (state.output ++ [c]) ++ rest := by simp
  · simp only [Reader.between, List.length_cons] at hcount ⊢
    omega

theorem Coupled.putchar (h : Coupled state queue) (hsender : state.sender = .idle) (c : UInt8) :
    ∃ next queue', rxBuffPutchar state c = .ok next ∧ Coupled next queue' ∧
      next.life = state.life := by
  have hhistory := h.history
  have hcount := h.count
  rw [hsender] at hhistory hcount
  unfold rxBuffPutchar
  rcases rtRingbufferPutchar_spec h.represents c with
    ⟨_, hput⟩ | ⟨_, rxBuff, hput, hsize, hpushed⟩
  · rw [hput, ok_bind]
    refine ⟨_, queue, rfl, Coupled.congr h rfl ?_ rfl rfl, rfl⟩
    simp [accepted, returned]
  · rw [hput, ok_bind]
    refine ⟨_, queue ++ [c], rfl, ⟨hpushed, hsize.trans h.capacity, ?_, ?_⟩, rfl⟩
    · simp only [Sender.pending, List.append_nil] at hhistory ⊢
      calc
        returned state ++ [c] = (state.output ++ queue) ++ [c] := by rw [hhistory]
        _ = state.output ++ (queue ++ [c]) := List.append_assoc ..
    · simp only [Sender.uncounted, List.length_append, List.length_singleton] at hcount ⊢
      omega

theorem Coupled.release {c : UInt8} (h : Coupled state queue)
    (hsender : state.sender = .stored c) : Coupled (rxCountRelease state c) queue := by
  unfold rxCountRelease
  rcases hreader : state.reader
  case suspended call =>
    refine Coupled.congr h rfl (by simp [accepted, returned, hsender, Sender.pending]) rfl ?_
    simp [hreader, hsender, Reader.between, Sender.uncounted]
  all_goals
    refine Coupled.congr h rfl (by simp [accepted, returned, hsender, Sender.pending]) rfl ?_
    simp only [hreader, hsender, Reader.between, Sender.uncounted]

theorem Coupled.returnSend {c : UInt8} (h : Coupled state queue)
    (hsender : state.sender = .released c) : Coupled (returnSend state c) queue := by
  refine Coupled.congr h rfl ?_ rfl ?_
  · simp [accepted, returned, Device.returnSend, hsender, Sender.pending]
  · simp [Device.returnSend, hsender, Sender.uncounted]

/-- A step before the members are destroyed returns, and keeps the coupling. -/
theorem serve_coupled {event : Event} (h : Coupled state queue) (hintact : Intact state)
    (henabled : Enabled state event) (hevent : event ≠ .detach ∧ event ≠ .destroy) :
    ∃ next queue', serve state event = .ok next ∧ Coupled next queue' := by
  cases event with
  | fetch size =>
    refine ⟨_, queue, rfl, Coupled.congr h rfl rfl rfl ?_⟩
    simp [henabled.1, Reader.between]
  | enter =>
    obtain ⟨size, hreader⟩ := henabled
    simp only [serve, hreader, enterRead]
    rcases hlife : state.life
    case freed => exact absurd hlife hintact.2
    all_goals
      refine ⟨_, queue, rfl, Coupled.congr h rfl rfl rfl ?_⟩
      simp [hreader, Reader.between]
  | wait =>
    obtain ⟨call, hreader, _⟩ := henabled
    exact ⟨_, queue, by simp only [serve, hreader, rxCountWait_eq hintact],
      Coupled.wait h hreader⟩
  | getchar =>
    obtain ⟨call, hreader⟩ := henabled
    obtain ⟨c, rest, rxBuff, _, hrun, hnext⟩ := Coupled.getchar h hreader hintact
    exact ⟨_, rest, by simp only [serve, hreader, hrun], hnext⟩
  | finishRead =>
    obtain ⟨call, hreader, _⟩ := henabled
    refine ⟨returnRead state call, queue, by simp only [serve, hreader],
      Coupled.congr h rfl rfl rfl ?_⟩
    simp [returnRead, hreader, Reader.between]
  | putchar c =>
    obtain ⟨next, queue', hrun, hnext, _⟩ := Coupled.putchar h henabled.1 c
    exact ⟨next, queue', hrun, hnext⟩
  | release =>
    obtain ⟨c, hsender⟩ := henabled
    exact ⟨_, queue, by simp only [serve, hsender], Coupled.release h hsender⟩
  | finishSend =>
    obtain ⟨c, hsender⟩ := henabled
    exact ⟨_, queue, by simp only [serve, hsender], Coupled.returnSend h hsender⟩
  | switch => exact ⟨_, queue, rfl, Coupled.congr h rfl rfl rfl rfl⟩
  | unregister => exact ⟨_, queue, rfl, Coupled.congr h rfl rfl rfl rfl⟩
  | detach => exact absurd rfl hevent.1
  | destroy => exact absurd rfl hevent.2

/-- What every step leaves in place: accepted bytes, and the stage of a deletion that the step is
no part of. -/
structure Onward (state : State) (event : Event) (next : State) : Prop where
  accepted : accepted state <+: accepted next
  life : event ≠ .switch → event ≠ .unregister → event ≠ .detach → event ≠ .destroy →
    next.life = state.life

theorem putchar_onward {c : UInt8} (hsender : state.sender = .idle)
    (hrun : rxBuffPutchar state c = .ok next) :
    accepted state <+: accepted next ∧ next.life = state.life := by
  obtain ⟨rxBuff, rfl | rfl⟩ := rxBuffPutchar_ok hrun
  · exact ⟨by simp [accepted, returned], rfl⟩
  · exact ⟨by simp [accepted, returned, hsender, Sender.pending], rfl⟩

theorem serve_onward {event : Event} (henabled : Enabled state event)
    (hrun : serve state event = .ok next) : Onward state event next := by
  cases event with
  | fetch size =>
    cases hrun
    exact ⟨List.prefix_rfl, fun _ _ _ _ ↦ rfl⟩
  | enter =>
    obtain ⟨size, hreader⟩ := henabled
    simp only [serve, hreader] at hrun
    obtain ⟨reader, rfl⟩ := enterRead_ok hrun
    exact ⟨List.prefix_rfl, fun _ _ _ _ ↦ rfl⟩
  | wait =>
    obtain ⟨call, hreader, _⟩ := henabled
    simp only [serve, hreader] at hrun
    obtain ⟨rxCount, reader, rfl⟩ := rxCountWait_ok hrun
    exact ⟨List.prefix_rfl, fun _ _ _ _ ↦ rfl⟩
  | getchar =>
    obtain ⟨call, hreader⟩ := henabled
    simp only [serve, hreader] at hrun
    obtain ⟨rxBuff, output, reader, rfl⟩ := rxBuffGetchar_ok hrun
    exact ⟨List.prefix_rfl, fun _ _ _ _ ↦ rfl⟩
  | finishRead =>
    obtain ⟨call, hreader, _⟩ := henabled
    simp only [serve, hreader] at hrun
    cases hrun
    exact ⟨List.prefix_rfl, fun _ _ _ _ ↦ rfl⟩
  | putchar c =>
    obtain ⟨haccepted, hlife⟩ := putchar_onward henabled.1 hrun
    exact ⟨haccepted, fun _ _ _ _ ↦ hlife⟩
  | release =>
    obtain ⟨c, hsender⟩ := henabled
    simp only [serve, hsender] at hrun
    cases hrun
    exact ⟨by simp [accepted, returned, hsender, Sender.pending],
      fun _ _ _ _ ↦ rxCountRelease_life state c⟩
  | finishSend =>
    obtain ⟨c, hsender⟩ := henabled
    simp only [serve, hsender] at hrun
    cases hrun
    exact ⟨by simp [accepted, returned, Device.returnSend, hsender, Sender.pending],
      fun _ _ _ _ ↦ rfl⟩
  | switch =>
    cases hrun
    exact ⟨List.prefix_rfl, fun hevent ↦ absurd rfl hevent⟩
  | unregister =>
    cases hrun
    exact ⟨List.prefix_rfl, fun _ hevent ↦ absurd rfl hevent⟩
  | detach =>
    obtain ⟨reader, hdetach⟩ := rtSemDetach_eq state
    have hnext : next = { state with life := .detached, reader } :=
      (Except.ok.inj hrun).symm.trans hdetach
    subst hnext
    exact ⟨List.prefix_rfl, fun _ _ hevent ↦ absurd rfl hevent⟩
  | destroy =>
    cases hrun
    exact ⟨List.prefix_rfl, fun _ _ _ hevent ↦ absurd rfl hevent⟩

/-- The terminal exists before every step after which it exists. -/
theorem intact_before {event : Event} (henabled : Enabled state event)
    (hrun : serve state event = .ok next) (hnext : Intact next) :
    Intact state ∧ event ≠ .detach ∧ event ≠ .destroy := by
  have honward := serve_onward henabled hrun
  cases event with
  | switch => exact ⟨by simp [Intact, henabled.2], nofun, nofun⟩
  | unregister => exact ⟨by simp [Intact, show state.life = .switched from henabled], nofun, nofun⟩
  | detach =>
    obtain ⟨reader, hdetach⟩ := rtSemDetach_eq state
    have hlife : next.life = .detached := by
      rw [← Except.ok.inj hrun, hdetach]
    exact absurd hlife hnext.1
  | destroy =>
    have hlife : next.life = .freed := by
      cases hrun
      rfl
    exact absurd hlife hnext.2
  | _ =>
    have hlife := honward.life nofun nofun nofun nofun
    exact ⟨by rwa [Intact, ← hlife], nofun, nofun⟩

/-! ## Whole runs -/

theorem Run.coupled {pool : ℤ → UInt8} {events : List Event}
    (hrun : terminal.Run (lvglTerminal pool) events state) (hintact : Intact state) :
    ∃ queue, Coupled state queue := by
  have hkept : Intact state → ∃ queue, Coupled state queue := by
    apply hrun.invariant _ fun _ ↦ ⟨[], start_coupled pool⟩
    intro state event next hstate henabled hstep hnext
    obtain ⟨hintact, hevent⟩ := intact_before henabled hstep hnext
    obtain ⟨queue, hcoupled⟩ := hstate hintact
    obtain ⟨other, queue', hrun, hother⟩ := serve_coupled hcoupled hintact henabled hevent
    obtain rfl : other = next := Except.ok.inj (hrun.symm.trans hstep)
    exact ⟨queue', hother⟩
  exact hkept hintact

theorem Run.accepted {first last : State} {events : List Event}
    (hrun : terminal.Run first events last) : accepted first <+: accepted last := by
  induction hrun with
  | nil state => exact List.prefix_rfl
  | cons henabled hstep _ ih => exact (serve_onward henabled hstep).accepted.trans ih

/-- A byte that is stored but not counted is still the last one in the buffer. -/
theorem Coupled.delivered (h : Coupled state queue) :
    state.output <+: returned state ++ state.sender.returning := by
  have hhistory := h.history
  rcases hsender : state.sender with _ | c | c
  case idle =>
    rw [hsender] at hhistory
    exact ⟨queue, hhistory.symm⟩
  case released =>
    rw [hsender] at hhistory
    exact ⟨queue, hhistory.symm⟩
  case stored =>
    rw [hsender] at hhistory
    have hcount := h.count
    rw [hsender] at hcount
    have hqueue : queue ≠ [] := by
      intro hempty
      simp [hempty, Sender.uncounted] at hcount
    refine ⟨queue.dropLast, ?_⟩
    have hdrop := congrArg List.dropLast hhistory
    simp only [Sender.pending, List.dropLast_concat] at hdrop
    rw [List.dropLast_append_of_ne_nil hqueue] at hdrop
    simp [Sender.returning, hdrop]

/-- A `send` in progress returns 0, whatever the shell does meanwhile. -/
theorem send_finishes (state : State) :
    ∃ more last, terminal.Run state more last ∧ last.sender = .idle ∧
      returned last = returned state ++ state.sender.pending := by
  rcases hsender : state.sender with _ | c | c
  · exact ⟨[], state, .nil state, hsender, by simp [Sender.pending]⟩
  · have hreleased := rxCountRelease_sender state c
    refine ⟨[.release, .finishSend], returnSend (rxCountRelease state c) c,
      .cons ⟨c, hsender⟩ (by simp only [terminal, serve, hsender])
        (.cons ⟨c, hreleased⟩ (by simp only [terminal, serve, hreleased]) (.nil _)), rfl, ?_⟩
    simp [returned, Device.returnSend, Sender.pending]
  · refine ⟨[.finishSend], returnSend state c,
      .cons ⟨c, hsender⟩ (by simp only [terminal, serve, hsender]) (.nil _), rfl, ?_⟩
    simp [returned, Device.returnSend, Sender.pending]

/-- **Exactly once and in order.** As long as the terminal exists, what readers have got is a
prefix of the bytes for which `send` has returned 0, followed by the byte of a `send` that has only
to return; a `send` that has stored its byte returns 0, whatever happens meanwhile; `getchar` finds a
byte; and the semaphore and the readers that hold it claim no byte that is not in the buffer. -/
theorem keyboard_bytes {pool : ℤ → UInt8} {events : List Event} {state : State}
    (hrun : terminal.Run (lvglTerminal pool) events state) (hintact : Intact state) :
    state.output <+: returned state ++ state.sender.returning ∧
      (∃ more last, terminal.Run state more last ∧ last.sender = .idle ∧
        returned last = returned state ++ state.sender.pending) ∧
      (∀ more last, terminal.Run state more last → last.sender = .idle →
        returned state ++ state.sender.pending <+: returned last) ∧
      (∀ call, state.reader = .taken call → rtRingbufferDataLen state.rxBuff ≠ 0) ∧
      (state.rxCount + state.reader.between : ℕ) ≤ rtRingbufferDataLen state.rxBuff := by
  obtain ⟨queue, hcoupled⟩ := Run.coupled hrun hintact
  have hcount := hcoupled.count
  refine ⟨Coupled.delivered hcoupled, send_finishes state, fun more last hmore hidle ↦ ?_,
    fun call hreader ↦ ?_, ?_⟩
  · have hlast : accepted last = returned last := by
      simp [accepted, hidle, Sender.pending]
    exact hlast ▸ Run.accepted hmore
  · rw [hreader] at hcount
    rw [hcoupled.represents.dataLen_eq]
    simp only [Reader.between] at hcount
    omega
  · rw [hcoupled.represents.dataLen_eq]
    omega

/-- The shell reads a byte, while the `send` of a second one has stored it. -/
theorem keyboard_bytes_two : ∃ events state,
    terminal.Run (lvglTerminal fun _ ↦ 0) events state ∧ state.output = [65] ∧
      state.sender = .stored 66 ∧ state.output <+: returned state ++ state.sender.returning := by
  have hrun : ∃ state, terminal.Run (lvglTerminal fun _ ↦ 0)
      [.putchar 65, .release, .fetch 2, .enter, .finishSend, .wait, .putchar 66, .getchar] state ∧
        state.output = [65] ∧ state.sender = .stored 66 ∧ Intact state :=
    ⟨_, .cons ⟨rfl, rfl⟩ rfl <| .cons ⟨65, rfl⟩ rfl <| .cons ⟨rfl, rfl⟩ rfl <|
      .cons ⟨2, rfl⟩ rfl <| .cons ⟨65, rfl⟩ rfl <| .cons ⟨⟨2, 0, 0⟩, rfl, by decide⟩ rfl <|
      .cons ⟨rfl, rfl⟩ rfl <| .cons ⟨⟨2, 0, 0⟩, rfl⟩ rfl <| .nil _, rfl, rfl, nofun, nofun⟩
  obtain ⟨state, hrun, houtput, hsender, hintact⟩ := hrun
  exact ⟨_, state, hrun, houtput, hsender, (keyboard_bytes hrun hintact).1⟩

/-- The shell may be faster than the return of `send`. -/
theorem read_before_return : ∃ events state,
    terminal.Run (lvglTerminal fun _ ↦ 0) events state ∧ Intact state ∧
      ¬ state.output <+: returned state := by
  have hrun : ∃ state, terminal.Run (lvglTerminal fun _ ↦ 0)
      [.putchar 65, .release, .fetch 1, .enter, .wait, .getchar] state ∧
        state.output = [65] ∧ returned state = [] ∧ Intact state :=
    ⟨_, .cons ⟨rfl, rfl⟩ rfl <| .cons ⟨65, rfl⟩ rfl <| .cons ⟨rfl, rfl⟩ rfl <|
      .cons ⟨1, rfl⟩ rfl <| .cons ⟨⟨1, 0, 0⟩, rfl, by decide⟩ rfl <|
      .cons ⟨⟨1, 0, 0⟩, rfl⟩ rfl <| .nil _, rfl, rfl, nofun, nofun⟩
  obtain ⟨state, hrun, houtput, hreturned, hintact⟩ := hrun
  refine ⟨_, state, hrun, hintact, fun hprefix ↦ ?_⟩
  rw [houtput, hreturned] at hprefix
  exact absurd hprefix.length_le (by decide)

end K210Firmware.Terminal.Delivery
