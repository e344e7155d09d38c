import K210Firmware.Camera.Ov2640

/-!
# When the camera buffers tear

Outside the four steps of `camera_get_buff` the display address never points at the buffer the
thread holds, and while the finish flag is set no capture runs at all. The flag is cleared before
the selector is toggled, though: a frame that is captured entirely between the two, or between the
clear and the return, overtakes the buffer about to be returned. `untorn_iff` shows that this is
the only failure: a history is free of torn and stale buffers exactly when the finish flag is
still clear at every return.
-/

namespace K210Firmware.Camera.Tearing

open Ov2640 Transition

/-- No capture writes to a buffer handed out, and it holds the frame that was the last complete
one when it was handed out. -/
def Untorn (state : State) : Prop :=
  ∀ handed, state.handed = some handed → state.capture ≠ some handed.buffer ∧
    state.content handed.buffer = .complete handed.latest

/-- No frame has finished since `camera_get_buff` cleared the flag. -/
def NotOvertaken (state : State) (event : Event) : Prop :=
  event = .pick → state.globals.dvpFinishFlag = 0

/-! ## The invariant -/

/-- What holds wherever the thread is: a capture runs only under a clear flag, and it writes to the
display address. -/
structure Capturing (state : State) : Prop where
  mux : state.globals.ramMux = 0 ∨ state.globals.ramMux = 1
  flag : state.globals.dvpFinishFlag = 0 ∨ state.globals.dvpFinishFlag = 1
  served : state.dvp.frameFinish = false ∧ state.dvp.convert = false
  running : ∀ buffer, state.capture = some buffer → state.globals.dvpFinishFlag = 0 ∧
    buffer = state.dvp.displayAddr ∧ state.started = state.latest + 1
  resting : state.capture = none → state.started = state.latest

/-- The thread is not between the clear and the return: the selected buffer is the one handed out
last, and a set flag means that the other one is complete. -/
structure Between (state : State) : Prop where
  empty : state.globals.dvpFinishFlag = 0 →
    state.dvp.displayAddr = (selected state.globals.ramMux).other
  full : state.globals.dvpFinishFlag = 1 →
    state.dvp.displayAddr = selected state.globals.ramMux ∧
      state.content (selected state.globals.ramMux).other = .complete state.latest
  handed : ∀ handed, state.handed = some handed →
    handed.buffer = selected state.globals.ramMux ∧
      state.content handed.buffer = .complete handed.latest
  inside : state.step ≠ .outside → state.handed = none
  seen : state.step = .clearing → state.globals.dvpFinishFlag = 1

/-- The thread is about to return the buffer `ready`: it holds the last complete frame, unless a
later frame has set the flag again. -/
structure Taking (state : State) (ready : Gram) : Prop where
  handed : state.handed = none
  fresh : state.globals.dvpFinishFlag = 0 →
    state.dvp.displayAddr = ready.other ∧ state.content ready = .complete state.latest
  overtaken : state.globals.dvpFinishFlag = 1 →
    ∃ frame < state.latest, state.content ready = .complete frame

/-- The invariant of each step of the thread. -/
def AtStep (state : State) : Prop :=
  match state.step with
  | .outside | .waiting | .clearing => Between state
  | .toggling => Taking state (selected state.globals.ramMux).other
  | .picking => Taking state (selected state.globals.ramMux)

structure Buffered (state : State) : Prop where
  capturing : Capturing state
  atStep : AtStep state

theorem hwOv2640Init_buffered : Buffered hwOv2640Init where
  capturing := ⟨.inl rfl, .inl rfl, ⟨rfl, rfl⟩, nofun, fun _ ↦ rfl⟩
  atStep := ⟨fun _ ↦ rfl, nofun, nofun, fun _ ↦ rfl, nofun⟩

/-- The buffer handed out is not the one a capture may write to. -/
theorem Between.untorn {state : State} (h : Between state) (hcapturing : Capturing state) :
    Untorn state := by
  intro handed hhanded
  obtain ⟨hbuffer, hcontent⟩ := h.handed handed hhanded
  refine ⟨fun hcapture ↦ ?_, hcontent⟩
  obtain ⟨hflag, haddr, _⟩ := hcapturing.running _ hcapture
  rw [h.empty hflag, hbuffer] at haddr
  exact Gram.ne_other _ haddr

theorem Taking.untorn {state : State} {ready : Gram} (h : Taking state ready) : Untorn state := by
  intro handed hhanded
  rw [h.handed] at hhanded
  cases hhanded

theorem Buffered.untorn {state : State} (h : Buffered state) : Untorn state := by
  have hstep := h.atStep
  rcases hwhere : state.step <;> simp only [AtStep, hwhere] at hstep
  · exact hstep.untorn h.capturing
  · exact hstep.untorn h.capturing
  · exact hstep.untorn h.capturing
  · exact hstep.untorn
  · exact hstep.untorn

/-! ## The interrupts -/

variable {state : State}

theorem frameStart_of_empty (h : Capturing state) (hflag : state.globals.dvpFinishFlag = 0) :
    frameStart state = { state with
      dvp := { state.dvp with frameStart := false, convert := false }
      capture := some state.dvp.displayAddr
      content := Function.update state.content state.dvp.displayAddr (.partly (state.started + 1))
      started := state.started + 1 } := by
  simp [frameStart, onIrqDvp, h.served.1, hflag]

theorem frameStart_of_full (h : Capturing state) (hflag : state.globals.dvpFinishFlag = 1) :
    frameStart state = { state with dvp := { state.dvp with frameStart := false } } := by
  simp [frameStart, onIrqDvp, h.served, hflag]

theorem frameFinish_eq (buffer : Gram) :
    frameFinish state buffer = { state with
      globals := { state.globals with dvpFinishFlag := 1 }
      dvp := { state.dvp with
        displayAddr := selected state.globals.ramMux
        frameStart := false
        frameFinish := false }
      capture := none
      content := Function.update state.content buffer (.complete state.started)
      latest := state.started } := by
  simp [frameFinish, onIrqDvp]

theorem Capturing.frameStart (h : Capturing state) (hnone : state.capture = none) :
    Capturing (frameStart state) := by
  rcases h.flag with hflag | hflag
  · rw [frameStart_of_empty h hflag]
    refine ⟨h.mux, h.flag, ⟨h.served.1, rfl⟩, fun buffer hbuffer ↦ ?_, nofun⟩
    exact ⟨hflag, (Option.some.inj hbuffer).symm, by rw [h.resting hnone]⟩
  · rw [frameStart_of_full h hflag]
    exact ⟨h.mux, h.flag, h.served, h.running, h.resting⟩

theorem Capturing.frameFinish (h : Capturing state) (buffer : Gram) :
    Capturing (frameFinish state buffer) := by
  rw [frameFinish_eq]
  exact ⟨h.mux, .inr rfl, ⟨rfl, h.served.2⟩, nofun, fun _ ↦ rfl⟩

/-- A capture that starts writes to the buffer that is not handed out. -/
theorem Between.frameStart (h : Between state) (hcapturing : Capturing state) :
    Between (frameStart state) := by
  rcases hcapturing.flag with hflag | hflag
  · rw [frameStart_of_empty hcapturing hflag, h.empty hflag]
    refine ⟨h.empty, fun hfull ↦ absurd (hflag.symm.trans hfull) (by decide),
      fun handed hhanded ↦ ?_, h.inside, h.seen⟩
    obtain ⟨hbuffer, hcontent⟩ := h.handed handed hhanded
    refine ⟨hbuffer, ?_⟩
    simpa [hbuffer] using hbuffer ▸ hcontent
  · rw [frameStart_of_full hcapturing hflag]
    exact ⟨h.empty, h.full, h.handed, h.inside, h.seen⟩

/-- A capture that ends has filled the buffer that is not handed out. -/
theorem Between.frameFinish (h : Between state) (hcapturing : Capturing state) {buffer : Gram}
    (hcapture : state.capture = some buffer) : Between (frameFinish state buffer) := by
  obtain ⟨hflag, haddr, _⟩ := hcapturing.running buffer hcapture
  rw [h.empty hflag] at haddr
  subst haddr
  rw [frameFinish_eq]
  refine ⟨nofun, fun _ ↦ ⟨rfl, by simp⟩, fun handed hhanded ↦ ?_, h.inside,
    fun _ ↦ rfl⟩
  obtain ⟨hbuffer, hcontent⟩ := h.handed handed hhanded
  refine ⟨hbuffer, ?_⟩
  simpa [hbuffer] using hbuffer ▸ hcontent

/-- A capture that starts leaves the buffer about to be returned alone. -/
theorem Taking.frameStart {ready : Gram} (h : Taking state ready) (hcapturing : Capturing state) :
    Taking (frameStart state) ready := by
  rcases hcapturing.flag with hflag | hflag
  · obtain ⟨haddr, hcontent⟩ := h.fresh hflag
    rw [frameStart_of_empty hcapturing hflag, haddr]
    exact ⟨h.handed, fun _ ↦ ⟨haddr, by simpa using hcontent⟩,
      fun hfull ↦ absurd (hflag.symm.trans hfull) (by decide)⟩
  · rw [frameStart_of_full hcapturing hflag]
    exact ⟨h.handed, h.fresh, h.overtaken⟩

/-- A capture that ends overtakes the buffer about to be returned. -/
theorem Taking.frameFinish {ready : Gram} (h : Taking state ready) (hcapturing : Capturing state)
    {buffer : Gram} (hcapture : state.capture = some buffer) :
    Taking (frameFinish state buffer) ready := by
  obtain ⟨hflag, hbuffer, hstarted⟩ := hcapturing.running buffer hcapture
  obtain ⟨haddr, hcontent⟩ := h.fresh hflag
  rw [haddr] at hbuffer
  subst hbuffer
  rw [frameFinish_eq]
  refine ⟨h.handed, nofun, fun _ ↦ ⟨state.latest, ?_, ?_⟩⟩
  · change state.latest < state.started
    omega
  · simpa using hcontent

theorem Buffered.frameStart (h : Buffered state) (hnone : state.capture = none) :
    Buffered (frameStart state) := by
  refine ⟨h.capturing.frameStart hnone, ?_⟩
  have hstep := h.atStep
  have hsame : (Ov2640.frameStart state).step = state.step ∧
      (Ov2640.frameStart state).globals.ramMux = state.globals.ramMux := by
    rcases h.capturing.flag with hflag | hflag
    · rw [frameStart_of_empty h.capturing hflag]
      exact ⟨rfl, rfl⟩
    · rw [frameStart_of_full h.capturing hflag]
      exact ⟨rfl, rfl⟩
  rcases hwhere : state.step <;> simp only [AtStep, hsame, hwhere] at hstep ⊢
  · exact hstep.frameStart h.capturing
  · exact hstep.frameStart h.capturing
  · exact hstep.frameStart h.capturing
  · exact hstep.frameStart h.capturing
  · exact hstep.frameStart h.capturing

theorem Buffered.frameFinish (h : Buffered state) {buffer : Gram}
    (hcapture : state.capture = some buffer) : Buffered (frameFinish state buffer) := by
  refine ⟨h.capturing.frameFinish buffer, ?_⟩
  have hstep := h.atStep
  have hsame : (Ov2640.frameFinish state buffer).step = state.step ∧
      (Ov2640.frameFinish state buffer).globals.ramMux = state.globals.ramMux := by
    rw [frameFinish_eq]
    exact ⟨rfl, rfl⟩
  rcases hwhere : state.step <;> simp only [AtStep, hsame, hwhere] at hstep ⊢
  · exact hstep.frameFinish h.capturing hcapture
  · exact hstep.frameFinish h.capturing hcapture
  · exact hstep.frameFinish h.capturing hcapture
  · exact hstep.frameFinish h.capturing hcapture
  · exact hstep.frameFinish h.capturing hcapture

/-! ## The thread -/

theorem Buffered.call (h : Buffered state) (hstep : state.step = .outside) :
    Buffered (threadStep state .call) := by
  have hbetween := h.atStep
  simp only [AtStep, hstep] at hbetween
  obtain ⟨hmux, hflag, hserved, hrunning, hresting⟩ := h.capturing
  exact ⟨⟨hmux, hflag, hserved, hrunning, hresting⟩,
    ⟨hbetween.empty, hbetween.full, nofun, fun _ ↦ rfl, nofun⟩⟩

theorem Buffered.see (h : Buffered state) (hstep : state.step = .waiting) :
    Buffered (threadStep state .see) := by
  have hbetween := h.atStep
  simp only [AtStep, hstep] at hbetween
  obtain ⟨hmux, hflag, hserved, hrunning, hresting⟩ := h.capturing
  by_cases hempty : state.globals.dvpFinishFlag = 0
  · rw [threadStep, if_pos hempty]
    exact h
  · rw [threadStep, if_neg hempty]
    exact ⟨⟨hmux, hflag, hserved, hrunning, hresting⟩,
      ⟨hbetween.empty, hbetween.full, hbetween.handed,
        fun _ ↦ hbetween.inside (by rw [hstep]; decide), fun _ ↦ hflag.resolve_left hempty⟩⟩

theorem Buffered.clear (h : Buffered state) (hstep : state.step = .clearing) :
    Buffered (threadStep state .clear) := by
  have hbetween := h.atStep
  simp only [AtStep, hstep] at hbetween
  obtain ⟨hmux, _, hserved, hrunning, hresting⟩ := h.capturing
  obtain ⟨haddr, hcontent⟩ := hbetween.full (hbetween.seen hstep)
  refine ⟨⟨hmux, .inl rfl, hserved, fun buffer hcapture ↦ ?_, hresting⟩,
    ⟨hbetween.inside (by rw [hstep]; decide), fun _ ↦ ⟨?_, hcontent⟩, nofun⟩⟩
  · obtain ⟨_, hrest⟩ := hrunning buffer hcapture
    exact ⟨rfl, hrest⟩
  · rw [Gram.other_other]
    exact haddr

theorem Buffered.toggle (h : Buffered state) (hstep : state.step = .toggling) :
    Buffered (threadStep state .toggle) := by
  have htaking := h.atStep
  simp only [AtStep, hstep] at htaking
  obtain ⟨hmux, hflag, hserved, hrunning, hresting⟩ := h.capturing
  refine ⟨⟨toggle_bool hmux, hflag, hserved, hrunning, hresting⟩, ?_⟩
  simp only [AtStep, threadStep, selected_toggle hmux]
  exact ⟨htaking.handed, htaking.fresh, htaking.overtaken⟩

/-- **The return.** The buffer is sound exactly when the flag is still clear. -/
theorem untorn_pick_iff (h : Buffered state) (hstep : state.step = .picking) :
    Untorn (threadStep state .pick) ↔ state.globals.dvpFinishFlag = 0 := by
  have htaking := h.atStep
  simp only [AtStep, hstep] at htaking
  constructor
  · intro huntorn
    by_contra hflag
    obtain ⟨frame, hlt, hcontent⟩ := htaking.overtaken (h.capturing.flag.resolve_left hflag)
    obtain ⟨_, hlatest⟩ := huntorn _ rfl
    have hframe : Content.complete frame = .complete state.latest := hcontent.symm.trans hlatest
    rw [Content.complete.injEq] at hframe
    omega
  · rintro hflag _ ⟨⟩
    obtain ⟨haddr, hcontent⟩ := htaking.fresh hflag
    refine ⟨fun hcapture ↦ ?_, hcontent⟩
    obtain ⟨_, hbuffer, _⟩ := h.capturing.running _ hcapture
    rw [haddr] at hbuffer
    exact Gram.ne_other _ hbuffer

theorem Buffered.pick (h : Buffered state) (hstep : state.step = .picking)
    (hflag : state.globals.dvpFinishFlag = 0) : Buffered (threadStep state .pick) := by
  have htaking := h.atStep
  simp only [AtStep, hstep] at htaking
  obtain ⟨hmux, _, hserved, hrunning, hresting⟩ := h.capturing
  obtain ⟨haddr, hcontent⟩ := htaking.fresh hflag
  refine ⟨⟨hmux, .inl hflag, hserved, hrunning, hresting⟩, ⟨fun _ ↦ haddr, fun hfull ↦ ?_, ?_,
    fun houtside ↦ absurd rfl houtside, nofun⟩⟩
  · exact absurd (hflag.symm.trans hfull) (by decide)
  · rintro _ ⟨⟩
    exact ⟨rfl, hcontent⟩

/-! ## Histories -/

/-- Every step keeps the invariant, except a return under a set flag. -/
theorem serve_buffered (h : Buffered state) {event : Event} (henabled : enabled state event)
    (hguard : NotOvertaken state event) : Buffered (serve state event) := by
  cases event with
  | call => exact h.call henabled
  | see => exact h.see henabled
  | clear => exact h.clear henabled
  | toggle => exact h.toggle henabled
  | pick => exact h.pick henabled (hguard rfl)
  | frameStart => exact h.frameStart henabled
  | frameFinish =>
    obtain ⟨buffer, hcapture⟩ := Option.ne_none_iff_exists'.mp henabled
    simp only [serve, hcapture]
    exact h.frameFinish hcapture

/-- **One step.** No buffer is torn or stale after a step exactly when the step is not a return of
an overtaken buffer. -/
theorem untorn_serve_iff (h : Buffered state) {event : Event} (henabled : enabled state event) :
    Untorn (serve state event) ↔ NotOvertaken state event := by
  by_cases hpick : event = .pick
  · subst hpick
    exact (untorn_pick_iff h henabled).trans ⟨fun hflag _ ↦ hflag, fun hguard ↦ hguard rfl⟩
  · have hguard : NotOvertaken state event := fun heq ↦ absurd heq hpick
    exact ⟨fun _ ↦ hguard, fun _ ↦ (serve_buffered h henabled hguard).untorn⟩

/-- **Double buffering.** In every interleaving of the thread with the frame interrupts, no buffer
handed out is written to and each holds the last complete frame of its return, exactly when the
finish flag is clear at every return. -/
theorem untorn_iff (events : List Event) :
    camera.Always (fun _ _ outcome ↦ ∃ next, outcome = .ok next ∧ Untorn next) hwOv2640Init events ↔
      camera.Guarded NotOvertaken hwOv2640Init events := by
  refine System.always_iff_guarded (fun state event (hbuffered : Buffered state) henabled ↦ ?_)
    (fun state event next hbuffered henabled hguard hstep ↦ ?_) hwOv2640Init_buffered
  · rw [← untorn_serve_iff hbuffered henabled]
    exact ⟨fun ⟨_, hnext, huntorn⟩ ↦ Except.ok.inj hnext ▸ huntorn, fun huntorn ↦ ⟨_, rfl, huntorn⟩⟩
  · cases hstep
    exact serve_buffered hbuffered henabled hguard

/-! ## An overtaken buffer -/

/-- The thread is suspended between the clear and the toggle while a second frame is captured. -/
def overtaking : List Event :=
  [.frameStart, .frameFinish, .call, .see, .clear, .frameStart, .frameFinish, .toggle, .pick]

/-- The first frame is returned although the second is complete. -/
theorem overtaken_buffer_is_stale :
    ¬ camera.Always (fun _ _ outcome ↦ ∃ next, outcome = .ok next ∧ Untorn next) hwOv2640Init
      overtaking := by
  intro h
  have hreturn := System.always_iff_forall_run.mp h
    [.frameStart, .frameFinish, .call, .see, .clear, .frameStart, .frameFinish, .toggle] .pick [] _
    rfl (.cons rfl rfl (.cons nofun rfl (.cons rfl rfl (.cons rfl rfl (.cons rfl rfl
      (.cons rfl rfl (.cons nofun rfl (.cons rfl rfl (.nil _))))))))) rfl
  obtain ⟨_, ⟨⟩, huntorn⟩ := hreturn
  exact absurd (huntorn _ rfl).2 (by decide)

end K210Firmware.Camera.Tearing
