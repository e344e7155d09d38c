import K210Firmware.Library.Transition
import K210Firmware.Touch.Reading

/-!
# Setting up, reading and tearing down

`ts_ns2009_remove` releases the filter and the event record, frees the driver data, and then
stores a null pointer into it once more; `touchscreen_deinit` leaves `ts_ns2009_pdata` as it is.
Every tear-down of a driver therefore writes to a freed block. `safe_iff` says that a sequence of
calls is otherwise in order.
-/

namespace K210Firmware.Touch.Teardown

open Memory Ns2009 Blocks Setup Transition
open Touch.Filter (TsFilter Point)
open Input (calibration)

def removeFilter (pdata : Address) : Prog Object Unit := do
  let block ← loadAs Object.pdata? pdata
  if block.filter ≠ 0 then
    tsfilterFree block.filter
    modifyAs Object.pdata? .pdata pdata fun block ↦ { block with filter := 0 }
  else return ()

/-- It is `filter` that is set to null here, too. -/
def removeEvent (pdata : Address) : Prog Object Unit := do
  let block ← loadAs Object.pdata? pdata
  if block.event ≠ 0 then
    free block.event
    modifyAs Object.pdata? .pdata pdata fun block ↦ { block with filter := 0 }
  else return ()

def removePdata (pdata : Address) : Prog Object Unit :=
  if pdata ≠ 0 then do
    free pdata
    modifyAs Object.pdata? .pdata pdata fun block ↦ { block with filter := 0 }
  else return ()

def tsNs2009Remove (pdata : Address) : Prog Object Unit := do
  removeFilter pdata
  removeEvent pdata
  removePdata pdata

def touchscreenDeinit (screen : Screen) : Except Fault Screen := do
  let (_, arena) ← tsNs2009Remove screen.pdata screen.arena
  return { screen with arena, isInit := false }

/-- A call of `touchscreen.c`, with what the sensor and the allocator answer. -/
inductive Call
  | init (answers : ProbeAnswers)
  | read (readings : Readings) (type : ℤ)
  | deinit

def serve (cal : Fin 7 → ℤ) (screen : Screen) : Call → Except Fault Screen
  | .init answers => do
    let (_, after) ← touchscreenInit cal answers screen
    return after
  | .read readings type => do
    let (_, arena) ← Reading.touchscreenRead screen.pdata readings type screen.arena
    return { screen with arena }
  | .deinit => touchscreenDeinit screen

/-- All allocations and the probing read succeed, and the screen is read only when
`touchscreen_is_init` says so. -/
def Enabled (screen : Screen) : Call → Prop
  | .init answers => Reached answers ∧ Granted answers
  | .read _ _ => screen.isInit = true
  | .deinit => True

def calling (cal : Fin 7 → ℤ) : System Screen Call Fault where
  enabled := Enabled
  step := serve cal

/-- Before the first call. -/
def startUp : Screen := ⟨Arena.start, 0, false⟩

/-- The call accesses no freed block, and a tear-down leaves no block allocated. -/
def Safe (_ : Screen) (call : Call) (outcome : Except Fault Screen) : Prop :=
  outcome ≠ .error .deadObject ∧
    (call = .deinit → ∀ after, outcome = .ok after →
      ∀ address, after.arena.heap.cell address = none)

/-- A tear-down only while there is no driver. -/
def NoDriver (screen : Screen) (call : Call) : Prop := call = .deinit → screen.pdata = 0

/-! ## A tear-down writes to the freed driver data -/

variable {arena : Arena Object} {ptr : ℕ}

theorem tsfilterFree_at {filter : TsFilter} (h : FilterAt arena.heap ptr filter) :
    Returns (tsfilterFree ptr) arena fun _ after ↦ SameOutside ptr (ptr + 11) arena after := by
  unfold tsfilterFree
  rw [if_pos (Arena.ne_zero_of_cell h.block)]
  refine returns_step (loadAs_eq_ok _ h.block rfl) ?_
  have hmx : medianKind.Slot arena.heap (ptr + 1) (ptr + 1) (ptr + 4) :=
    .inr ⟨le_rfl, le_rfl, _, h.mx⟩
  have hmy : medianKind.Slot arena.heap (ptr + 4) (ptr + 4) (ptr + 7) :=
    .inr ⟨le_rfl, le_rfl, _, h.my⟩
  have hnx : meanKind.Slot arena.heap (ptr + 7) (ptr + 7) (ptr + 9) :=
    .inr ⟨le_rfl, le_rfl, _, h.nx⟩
  have hny : meanKind.Slot arena.heap (ptr + 9) (ptr + 9) (ptr + 11) :=
    .inr ⟨le_rfl, le_rfl, _, h.ny⟩
  apply freeComponents (by omega) (by omega) (by omega) (by omega) hmx hmy hnx hny
  intro freed hfreed
  have hblock := (hfreed.cell ptr (by omega)).trans h.block
  refine ⟨(), _, free_eq_ok hblock, hfreed.next, fun address haddress ↦ ?_⟩
  simp [show address ≠ ptr by omega, hfreed.cell address (by omega)]

theorem remove_faults {driver : Pdata} (h : DriverAt arena.heap ptr driver) :
    Faults (tsNs2009Remove ptr) arena .deadObject := by
  have hptr := Arena.ne_zero_of_cell h.block
  have hfilter : Returns (removeFilter ptr) arena fun _ after ↦
      (∃ block, after.heap.cell ptr = some (.pdata block) ∧ block.event = ptr + 12) ∧
        after.heap.cell (ptr + 12) = some (.event driver.event) := by
    unfold removeFilter
    refine returns_step (loadAs_eq_ok _ h.block rfl) ?_
    rw [if_pos (Nat.succ_ne_zero ptr)]
    apply (tsfilterFree_at h.filter).bind
    intro _ freed hfreed
    have hcell := (hfreed.cell ptr (by omega)).trans h.block
    refine ⟨(), _, modifyAs_eq_ok _ _ hcell rfl, ⟨_, by simp [hcell]; rfl, rfl⟩, ?_⟩
    simp [hfreed.cell (ptr + 12) (by omega), h.event]
  have hevent {after : Arena Object} {block : PdataBlock}
      (hblock : after.heap.cell ptr = some (.pdata block)) (hlink : block.event = ptr + 12)
      (hevent : after.heap.cell (ptr + 12) = some (.event driver.event)) :
      Returns (removeEvent ptr) after fun _ last ↦
        ∃ block, last.heap.cell ptr = some (.pdata block) := by
    unfold removeEvent
    refine returns_step (loadAs_eq_ok _ hblock rfl) ?_
    rw [hlink, if_pos (Nat.succ_ne_zero _)]
    refine returns_step (free_eq_ok hevent) ?_
    exact ⟨(), _, modifyAs_eq_ok block _ (by simp [hblock]) rfl, _, by simp [hblock]; rfl⟩
  apply hfilter.bind_faults
  rintro _ first ⟨⟨block, hblock, hlink⟩, hcell⟩
  apply (hevent hblock hlink hcell).bind_faults
  rintro _ second ⟨block, hblock⟩
  unfold removePdata
  rw [if_pos hptr]
  apply faults_step (free_eq_ok hblock)
  exact Faults.modifyAs _ _ (faults_loadAs_dead hptr (by simp [hblock]))

/-! ## Sequences of calls -/

variable {cal : Fin 7 → ℤ}

/-- There is no driver, or the blocks of a driver are there. -/
def Kept (cal : Fin 7 → ℤ) (screen : Screen) : Prop :=
  (screen.pdata = 0 ∧ screen.isInit = false) ∨
    ∃ driver, DriverAt screen.arena.heap screen.pdata driver ∧ Ready cal driver

theorem startUp_kept (cal : Fin 7 → ℤ) : Kept cal startUp := .inl ⟨rfl, rfl⟩

theorem init_kept (cal : Fin 7 → ℤ) {answers : ProbeAnswers}
    (henabled : Reached answers ∧ Granted answers) (screen : Screen) :
    ∃ after, serve cal screen (.init answers) = .ok after ∧ Kept cal after := by
  obtain ⟨arrays, arena, hrun, _, hat⟩ := init_granted cal henabled.1 henabled.2 screen
  refine ⟨⟨arena, screen.arena.next, true⟩, ?_, .inr ⟨_, hat, tsNs2009Probe_ready cal arrays⟩⟩
  simp only [serve, hrun, ok_bind]
  rfl

theorem read_kept {screen : Screen} (h : Kept cal screen) (hinit : screen.isInit = true)
    (readings : Readings) (type : ℤ) :
    ∃ after, serve cal screen (.read readings type) = .ok after ∧ Kept cal after := by
  rcases h with ⟨_, hfalse⟩ | ⟨driver, hat, hready⟩
  · rw [hinit] at hfalse
    cases hfalse
  obtain ⟨polled, log, hpoll, hpolled, _⟩ := poll_cases hready readings
  have hread : Input.touchscreenRead driver readings type =
      .ok (polled, Input.readEvent polled.event type) := by
    simp only [Input.touchscreenRead, hpoll, ok_bind]
    rfl
  obtain ⟨_, arena, hrun, _, hafter⟩ := Reading.touchscreenRead_at hat hread
  refine ⟨{ screen with arena }, ?_, .inr ⟨polled, hafter, hpolled⟩⟩
  simp only [serve, hrun, ok_bind]
  rfl

/-- A tear-down never returns. -/
theorem deinit_faults {screen : Screen} (h : Kept cal screen) :
    serve cal screen .deinit =
      .error (if screen.pdata = 0 then .nullPointer else .deadObject) := by
  simp only [serve, touchscreenDeinit]
  rcases h with ⟨hnull, _⟩ | ⟨driver, hat, _⟩
  · rw [hnull, if_pos rfl]
    rfl
  · rw [show tsNs2009Remove screen.pdata screen.arena = .error .deadObject from remove_faults hat,
      if_neg (Arena.ne_zero_of_cell hat.block)]
    rfl

theorem safe_of_ok {screen after : Screen} {call : Call} (hcall : call ≠ .deinit) :
    Safe screen call (.ok after) :=
  ⟨nofun, fun h ↦ absurd h hcall⟩

theorem safe_serve_iff {screen : Screen} {call : Call} (h : Kept cal screen)
    (henabled : Enabled screen call) :
    Safe screen call (serve cal screen call) ↔ NoDriver screen call := by
  cases call with
  | init answers =>
    obtain ⟨after, hrun, _⟩ := init_kept cal henabled screen
    rw [hrun]
    exact iff_of_true (safe_of_ok nofun) nofun
  | read readings type =>
    obtain ⟨after, hrun, _⟩ := read_kept h henabled readings type
    rw [hrun]
    exact iff_of_true (safe_of_ok nofun) nofun
  | deinit =>
    rw [deinit_faults h]
    by_cases hnull : screen.pdata = 0
    · rw [if_pos hnull]
      exact iff_of_true ⟨nofun, fun _ _ h ↦ nomatch h⟩ fun _ ↦ hnull
    · rw [if_neg hnull]
      exact iff_of_false (fun hsafe ↦ hsafe.1 rfl) fun hdriver ↦ hnull (hdriver rfl)

theorem serve_kept {screen next : Screen} {call : Call} (h : Kept cal screen)
    (henabled : Enabled screen call) (hstep : serve cal screen call = .ok next) :
    Kept cal next := by
  cases call with
  | init answers =>
    obtain ⟨after, hrun, hafter⟩ := init_kept cal henabled screen
    rw [hrun] at hstep
    cases hstep
    exact hafter
  | read readings type =>
    obtain ⟨after, hrun, hafter⟩ := read_kept h henabled readings type
    rw [hrun] at hstep
    cases hstep
    exact hafter
  | deinit =>
    rw [deinit_faults h] at hstep
    cases hstep

/-- **Set-up and tear-down.** A sequence of calls accesses no freed block, and leaves none
allocated after a tear-down, exactly when no driver that was set up is ever torn down. -/
theorem safe_iff (cal : Fin 7 → ℤ) (calls : List Call) :
    (calling cal).Always Safe startUp calls ↔ (calling cal).Guarded NoDriver startUp calls := by
  apply System.always_iff_guarded _ _ (startUp_kept cal)
  · exact fun screen call hkept henabled ↦ safe_serve_iff hkept henabled
  · exact fun screen call next hkept henabled _ hstep ↦ serve_kept hkept henabled hstep

/-- One set-up and one tear-down. -/
theorem clean_cycle_writes_freed_block :
    ¬ (calling calibration).Always Safe startUp [.init allGranted, .deinit] := by
  intro hsafe
  have hgranted : Reached allGranted ∧ Granted allGranted :=
    ⟨⟨rfl, rfl⟩, rfl, ⟨⟨rfl, rfl, rfl⟩, ⟨rfl, rfl, rfl⟩, ⟨rfl, rfl⟩, ⟨rfl, rfl⟩⟩, rfl⟩
  obtain ⟨arrays, arena, hrun, _, hat⟩ :=
    init_granted calibration hgranted.1 hgranted.2 startUp
  have hstep : serve calibration startUp (.init allGranted) = .ok ⟨arena, 1, true⟩ := by
    simp only [serve, hrun, ok_bind]
    rfl
  have hkept : Kept calibration ⟨arena, 1, true⟩ :=
    .inr ⟨_, hat, tsNs2009Probe_ready calibration arrays⟩
  obtain ⟨hdeinit, _⟩ := (hsafe hgranted).2 _ hstep trivial
  have hdriver := (safe_serve_iff hkept (show Enabled _ .deinit from trivial)).mp hdeinit
  exact Nat.one_ne_zero (hdriver rfl)

end K210Firmware.Touch.Teardown
