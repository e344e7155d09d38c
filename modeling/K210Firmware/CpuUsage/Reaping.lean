import K210Firmware.CpuUsage.Cleanup
import K210Firmware.CpuUsage.Period

/-!
# Reaping exited threads

The idle thread reaps an exited thread in two steps. With interrupts off it calls the cleanup
function, which frees the usage record; with interrupts on again it deletes the thread object, which
takes it from the object list. In between the list holds a thread with a dangling `user_data`, and
`timer_irq` and `get_cpu_usage` walk that list. Histories that keep walks out of this window, and
reaping away from a thread on which a walk stands, never touch a freed record, and every record is
freed once, by the cleanup of its thread.
-/

namespace K210Firmware.CpuUsage

open Memory ThreadUsage Transition

/-- A walk of `get_cpu_usage` over the object list. It arrives at a node, loads `user_data` from
it, and then reads the record. -/
inductive Reader
  | done
  | arrived (node : Tid)
  | holds (node : Tid) (data : Address)
  deriving DecidableEq, Repr

def Reader.node : Reader → Option Tid
  | done => none
  | arrived node => some node
  | holds node _ => some node

/-- The kernel, the thread on each core, `rt_thread_defunct`, the thread that the idle thread has
cleaned up but not yet deleted, and the walks. Beside them, the threads whose cleanup has run
and the number of records that it freed. -/
structure Reaping where
  kernel : Kernel
  running : Core → Tid
  defunct : List Tid
  deleting : Option Tid
  reader : ℕ → Reader
  reaped : List Tid
  frees : Tid → ℕ

namespace Reaping

/-- A thread is created, a core switches to another thread, the thread of a core exits, or a
thread is deleted; the idle thread cleans up or removes a thread; the timer interrupt fires; a walk
begins, loads, reads, or goes on to the next node. -/
inductive Event
  | create (tid : Tid)
  | switch (core : Core) (tick : UInt64) (toThread : Tid) (fromBlock toBlock : Allocation)
  | exit (core : Core) (tick : UInt64) (toThread : Tid) (fromBlock toBlock : Allocation)
  | delete (tid : Tid)
  | cleanUp
  | remove
  | timer (tick : UInt64)
  | first (reader : ℕ)
  | load (reader : ℕ)
  | read (reader : ℕ)
  | next (reader : ℕ)

def start (setup : Setup) : Reaping where
  kernel := (boot setup).kernel
  running := setup.running
  defunct := []
  deleting := none
  reader _ := .done
  reaped := []
  frees _ := 0

/-- The common part of `rt_thread_exit`, `rt_thread_delete` and `rt_thread_detach`. -/
def retire (isStatic : Tid → Bool) (state : Reaping) (tid : Tid) : Reaping :=
  if isStatic tid ∧ (state.kernel.thread tid).cleanup = .null then
    { state with kernel := detach state.kernel tid }
  else { state with defunct := tid :: state.defunct }

def dispatch (state : Reaping) (core : Core) (tick : UInt64) (toThread : Tid)
    (fromBlock toBlock : Allocation) : Except Fault Reaping := do
  let kernel ← scheduleHook state.kernel core tick (state.running core) toThread fromBlock toBlock
  return { state with kernel, running := Function.update state.running core toThread }

/-- The section of `rt_thread_idle_excute` with interrupts off. -/
def cleanUp (isStatic : Tid → Bool) (state : Reaping) : Except Fault Reaping :=
  match state.defunct with
  | [] => return state
  | tid :: defunct => do
    let (kernel, freed) ← cleanup state.kernel tid
    let state := { state with
      kernel
      defunct
      reaped := tid :: state.reaped
      frees := Function.update state.frees tid (state.frees tid + freed) }
    if isStatic tid then return { state with kernel := detach kernel tid }
    else return { state with deleting := some tid }

/-- `node->next`: a removed node points to itself. -/
def nextNode (objects : List Tid) (tid : Tid) : Option Tid :=
  if tid ∈ objects then objects[objects.idxOf tid + 1]? else some tid

/-- The node at which a walk arrives. -/
def arrive : Option Tid → Reader
  | none => .done
  | some tid => .arrived tid

def setReader (state : Reaping) (reader : ℕ) (value : Reader) : Reaping :=
  { state with reader := Function.update state.reader reader value }

def serve (setup : Setup) (isStatic : Tid → Bool) (state : Reaping) :
    Event → Except Fault Reaping
  | .create tid => return { state with kernel := createThread state.kernel tid }
  | .switch core tick toThread fromBlock toBlock =>
    dispatch state core tick toThread fromBlock toBlock
  | .exit core tick toThread fromBlock toBlock =>
    dispatch (retire isStatic state (state.running core)) core tick toThread fromBlock toBlock
  | .delete tid => return retire isStatic state tid
  | .cleanUp => cleanUp isStatic state
  | .remove =>
    match state.deleting with
    | none => return state
    | some tid => return { state with kernel := detach state.kernel tid, deleting := none }
  | .timer tick => do
    let kernel ← timerIrq state.kernel tick setup.reload
    return { state with kernel }
  | .first reader => return state.setReader reader (arrive state.kernel.objects.head?)
  | .load reader =>
    match state.reader reader with
    | .arrived tid =>
      return state.setReader reader (.holds tid (state.kernel.thread tid).userData)
    | _ => return state
  | .read reader =>
    match state.reader reader with
    | .holds _ data =>
      if data = 0 then return state
      else do
        let _ ← state.kernel.heap.load data
        return state
    | _ => return state
  | .next reader =>
    match state.reader reader with
    | .holds tid _ => return state.setReader reader (arrive (nextNode state.kernel.objects tid))
    | _ => return state

/-- A thread that has not exited and does not run. -/
structure Waiting (state : Reaping) (tid : Tid) : Prop where
  listed : tid ∈ state.kernel.objects
  alive : tid ∉ state.defunct
  unreaped : tid ∉ state.reaped
  idle : ∀ core, state.running core ≠ tid

def enabled (state : Reaping) : Event → Prop
  | .create tid => tid ∉ state.kernel.objects ∧ tid ∉ state.reaped
  | .switch _ _ toThread fromBlock toBlock =>
    Waiting state toThread ∧ Allocatable state.kernel fromBlock toBlock
  | .exit _ _ toThread fromBlock toBlock =>
    Waiting state toThread ∧ Allocatable state.kernel fromBlock toBlock
  | .delete tid => Waiting state tid
  | .cleanUp => state.deleting = none ∧ state.defunct ≠ []
  | .remove => state.deleting ≠ none
  | .timer _ => True
  | .first reader => state.reader reader = .done
  | .load reader => ∃ tid, state.reader reader = .arrived tid
  | .read reader => ∃ tid data, state.reader reader = .holds tid data
  | .next reader => ∃ tid data, state.reader reader = .holds tid data

def reaping (setup : Setup) (isStatic : Tid → Bool) : System Reaping Event Fault where
  enabled := enabled
  step := serve setup isStatic

/-- No thread of the list has lost its record when the interrupt walks the list, no walk arrives
at such a thread, and no thread loses its record while a walk stands on it. A static thread does
not exit before it has a record. -/
def Apart (isStatic : Tid → Bool) (state : Reaping) : Event → Prop
  | .timer _ => ∀ tid ∈ state.kernel.objects, ¬ Dangling state.kernel state.reaped tid
  | .first _ => ∀ tid ∈ state.kernel.objects.head?, ¬ Dangling state.kernel state.reaped tid
  | .next reader => ∀ tid ∈ (state.reader reader).node, ∀ other ∈ nextNode state.kernel.objects tid,
      ¬ Dangling state.kernel state.reaped other
  | .cleanUp => ∀ tid ∈ state.defunct.head?, (state.kernel.thread tid).userData ≠ 0 →
      ∀ reader, (state.reader reader).node ≠ some tid
  | .exit core _ _ _ _ => ¬ (isStatic (state.running core) ∧
      (state.kernel.thread (state.running core)).cleanup = .null)
  | _ => True

/-- Every record is freed once, by the cleanup of its thread, and its thread stays in the list
until then. -/
structure FreedOnce (state : Reaping) : Prop where
  unrecorded : ∀ tid, (state.kernel.thread tid).userData = 0 → state.frees tid = 0
  pending : ∀ tid, tid ∉ state.reaped → (state.kernel.thread tid).userData ≠ 0 →
    state.frees tid = 0 ∧ tid ∈ state.kernel.objects
  reaped : ∀ tid, Dangling state.kernel state.reaped tid → state.frees tid = 1

/-- No step touches a dead record, and each leaves every record freed once. -/
def Untouched (outcome : Except Fault Reaping) : Prop :=
  outcome ≠ .error .deadObject ∧ ∀ next, outcome = .ok next → FreedOnce next

/-! ## The invariant -/

/-- The records of the threads that are not reaped are installed, running threads have not exited,
and no walk stands on a thread that has lost its record. -/
structure Sound (state : Reaping) : Prop where
  installed : Installed (state.kernel.without state.reaped)
  nodup : state.kernel.objects.Nodup
  separate : Function.Injective state.running
  running : ∀ core, state.running core ∈ state.kernel.objects ∧
    state.running core ∉ state.defunct ∧ state.running core ∉ state.reaped
  exited : ∀ tid ∈ state.defunct, tid ∈ state.kernel.objects ∧ tid ∉ state.reaped
  distinct : state.defunct.Nodup
  deleting : ∀ tid, state.deleting = some tid → tid ∈ state.reaped
  readers : ∀ reader, ∀ tid ∈ (state.reader reader).node,
    ¬ Dangling state.kernel state.reaped tid
  held : ∀ reader tid data, state.reader reader = .holds tid data →
    data = 0 ∨ data = (state.kernel.thread tid).userData
  freed : FreedOnce state

variable {setup : Setup} {isStatic : Tid → Bool} {state : Reaping}

theorem start_sound (setup : Setup) : Sound (start setup) where
  installed := boot_installed setup
  nodup := setup.nodup
  separate := setup.separate
  running core := ⟨setup.listed core, List.not_mem_nil, List.not_mem_nil⟩
  exited := nofun
  distinct := List.nodup_nil
  deleting := nofun
  readers := nofun
  held := nofun
  freed := ⟨fun _ _ ↦ rfl, fun _ _ hdata ↦ absurd rfl hdata, nofun⟩

/-! ## Walks -/

theorem node_arrive (node : Option Tid) : (arrive node).node = node := by
  cases node <;> rfl

theorem arrive_ne_holds (node : Option Tid) (tid : Tid) (data : Address) :
    arrive node ≠ .holds tid data := by
  cases node <;> nofun

/-- A walk may move to a node that has not lost its record. -/
theorem Sound.setReader (h : Sound state) (reader : ℕ) {value : Reader}
    (hnode : ∀ tid ∈ value.node, ¬ Dangling state.kernel state.reaped tid)
    (hheld : ∀ tid data, value = .holds tid data →
      data = 0 ∨ data = (state.kernel.thread tid).userData) :
    Sound (state.setReader reader value) := by
  refine { h with readers := fun other tid htid ↦ ?_, held := fun other tid data hother ↦ ?_,
                  freed := ⟨h.freed.unrecorded, h.freed.pending, h.freed.reaped⟩ }
  · by_cases hone : other = reader
    · subst hone
      apply hnode
      simpa [Reaping.setReader] using htid
    · apply h.readers other
      simpa [Reaping.setReader, hone] using htid
  · by_cases hone : other = reader
    · subst hone
      apply hheld
      simpa [Reaping.setReader] using hother
    · apply h.held other
      simpa [Reaping.setReader, hone] using hother

theorem Sound.arrive (h : Sound state) (reader : ℕ) {node : Option Tid}
    (hnode : ∀ tid ∈ node, ¬ Dangling state.kernel state.reaped tid) :
    Sound (state.setReader reader (arrive node)) := by
  apply h.setReader reader
  · rwa [node_arrive]
  · exact fun tid data hholds ↦ absurd hholds (arrive_ne_holds node tid data)

/-- The record of the node on which a walk stands is live. -/
theorem Sound.load_held (h : Sound state) {reader : ℕ} {tid : Tid} {data : Address}
    (hholds : state.reader reader = .holds tid data) (hdata : data ≠ 0) :
    ∃ record, state.kernel.heap.load data = .ok record := by
  have hsame : data = (state.kernel.thread tid).userData :=
    (h.held reader tid data hholds).resolve_left hdata
  have hnode : (state.reader reader).node = some tid := by
    rw [hholds]
    rfl
  have hunreaped : tid ∉ state.reaped := fun hreaped ↦
    h.readers reader tid hnode ⟨hreaped, hsame ▸ hdata⟩
  have hlive := h.installed.live tid
  rw [without_thread hunreaped, ← hsame] at hlive
  obtain ⟨record, hcell, _⟩ := hlive hdata
  exact ⟨record, Heap.load_eq_ok hdata hcell⟩

/-! ## Creating and removing threads -/

/-- A thread that is neither listed nor reaped has no record. -/
theorem Sound.userData_eq_zero (h : Sound state) {tid : Tid} (hlisted : tid ∉ state.kernel.objects)
    (hreaped : tid ∉ state.reaped) : (state.kernel.thread tid).userData = 0 := by
  by_contra hdata
  exact hlisted (h.freed.pending tid hreaped hdata).2

theorem Sound.create (h : Sound state) {tid : Tid} (hlisted : tid ∉ state.kernel.objects)
    (hreaped : tid ∉ state.reaped) :
    Sound { state with kernel := createThread state.kernel tid } := by
  have hnull := h.userData_eq_zero hlisted hreaped
  have hdata := userData_createThread hnull
  have hdangling (other : Tid) : Dangling (createThread state.kernel tid) state.reaped other ↔
      Dangling state.kernel state.reaped other := by
    rw [Dangling, Dangling, hdata]
  refine { h with
    installed := installed_createThread h.installed tid
    nodup := List.nodup_cons.mpr ⟨hlisted, h.nodup⟩
    running := fun core ↦ ⟨List.mem_cons_of_mem _ (h.running core).1, (h.running core).2⟩
    exited := fun other hother ↦
      ⟨List.mem_cons_of_mem _ (h.exited other hother).1, (h.exited other hother).2⟩
    readers := fun reader other hother ↦ ?_
    held := fun reader other data hother ↦ ?_
    freed := ⟨fun other hother ↦ ?_, fun other hother hsome ↦ ?_, fun other hother ↦ ?_⟩ }
  · rw [hdangling]
    exact h.readers reader other hother
  · rw [hdata]
    exact h.held reader other data hother
  · exact h.freed.unrecorded other ((hdata other).symm.trans hother)
  · have hpending := h.freed.pending other hother ((hdata other).symm ▸ hsome)
    exact ⟨hpending.1, List.mem_cons_of_mem _ hpending.2⟩
  · exact h.freed.reaped other ((hdangling other).mp hother)

/-- A thread without a live record may leave the list. -/
theorem Sound.detach (h : Sound state) {tid : Tid} (hidle : ∀ core, state.running core ≠ tid)
    (hdefunct : tid ∉ state.defunct)
    (hrecord : tid ∈ state.reaped ∨ (state.kernel.thread tid).userData = 0)
    {deleting : Option Tid} (hdeleting : ∀ tid, deleting = some tid → tid ∈ state.reaped) :
    Sound { state with kernel := detach state.kernel tid, deleting } := by
  have hkept {other : Tid} (hne : other ≠ tid) (hmem : other ∈ state.kernel.objects) :
      other ∈ state.kernel.objects.erase tid :=
    (List.mem_erase_of_ne hne).mpr hmem
  refine { h with
    installed := h.installed.congr rfl rfl
    nodup := h.nodup.erase tid
    running := fun core ↦ ⟨hkept (hidle core) (h.running core).1, (h.running core).2⟩
    exited := fun other hother ↦ ⟨hkept ?_ (h.exited other hother).1, (h.exited other hother).2⟩
    deleting := hdeleting
    freed := ⟨h.freed.unrecorded, fun other hother hsome ↦ ?_, h.freed.reaped⟩ }
  · intro hsame
    subst hsame
    exact hdefunct hother
  · have hpending := h.freed.pending other hother hsome
    refine ⟨hpending.1, hkept ?_ hpending.2⟩
    intro hsame
    subst hsame
    exact hrecord.elim hother hsome

/-- The deletion of a thread that has not exited. -/
theorem Sound.retire (h : Sound state) {tid : Tid} (hwaiting : Waiting state tid) :
    Sound (retire isStatic state tid) := by
  unfold Reaping.retire
  split_ifs with hdirect
  · have hnull := (h.installed.cleanup tid).mp
    rw [without_thread hwaiting.unreaped] at hnull
    exact h.detach hwaiting.idle hwaiting.alive (.inr (hnull hdirect.2)) h.deleting
  · refine { h with
      running := fun core ↦ ⟨(h.running core).1, ?_, (h.running core).2.2⟩
      exited := fun other hother ↦ ?_
      distinct := List.nodup_cons.mpr ⟨hwaiting.alive, h.distinct⟩
      freed := ⟨h.freed.unrecorded, h.freed.pending, h.freed.reaped⟩ }
    · apply List.not_mem_cons_of_ne_of_not_mem
      · exact hwaiting.idle core
      · exact (h.running core).2.1
    · cases hother with
      | head => exact ⟨hwaiting.listed, hwaiting.unreaped⟩
      | tail _ hmem => exact h.exited other hmem

/-! ## The cleanup -/

/-- The cleanup counts the record it frees. -/
theorem FreedOnce.reap (h : FreedOnce state) {tid : Tid} (htid : tid ∉ state.reaped)
    {kernel : Kernel} (hthread : kernel.thread = state.kernel.thread)
    (hobjects : kernel.objects = state.kernel.objects) {defunct : List Tid} :
    FreedOnce { state with
      kernel
      defunct
      reaped := tid :: state.reaped
      frees := Function.update state.frees tid
        (state.frees tid + if (state.kernel.thread tid).userData = 0 then 0 else 1) } := by
  have hdata (other : Tid) :
      (kernel.thread other).userData = (state.kernel.thread other).userData := by
    rw [hthread]
  constructor <;> intro other hother
  · have hnull : (state.kernel.thread other).userData = 0 := (hdata other).symm.trans hother
    change Function.update state.frees tid _ other = 0
    by_cases hone : other = tid
    · subst hone
      rw [Function.update_self, h.unrecorded other hnull, if_pos hnull]
    · rw [Function.update_of_ne hone]
      exact h.unrecorded other hnull
  · intro hsome
    have hne : other ≠ tid ∧ other ∉ state.reaped := by simpa using hother
    have hpending := h.pending other hne.2 ((hdata other).symm ▸ hsome)
    change Function.update state.frees tid _ other = 0 ∧ other ∈ kernel.objects
    rw [Function.update_of_ne hne.1, hobjects]
    exact hpending
  · have hsome : (state.kernel.thread other).userData ≠ 0 := (hdata other) ▸ hother.2
    change Function.update state.frees tid _ other = 1
    by_cases hone : other = tid
    · subst hone
      rw [Function.update_self, (h.pending other htid hsome).1, if_neg hsome]
    · rw [Function.update_of_ne hone]
      exact h.reaped other ⟨List.mem_of_ne_of_mem hone hother.1, hsome⟩

/-- With no walk on the thread, its cleanup frees its record and leaves the others alone. -/
theorem Sound.reap (h : Sound state) {tid : Tid} {defunct : List Tid}
    (hdefunct : state.defunct = tid :: defunct)
    (hreaders : (state.kernel.thread tid).userData ≠ 0 →
      ∀ reader, (state.reader reader).node ≠ some tid) :
    ∃ kernel freed, cleanup state.kernel tid = .ok (kernel, freed) ∧
      Sound { state with
        kernel
        defunct
        reaped := tid :: state.reaped
        frees := Function.update state.frees tid (state.frees tid + freed) } := by
  have hdistinct := h.distinct
  have hsplit (other : Tid) : other ∈ state.defunct ↔ other = tid ∨ other ∈ defunct := by
    rw [hdefunct, List.mem_cons]
  rw [hdefunct] at hdistinct
  have hself := h.exited tid ((hsplit tid).mpr (.inl rfl))
  obtain ⟨kernel, hrun, hinstalled, hthread, hobjects, _⟩ := cleanup_without h.installed hself.2
  refine ⟨kernel, _, hrun, hinstalled, hobjects ▸ h.nodup, h.separate, fun core ↦ ?_,
    fun other hother ↦ ?_, (List.nodup_cons.mp hdistinct).2, fun other hother ↦ ?_,
    fun reader other hother ↦ ?_, fun reader other data hother ↦ ?_,
    h.freed.reap hself.2 hthread hobjects⟩
  · have hrunning := h.running core
    rw [hsplit, not_or] at hrunning
    rw [hobjects]
    refine ⟨hrunning.1, hrunning.2.1.2, ?_⟩
    apply List.not_mem_cons_of_ne_of_not_mem
    · exact hrunning.2.1.1
    · exact hrunning.2.2
  · have hexited := h.exited other ((hsplit other).mpr (.inr hother))
    rw [hobjects]
    refine ⟨hexited.1, ?_⟩
    apply List.not_mem_cons_of_ne_of_not_mem
    · intro hsame
      subst hsame
      exact (List.nodup_cons.mp hdistinct).1 hother
    · exact hexited.2
  · exact List.mem_cons_of_mem _ (h.deleting other hother)
  · intro hdangling
    have hdata := hdangling.2
    rw [hthread] at hdata
    cases hdangling.1 with
    | head => exact hreaders hdata reader hother
    | tail _ hmem => exact h.readers reader other hother ⟨hmem, hdata⟩
  · rw [hthread]
    exact h.held reader other data hother

/-- The section with interrupts off ends with the thread detached or left for deletion. -/
theorem Sound.cleanUp (h : Sound state) (hsome : state.defunct ≠ [])
    (happart : Apart isStatic state .cleanUp) :
    ∃ next, cleanUp isStatic state = .ok next ∧ Sound next := by
  cases hdefunct : state.defunct with
  | nil => exact absurd hdefunct hsome
  | cons tid defunct =>
    have hreaders := happart tid
    rw [hdefunct] at hreaders
    obtain ⟨kernel, freed, hrun, hsound⟩ := h.reap hdefunct (hreaders rfl)
    have hmem : tid ∈ state.defunct := by
      rw [hdefunct]
      exact List.mem_cons_self ..
    have hidle (core : Core) : state.running core ≠ tid := fun hsame ↦
      (h.running core).2.1 (hsame ▸ hmem)
    have htail : tid ∉ defunct := by
      have hdistinct := h.distinct
      rw [hdefunct] at hdistinct
      exact (List.nodup_cons.mp hdistinct).1
    simp only [Reaping.cleanUp, hdefunct, hrun, ok_bind]
    split_ifs with hstatic
    · exact ⟨_, rfl, hsound.detach hidle htail (.inl (List.mem_cons_self ..)) hsound.deleting⟩
    · refine ⟨_, rfl, { hsound with
        deleting := fun other hother ↦ ?_
        freed := ⟨hsound.freed.unrecorded, hsound.freed.pending, hsound.freed.reaped⟩ }⟩
      cases hother
      exact List.mem_cons_self ..

/-! ## The hook and the interrupt -/

/-- What a hook between listed threads that are not reaped leaves alone. -/
structure Hooked (state : Reaping) (kernel : Kernel) : Prop where
  objects : kernel.objects = state.kernel.objects
  reaped : ∀ tid ∈ state.reaped, kernel.thread tid = state.kernel.thread tid
  recorded : ∀ tid, (state.kernel.thread tid).userData ≠ 0 →
    kernel.thread tid = state.kernel.thread tid
  unlisted : ∀ tid, tid ∉ state.kernel.objects → kernel.thread tid = state.kernel.thread tid

theorem Sound.hooked (h : Sound state) {toThread : Tid} (hwaiting : Waiting state toThread)
    {core : Core} {tick : UInt64} {fromBlock toBlock : Allocation} {kernel : Kernel}
    (hrun : scheduleHook state.kernel core tick (state.running core) toThread fromBlock toBlock =
      .ok kernel) (hobjects : kernel.objects = state.kernel.objects) : Hooked state kernel := by
  have hfrom := h.running core
  refine ⟨hobjects, fun tid htid ↦ ?_, fun tid hdata ↦ scheduleHook_frame hrun (.inr hdata),
    fun tid htid ↦ ?_⟩
  · apply scheduleHook_frame hrun
    exact .inl ⟨ne_of_mem_of_not_mem htid hfrom.2.2, ne_of_mem_of_not_mem htid hwaiting.unreaped⟩
  · apply scheduleHook_frame hrun
    exact .inl ⟨(ne_of_mem_of_not_mem hfrom.1 htid).symm,
      (ne_of_mem_of_not_mem hwaiting.listed htid).symm⟩

theorem Hooked.dangling {kernel : Kernel} (h : Hooked state kernel) {tid : Tid}
    (hnew : Dangling kernel state.reaped tid) : Dangling state.kernel state.reaped tid := by
  rwa [Dangling, ← h.reaped tid hnew.1]

/-- A record that a hook installs has not been freed, and its thread is listed. -/
theorem FreedOnce.hook (h : FreedOnce state) {kernel : Kernel} (hhooked : Hooked state kernel)
    (defunct : List Tid) (running : Core → Tid) :
    FreedOnce { state with kernel, defunct, running } := by
  refine ⟨fun tid hnew ↦ h.unrecorded tid ?_, fun tid hunreaped hnew ↦ ?_,
    fun tid hnew ↦ h.reaped tid (hhooked.dangling hnew)⟩
  · by_contra hdata
    have hnull : (kernel.thread tid).userData = 0 := hnew
    rw [hhooked.recorded tid hdata] at hnull
    exact hdata hnull
  · change state.frees tid = 0 ∧ tid ∈ kernel.objects
    rw [hhooked.objects]
    by_cases hdata : (state.kernel.thread tid).userData = 0
    · refine ⟨h.unrecorded tid hdata, ?_⟩
      by_contra hunlisted
      have hsome : (kernel.thread tid).userData ≠ 0 := hnew
      rw [hhooked.unlisted tid hunlisted] at hsome
      exact hsome hdata
    · exact h.pending tid hunreaped hdata

/-- A switch keeps everything in order, also for a thread that exits with it. -/
theorem Sound.dispatch (h : Sound state) {toThread : Tid} (hwaiting : Waiting state toThread)
    {fromBlock toBlock : Allocation} (hblocks : Allocatable state.kernel fromBlock toBlock)
    (core : Core) (tick : UInt64) {defunct : List Tid} (hdistinct : defunct.Nodup)
    (hdefunct : ∀ tid ∈ defunct, tid ∈ state.defunct ∨ tid = state.running core) :
    dispatch { state with defunct } core tick toThread fromBlock toBlock = .error .nullPointer ∨
    ∃ next, dispatch { state with defunct } core tick toThread fromBlock toBlock = .ok next ∧
      Sound next := by
  have hfrom := h.running core
  have hhook := hook_without h.installed core tick hfrom.2.2 hwaiting.unreaped
    (hwaiting.idle core) hblocks
  rcases hhook with hfault | ⟨kernel, _, _, hrun, _, _, hinstalled, hobjects, _⟩
  · apply Or.inl
    simp only [Reaping.dispatch, hfault]
    rfl
  apply Or.inr
  have hhooked := h.hooked hwaiting hrun hobjects
  refine ⟨{ state with kernel, defunct, running := Function.update state.running core toThread },
    ?_, hinstalled, hobjects ▸ h.nodup, Ledger.injective_update h.separate hwaiting.idle core,
    fun i ↦ ?_, fun tid htid ↦ ?_, hdistinct, h.deleting,
    fun reader tid htid hnew ↦ h.readers reader tid htid (hhooked.dangling hnew),
    fun reader tid data hheld ↦ ?_, h.freed.hook hhooked _ _⟩
  · simp only [Reaping.dispatch, hrun, ok_bind]
    rfl
  · change Function.update state.running core toThread i ∈ kernel.objects ∧
      Function.update state.running core toThread i ∉ defunct ∧
      Function.update state.running core toThread i ∉ state.reaped
    rw [hobjects]
    by_cases hone : i = core
    · subst hone
      rw [Function.update_self]
      refine ⟨hwaiting.listed, fun hmem ↦ ?_, hwaiting.unreaped⟩
      exact (hdefunct toThread hmem).elim hwaiting.alive (hwaiting.idle i).symm
    · rw [Function.update_of_ne hone]
      refine ⟨(h.running i).1, fun hmem ↦ ?_, (h.running i).2.2⟩
      exact (hdefunct _ hmem).elim (h.running i).2.1 (h.separate.ne hone)
  · rw [hobjects]
    rcases hdefunct tid htid with hold | rfl
    · exact h.exited tid hold
    · exact ⟨hfrom.1, hfrom.2.2⟩
  · rcases h.held reader tid data hheld with hzero | hsame
    · exact .inl hzero
    · by_cases hdata : (state.kernel.thread tid).userData = 0
      · exact .inl (hsame.trans hdata)
      · exact .inr (hsame.trans (congrArg Thread.userData (hhooked.recorded tid hdata)).symm)

/-- The interrupt outside the window. -/
theorem Sound.timer (h : Sound state) (tick reload : UInt64)
    (hlisted : ∀ tid ∈ state.kernel.objects, ¬ Dangling state.kernel state.reaped tid) :
    ∃ kernel, timerIrq state.kernel tick reload = .ok kernel ∧ Sound { state with kernel } := by
  obtain ⟨kernel, hrun, hinstalled, hobjects, hthread⟩ :=
    timerIrq_without h.installed h.nodup tick reload hlisted
  have hdangling (tid : Tid) : Dangling kernel state.reaped tid ↔
      Dangling state.kernel state.reaped tid := by
    rw [Dangling, Dangling, hthread]
  refine ⟨kernel, hrun, hinstalled, hobjects ▸ h.nodup, h.separate, hobjects ▸ h.running,
    hobjects ▸ h.exited, h.distinct, h.deleting, fun reader tid htid ↦ ?_,
    hthread ▸ h.held, hthread ▸ h.freed.unrecorded, ?_, fun tid htid ↦ ?_⟩
  · rw [hdangling]
    exact h.readers reader tid htid
  · rw [hthread, hobjects]
    exact h.freed.pending
  · exact h.freed.reaped tid ((hdangling tid).mp htid)

/-- The idle thread removes the thread that it has cleaned up. -/
theorem Sound.remove (h : Sound state) (henabled : state.deleting ≠ none) :
    ∃ next, serve setup isStatic state .remove = .ok next ∧ Sound next := by
  cases hdeleting : state.deleting with
  | none => exact absurd hdeleting henabled
  | some tid =>
    have hreaped := h.deleting tid hdeleting
    refine ⟨{ state with kernel := CpuUsage.detach state.kernel tid, deleting := none }, ?_, ?_⟩
    · simp only [serve, hdeleting]
      rfl
    · apply h.detach
      · intro core hsame
        exact (h.running core).2.2 (hsame ▸ hreaped)
      · intro hmem
        exact (h.exited tid hmem).2 hreaped
      · exact .inl hreaped
      · nofun

/-! ## Histories -/

/-- **One step.** Apart from walks, reaping keeps the invariant and touches no dead record. -/
theorem serve_sound (h : Sound state) {event : Event} (henabled : enabled state event)
    (happart : Apart isStatic state event) :
    serve setup isStatic state event = .error .nullPointer ∨
    ∃ next, serve setup isStatic state event = .ok next ∧ Sound next := by
  cases event with
  | create tid => exact .inr ⟨_, rfl, h.create henabled.1 henabled.2⟩
  | switch core tick toThread fromBlock toBlock =>
    exact h.dispatch henabled.1 henabled.2 core tick h.distinct fun _ ↦ .inl
  | exit core tick toThread fromBlock toBlock =>
    have hretire : retire isStatic state (state.running core) =
        { state with defunct := state.running core :: state.defunct } := if_neg happart
    simp only [serve, hretire]
    apply h.dispatch henabled.1 henabled.2 core tick
    · exact List.nodup_cons.mpr ⟨(h.running core).2.1, h.distinct⟩
    · intro tid hmem
      exact (List.mem_cons.mp hmem).symm
  | delete tid => exact .inr ⟨_, rfl, h.retire henabled⟩
  | cleanUp => exact .inr (h.cleanUp henabled.2 happart)
  | remove => exact .inr (h.remove henabled)
  | timer tick =>
    obtain ⟨kernel, hrun, hsound⟩ := h.timer tick setup.reload happart
    refine .inr ⟨{ state with kernel }, ?_, hsound⟩
    simp only [serve, hrun, ok_bind]
    rfl
  | first reader =>
    exact .inr ⟨_, rfl, h.arrive reader happart⟩
  | load reader =>
    obtain ⟨tid, harrived⟩ := henabled
    have hnode : (state.reader reader).node = some tid := by rw [harrived]; rfl
    refine .inr ⟨state.setReader reader (.holds tid (state.kernel.thread tid).userData), ?_, ?_⟩
    · simp only [serve, harrived]
      rfl
    · apply h.setReader reader
      · rintro _ ⟨⟩
        exact h.readers reader tid hnode
      · rintro _ _ ⟨⟩
        exact .inr rfl
  | read reader =>
    obtain ⟨tid, data, hholds⟩ := henabled
    refine .inr ⟨state, ?_, h⟩
    simp only [serve, hholds]
    split_ifs with hzero
    · rfl
    · obtain ⟨record, hload⟩ := h.load_held hholds hzero
      rw [hload]
      rfl
  | next reader =>
    obtain ⟨tid, data, hholds⟩ := henabled
    refine .inr ⟨state.setReader reader (arrive (nextNode state.kernel.objects tid)), ?_, ?_⟩
    · simp only [serve, hholds]
      rfl
    · apply h.arrive reader
      apply happart tid
      rw [hholds]
      rfl

theorem untouched_of_sound (h : Sound state) {event : Event} (henabled : enabled state event)
    (happart : Apart isStatic state event) : Untouched (serve setup isStatic state event) := by
  rcases serve_sound h henabled happart with hfault | ⟨next, hstep, hsound⟩
  · rw [hfault]
    exact ⟨nofun, nofun⟩
  · rw [hstep]
    refine ⟨nofun, fun other hother ↦ ?_⟩
    cases hother
    exact hsound.freed

/-- **No freed record is touched.** In every history in which walks and reaping stay apart, no step
reads or writes a freed record, and the cleanup of each thread frees its record, once. -/
theorem untouched_always (setup : Setup) (isStatic : Tid → Bool) (events : List Event)
    (happart : (reaping setup isStatic).Guarded (Apart isStatic) (start setup) events) :
    (reaping setup isStatic).Always (fun _ _ outcome ↦ Untouched outcome) (start setup) events := by
  apply System.Always.of_outcomes .nullPointer _ _ (start_sound setup) happart
  · exact fun _ _ hsound henabled hapart ↦ untouched_of_sound hsound henabled hapart
  · exact fun _ _ hsound henabled hapart ↦ serve_sound hsound henabled hapart

/-- Thread 2 gets a record on core 0 and exits, a walk reads the record of thread 0, and the
interrupt fires after thread 2 has been removed. -/
def orderlyExit : List Event :=
  [.switch 0 10 2 (some (16, zero)) (some (32, zero)), .exit 0 20 0 none none, .first 0, .load 0,
    .read 0, .cleanUp, .remove, .timer 100]

theorem orderly_exit_touches_no_freed_record :
    (∃ last, (reaping threeThreads fun _ ↦ false).Run (start threeThreads) orderlyExit last) ∧
      (reaping threeThreads fun _ ↦ false).Always (fun _ _ outcome ↦ Untouched outcome)
        (start threeThreads) orderlyExit := by
  constructor
  · have hfirst : enabled (start threeThreads)
        (.switch 0 10 2 (some (16, zero)) (some (32, zero))) := by
      refine ⟨⟨by decide, by decide, by decide, by decide⟩, ?_, ?_, ?_⟩ <;>
        simp [start, boot, Heap.Fresh, Heap.empty]
    exact ⟨_, .cons hfirst rfl (.cons ⟨⟨by decide, by decide, by decide, by decide⟩,
      allocatable_none _⟩ rfl (.cons rfl rfl (.cons ⟨0, rfl⟩ rfl (.cons ⟨0, 16, rfl⟩ rfl
        (.cons ⟨rfl, by decide⟩ rfl (.cons (Option.some_ne_none 2) rfl
          (.cons trivial rfl (.nil _))))))))⟩
  · have hother : (Reader.holds 0 16).node ≠ some 2 := by decide
    have hdone : Reader.done.node ≠ some 2 := by decide
    have hunreaped : ∀ tid ∈ ([0, 1] : List Tid), tid ∉ [2] := by decide
    have hdynamic {cleanup : Prop} : ¬ (false ∧ cleanup) := fun hstatic ↦ Bool.noConfusion hstatic.1
    apply untouched_always
    refine System.Always.cons rfl trivial (System.Always.cons rfl hdynamic
      (System.Always.cons rfl ?_ (System.Always.cons rfl trivial
        (System.Always.cons rfl trivial (System.Always.cons rfl ?_
          (System.Always.cons rfl trivial (System.Always.cons rfl ?_ trivial)))))))
    · exact fun _ _ hdangling ↦ List.not_mem_nil hdangling.1
    · rintro _ ⟨⟩ _ reader
      cases reader with
      | zero => exact hother
      | succ reader => exact hdone
    · exact fun tid hlisted hdangling ↦ hunreaped tid hlisted hdangling.1

/-- Thread 2 gets a record on core 0, exits, and is cleaned up. -/
def intoWindow : List Event :=
  [.switch 0 10 2 (some (16, zero)) (some (32, zero)), .exit 0 20 0 none none, .cleanUp]

/-- The interrupt in the window settles the freed record. -/
theorem timer_in_window_touches_freed :
    ¬ (reaping threeThreads fun _ ↦ false).Always (fun _ _ outcome ↦ Untouched outcome)
      (start threeThreads) (intoWindow ++ [.timer 100]) := by
  intro h
  have hfirst : enabled (start threeThreads)
      (.switch 0 10 2 (some (16, zero)) (some (32, zero))) := by
    refine ⟨⟨by decide, by decide, by decide, by decide⟩, ?_, ?_, ?_⟩ <;>
      simp [start, boot, Heap.Fresh, Heap.empty]
  have hlast := System.always_iff_forall_run.mp h intoWindow (.timer 100) [] _ rfl
    (.cons hfirst rfl (.cons ⟨⟨by decide, by decide, by decide, by decide⟩, allocatable_none _⟩
      rfl (.cons ⟨rfl, by decide⟩ rfl (.nil _)))) trivial
  exact hlast.1 rfl

end Reaping

end K210Firmware.CpuUsage
