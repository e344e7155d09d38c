import K210Firmware.Touch.Blocks
import K210Firmware.Touch.Input

/-!
# Setting up the touch driver

`touchscreen_init` reads the sensor once and then allocates thirteen blocks in nested
constructors. The outer ones do not look at what the inner ones return: `ts_ns2009_probe` uses the
filter and the event record without a test, and `tsfilter_alloc` returns a filter whose components
it has given back. `all_or_nothing_iff` says for which answers of the sensor and of the allocator
the call nevertheless leaves everything or nothing behind.
-/

namespace K210Firmware.Touch.Setup

open Memory Ns2009 Blocks
open Touch.Filter (TsFilter StaleArrays)
open Input (calibration)

def EIO : ℤ := 5

def ENOMEM : ℤ := 12

/-- The assignments of `ts_ns2009_probe` between the allocations of the filter and the event. -/
def fillPdata (pdata filter : Address) (cal : Fin 7 → ℤ) : Prog Object Unit := do
  modifyAs Object.pdata? .pdata pdata fun block ↦ { block with filter }
  tsfilterSetcal filter cal
  modifyAs Object.pdata? .pdata pdata fun block ↦ { block with x := 0, y := 0, press := 0 }

/-- The event record and its assignments. -/
def linkEvent (pdata : Address) (answer : Option TsEvent) : Prog Object Unit := do
  let event ← malloc (answer.map .event)
  modifyAs Object.pdata? .pdata pdata fun block ↦ { block with event }
  modifyAs Object.event? .event event fun _ ↦ ⟨.touchNone, 0, 0⟩

/-- The driver data and `*err`. -/
def tsNs2009Probe (cal : Fin 7 → ℤ) (answers : ProbeAnswers) : Prog Object (Address × ℤ) :=
  if (ns2009Read answers.reply 0).1 then do
    let pdata ← malloc (answers.pdata.map .pdata)
    if pdata = 0 then return (0, ENOMEM)
    else
      let filter ← tsfilterAlloc 5 5 answers.filter
      fillPdata pdata filter cal
      linkEvent pdata answers.event
      return (pdata, 0)
  else return (0, EIO)

/-- The heap and the variables `ts_ns2009_pdata` and `is_init` of `touchscreen.c`. -/
structure Screen where
  arena : Arena Object
  pdata : Address
  isInit : Bool

def touchscreenInit (cal : Fin 7 → ℤ) (answers : ProbeAnswers) (screen : Screen) :
    Except Fault (ℤ × Screen) := do
  let ((pdata, err), arena) ← tsNs2009Probe cal answers screen.arena
  if pdata = 0 ∨ err ≠ 0 then return (err, { screen with arena, pdata })
  else return (0, { arena, pdata, isInit := true })

/-! ## The blocks of a filter -/

/-- The three blocks of a median filter, if they are live. -/
def medianBlocks (heap : Heap Object) (ptr : Address) : Option (List Address) := do
  let block ← (heap.cell ptr).bind Object.median?
  let _ ← (heap.cell block.buffer).bind Object.array?
  let _ ← (heap.cell block.index).bind Object.array?
  return [ptr, block.buffer, block.index]

/-- The two blocks of a mean filter, if they are live. -/
def meanBlocks (heap : Heap Object) (ptr : Address) : Option (List Address) := do
  let block ← (heap.cell ptr).bind Object.mean?
  let _ ← (heap.cell block.buffer).bind Object.array?
  return [ptr, block.buffer]

/-- A filter and the blocks of its four components, if they are live. -/
def filterBlocks (heap : Heap Object) (ptr : Address) : Option (List Address) := do
  let block ← (heap.cell ptr).bind Object.tsfilter?
  let mx ← medianBlocks heap block.mx
  let my ← medianBlocks heap block.my
  let nx ← meanBlocks heap block.nx
  let ny ← meanBlocks heap block.ny
  return ptr :: mx ++ my ++ nx ++ ny

/-- Every block that is reached from the driver data, if they are live. -/
def driverBlocks (heap : Heap Object) (ptr : Address) : Option (List Address) := do
  let block ← (heap.cell ptr).bind Object.pdata?
  let filter ← filterBlocks heap block.filter
  let _ ← (heap.cell block.event).bind Object.event?
  return ptr :: filter ++ [block.event]

/-- The blocks allocated since `first` are live, and they are those reached from the driver
data. -/
def Complete (first : ℕ) (arena : Arena Object) (pdata : Address) : Prop :=
  ∃ blocks, driverBlocks arena.heap pdata = some blocks ∧ blocks.Nodup ∧
    ∀ address : ℕ, address ∈ blocks ↔ first ≤ address ∧ address < arena.next

/-- The call ends without undefined behaviour; if it succeeds everything is there, and if it fails
no block that it allocated is live. -/
def AllOrNothing (cal : Fin 7 → ℤ) (answers : ProbeAnswers) (screen : Screen) : Prop :=
  ∃ ret after, touchscreenInit cal answers screen = .ok (ret, after) ∧
    (ret = 0 → Complete screen.arena.next after.arena after.pdata) ∧
    (ret ≠ 0 → ∀ address : ℕ, screen.arena.next ≤ address →
      after.arena.heap.cell address = none)

/-- `tsfilter_alloc` returns a null pointer or a filter with four live components. -/
def NullOrWhole (ml nl : ℤ) (answers : FilterAnswers) (arena : Arena Object) : Prop :=
  Returns (tsfilterAlloc ml nl answers) arena fun ptr after ↦
    ptr = 0 ∨ (filterBlocks after.heap ptr).isSome

/-- Every allocation after that of the driver data is granted. -/
def Granted (answers : ProbeAnswers) : Prop :=
  answers.filter.filter.isSome ∧ answers.filter.Components ∧ answers.event.isSome

/-! ## The driver data being filled in -/

variable {arena : Arena Object} {pdata filter : ℕ} {cal : Fin 7 → ℤ}

/-- What `fillPdata` leaves. -/
structure Filled (cal : Fin 7 → ℤ) (pdata filter event : ℕ) (before after : Arena Object) :
    Prop where
  next : after.next = before.next
  block : after.heap.cell pdata = some (.pdata ⟨filter, event, 0, 0, 0⟩)
  calibrated : ∀ block, before.heap.cell filter = some (.tsfilter block) →
    after.heap.cell filter = some (.tsfilter { block with cal })
  other : ∀ address : ℕ, address ≠ pdata → address ≠ filter →
    after.heap.cell address = before.heap.cell address

theorem fillPdata_returns {leftover : PdataBlock} (hpdata : arena.heap.cell pdata =
    some (.pdata leftover)) (hne : filter ≠ pdata)
    (hfilter : filter = 0 ∨ ∃ block, arena.heap.cell filter = some (.tsfilter block)) :
    Returns (fillPdata pdata filter cal) arena fun _ after ↦
      Filled cal pdata filter leftover.event arena after := by
  unfold fillPdata
  refine returns_step (modifyAs_eq_ok leftover _ hpdata rfl) ?_
  have hkept : ∀ address : ℕ, address ≠ pdata →
      (arena.replace pdata (some (.pdata { leftover with filter }))).heap.cell address =
        arena.heap.cell address := fun address haddress ↦ by simp [haddress]
  have hlinked : (arena.replace pdata (some (.pdata { leftover with filter }))).heap.cell pdata =
      some (.pdata { leftover with filter }) := by simp [hpdata]
  rw [← hkept filter hne] at hfilter
  apply (tsfilterSetcal_returns cal hfilter).bind
  intro _ calibrated ⟨hsame, hcal⟩
  have hcell : calibrated.heap.cell pdata = some (.pdata { leftover with filter }) :=
    (hsame.cell pdata (by omega)).trans hlinked
  refine ⟨(), _, modifyAs_eq_ok _ _ hcell rfl, hsame.next, ?_, fun block hblock ↦ ?_,
    fun address hpdata' hfilter' ↦ ?_⟩
  · simp [hcell]
  · simp [hne, hcal block ((hkept filter hne).trans hblock)]
  · simp only [Arena.cell_replace, hpdata', if_false]
    rw [hsame.cell address (by omega), hkept address hpdata']

theorem FilterOutcome.null_or_live {ml nl : ℤ} {answers : FilterAnswers} {first ptr : ℕ}
    (h : FilterOutcome ml nl answers first arena ptr) :
    ptr = 0 ∨ ∃ block, arena.heap.cell ptr = some (.tsfilter block) := by
  cases h with
  | null => exact .inl rfl
  | broken _ _ hbroken => exact .inr (hbroken.imp fun _ ↦ And.left)
  | whole _ _ _ _ hat => exact .inr ⟨_, hat.block⟩

/-- What a probe with a filter, whatever it is, and an event record leaves. -/
structure Probed (cal : Fin 7 → ℤ) (pdata filter : ℕ) (before after : Arena Object) : Prop where
  next : after.next = before.next + 1
  block : after.heap.cell pdata = some (.pdata ⟨filter, before.next, 0, 0, 0⟩)
  event : after.heap.cell before.next = some (.event ⟨.touchNone, 0, 0⟩)
  calibrated : ∀ block, before.heap.cell filter = some (.tsfilter block) →
    after.heap.cell filter = some (.tsfilter { block with cal })
  other : ∀ address : ℕ, address ≠ pdata → address ≠ filter → address ≠ before.next →
    after.heap.cell address = before.heap.cell address

/-- The sensor answers and there is a block for the driver data. -/
def Reached (answers : ProbeAnswers) : Prop := answers.reply.isSome ∧ answers.pdata.isSome

/-- The probe up to the allocation of the event record. -/
theorem probe_eq (cal : Fin 7 → ℤ) {answers : ProbeAnswers} (hreached : Reached answers)
    (arena : Arena Object) :
    ∃ filter event middle filled, arena.next + 1 ≤ middle.next ∧
      FilterOutcome 5 5 answers.filter (arena.next + 1) middle filter ∧
      Filled cal arena.next filter event middle filled ∧
      tsNs2009Probe cal answers arena =
        (linkEvent arena.next answers.event >>= fun _ ↦ pure (arena.next, 0)) filled := by
  obtain ⟨hreply, hpdata⟩ := hreached
  obtain ⟨bytes, hreply⟩ := Option.isSome_iff_exists.mp hreply
  obtain ⟨leftover, hpdata⟩ := Option.isSome_iff_exists.mp hpdata
  obtain ⟨filter, middle, hfilter, hgrows, houtcome⟩ :=
    show Returns (tsfilterAlloc 5 5 answers.filter) (arena.push (.pdata leftover)) _ from
      tsfilterAlloc_returns (by decide) (by decide) answers.filter
  have hcell : middle.heap.cell arena.next = some (.pdata leftover) := by
    rw [hgrows.cell arena.next (Nat.lt_succ_self _), Arena.cell_push, if_pos rfl]
  have hlive := FilterOutcome.null_or_live houtcome
  have hne : filter ≠ arena.next := by
    rintro rfl
    rcases hlive with hnull | ⟨block, hblock⟩
    · exact Arena.next_ne_zero hnull
    · rw [hcell] at hblock
      cases hblock
  obtain ⟨_, filled, hfill, hfilled⟩ := fillPdata_returns hcell hne hlive
  refine ⟨filter, leftover.event, middle, filled, hgrows.next_le, houtcome, hfilled, ?_⟩
  calc
    tsNs2009Probe cal answers arena =
        (tsfilterAlloc 5 5 answers.filter >>= fun filter ↦ do
          fillPdata arena.next filter cal
          linkEvent arena.next answers.event
          pure (arena.next, 0)) (arena.push (.pdata leftover)) := by
      unfold tsNs2009Probe
      rw [hreply, if_pos (show (ns2009Read (some bytes) 0).1 = true from rfl), hpdata]
      refine (bind_eq_of_run rfl).trans ?_
      rw [if_neg Arena.next_ne_zero]
    _ = _ := bind_eq_of_run hfilter
    _ = _ := bind_eq_of_run hfill

theorem probe_faults (cal : Fin 7 → ℤ) {answers : ProbeAnswers} (hreached : Reached answers)
    (hevent : answers.event = none) (arena : Arena Object) :
    Faults (tsNs2009Probe cal answers) arena .nullPointer := by
  obtain ⟨filter, event, middle, filled, _, _, hfilled, hrun⟩ := probe_eq cal hreached arena
  unfold Faults
  rw [hrun, hevent]
  apply Faults.bind
  unfold linkEvent
  refine faults_step rfl (faults_step (modifyAs_eq_ok _ _ hfilled.block rfl) ?_)
  exact Faults.modifyAs _ _ (faults_loadAs_null _ _)

theorem probe_returns {answers : ProbeAnswers} (hreached : Reached answers)
    (hevent : answers.event.isSome) (arena : Arena Object) :
    Returns (tsNs2009Probe cal answers) arena fun result after ↦ result = (arena.next, 0) ∧
      ∃ filter middle, arena.next + 1 ≤ middle.next ∧
        FilterOutcome 5 5 answers.filter (arena.next + 1) middle filter ∧
        Probed cal arena.next filter middle after := by
  obtain ⟨filter, event, middle, filled, hnext, houtcome, hfilled, hrun⟩ :=
    probe_eq cal hreached arena
  obtain ⟨record, hevent⟩ := Option.isSome_iff_exists.mp hevent
  have hlt : arena.next < filled.next := hfilled.next ▸ hnext
  have hfree : filled.heap.cell filled.next = none := filled.fresh _ le_rfl
  unfold Returns
  rw [hrun, hevent]
  have hlink : Returns (linkEvent arena.next (some record)) filled fun _ after ↦
      Probed cal arena.next filter middle after := by
    unfold linkEvent
    apply returns_step rfl
    refine returns_step (modifyAs_eq_ok ⟨filter, event, 0, 0, 0⟩ _
      (by simp [hlt.ne, hfilled.block]) rfl) ?_
    refine ⟨(), _, modifyAs_eq_ok record _ (by simp [hlt.ne']) rfl, ?_, ?_, ?_,
      fun block hblock ↦ ?_, fun address hpdata hfilter hevent ↦ ?_⟩
    · simp [hfilled.next]
    · rw [← hfilled.next]
      simp [hlt.ne, hfilled.block]
    · simp [hlt.ne', ← hfilled.next]
    · have hcal := hfilled.calibrated block hblock
      have hother : filter ≠ filled.next := by
        rintro rfl
        rw [hfree] at hcal
        cases hcal
      have hpdata : filter ≠ arena.next := by
        rintro rfl
        rw [hfilled.block] at hcal
        cases hcal
      simp [hother, hpdata, hcal]
    · rw [← hfilled.next] at hevent
      simp [hevent, hpdata, hfilled.other address hpdata hfilter]
  apply hlink.bind
  intro _ after hprobed
  exact returns_pure ⟨rfl, filter, middle, hnext, houtcome, hprobed⟩

/-! ## The driver in the heap -/

/-- The driver data, its filter and its event record at the thirteen addresses from `ptr`. -/
structure DriverAt (heap : Heap Object) (ptr : ℕ) (driver : Pdata) : Prop where
  block : heap.cell ptr =
    some (.pdata ⟨ptr + 1, ptr + 12, driver.x, driver.y, driver.press⟩)
  filter : FilterAt heap (ptr + 1) driver.filter
  event : heap.cell (ptr + 12) = some (.event driver.event)

/-- A probe that was granted everything holds the driver that `Ns2009.tsNs2009Probe` describes. -/
theorem Probed.driverAt {pdata : ℕ} {middle after : Arena Object} {arrays : StaleArrays}
    (h : Probed cal pdata (pdata + 1) middle after) (hnext : middle.next = pdata + 12)
    (hat : FilterAt middle.heap (pdata + 1) (Filter.tsfilterAlloc 5 5 arrays)) :
    DriverAt after.heap pdata (Ns2009.tsNs2009Probe cal arrays) := by
  have hother (address : ℕ) (hlower : pdata + 1 < address) (hupper : address < pdata + 12) :
      after.heap.cell address = middle.heap.cell address :=
    h.other address (by omega) (by omega) (by omega)
  refine ⟨?_, ⟨h.calibrated _ hat.block, ?_, ?_, ?_, ?_⟩, ?_⟩
  · rw [h.block, hnext]
    rfl
  · exact hat.mx.congr fun address _ _ ↦ hother address (by omega) (by omega)
  · exact hat.my.congr fun address _ _ ↦ hother address (by omega) (by omega)
  · exact hat.nx.congr fun address _ _ ↦ hother address (by omega) (by omega)
  · exact hat.ny.congr fun address _ _ ↦ hother address (by omega) (by omega)
  · rw [← hnext, h.event]
    rfl

theorem medianBlocks_at {heap : Heap Object} {ptr : ℕ} {filter : Median.MedianFilter}
    (h : MedianAt heap ptr filter) : medianBlocks heap ptr = some [ptr, ptr + 1, ptr + 2] := by
  simp [medianBlocks, h.block, h.buffer, h.index, Object.median?, Object.array?]

theorem meanBlocks_at {heap : Heap Object} {ptr : ℕ} {filter : Mean.MeanFilter}
    (h : MeanAt heap ptr filter) : meanBlocks heap ptr = some [ptr, ptr + 1] := by
  simp [meanBlocks, h.block, h.buffer, Object.mean?, Object.array?]

theorem filterBlocks_at {heap : Heap Object} {ptr : ℕ} {filter : TsFilter}
    (h : FilterAt heap ptr filter) : filterBlocks heap ptr = some (List.range' ptr 11) := by
  simp [filterBlocks, h.block, Object.tsfilter?, medianBlocks_at h.mx, medianBlocks_at h.my,
    meanBlocks_at h.nx, meanBlocks_at h.ny, List.range']

theorem driverBlocks_at {heap : Heap Object} {ptr : ℕ} {driver : Pdata}
    (h : DriverAt heap ptr driver) : driverBlocks heap ptr = some (List.range' ptr 13) := by
  simp [driverBlocks, h.block, h.event, Object.pdata?, Object.event?, filterBlocks_at h.filter,
    List.range']

/-- A filter that lacks a component has no complete set of blocks. -/
theorem filterBlocks_broken {ptr : ℕ} (h : Broken arena.heap ptr) :
    filterBlocks arena.heap ptr = none := by
  obtain ⟨block, hblock, hmissing⟩ := h
  have hmedian : medianBlocks arena.heap 0 = none := by simp [medianBlocks, arena.null]
  have hmean : meanBlocks arena.heap 0 = none := by simp [meanBlocks, arena.null]
  rcases hmissing with hmx | hmy | hnx | hny
  · simp [filterBlocks, hblock, Object.tsfilter?, hmx, hmedian]
  · simp [filterBlocks, hblock, Object.tsfilter?, hmy, hmedian]
  · simp [filterBlocks, hblock, Object.tsfilter?, hnx, hmean]
  · simp [filterBlocks, hblock, Object.tsfilter?, hny, hmean]

/-! ## All or nothing -/

theorem init_of_failed_probe {answers : ProbeAnswers} {screen : Screen} {err : ℤ}
    (herr : err ≠ 0) (hrun : tsNs2009Probe cal answers screen.arena =
      .ok ((0, err), screen.arena)) : AllOrNothing cal answers screen := by
  refine ⟨err, { screen with pdata := 0 }, ?_, fun hzero ↦ absurd hzero herr,
    fun _ address haddress ↦ screen.arena.fresh address haddress⟩
  unfold touchscreenInit
  rw [hrun, ok_bind]
  rfl

theorem init_of_probe {answers : ProbeAnswers} {screen : Screen} {pdata : Address}
    {after : Arena Object} (hpdata : pdata ≠ 0)
    (hrun : tsNs2009Probe cal answers screen.arena = .ok ((pdata, 0), after)) :
    touchscreenInit cal answers screen = .ok (0, ⟨after, pdata, true⟩) := by
  unfold touchscreenInit
  rw [hrun, ok_bind]
  simp only [hpdata, ne_eq, not_true_eq_false, or_self, if_false]
  rfl

/-- A probe that was granted everything. -/
theorem init_granted (cal : Fin 7 → ℤ) {answers : ProbeAnswers} (hreached : Reached answers)
    (hgranted : Granted answers) (screen : Screen) :
    ∃ arrays after, touchscreenInit cal answers screen =
        .ok (0, ⟨after, screen.arena.next, true⟩) ∧
      after.next = screen.arena.next + 13 ∧
      DriverAt after.heap screen.arena.next (Ns2009.tsNs2009Probe cal arrays) := by
  obtain ⟨hfilter, hcomponents, hevent⟩ := hgranted
  obtain ⟨_, after, hrun, rfl, filter, middle, _, houtcome, hprobed⟩ :=
    show Returns (tsNs2009Probe cal answers) screen.arena _ from
      probe_returns hreached hevent screen.arena
  cases houtcome with
  | null hnull =>
    rw [hnull] at hfilter
    cases hfilter
  | broken _ hmissing => exact absurd hcomponents hmissing
  | whole arrays _ _ hnext hat =>
    exact ⟨arrays, after, init_of_probe Arena.next_ne_zero hrun, by rw [hprobed.next, hnext],
      hprobed.driverAt hnext hat⟩

/-- A refusal behind the driver data is not noticed, or ends in an access through a null
pointer. -/
theorem not_allOrNothing {answers : ProbeAnswers} (hreached : Reached answers)
    (hrefused : ¬ Granted answers) (screen : Screen) : ¬ AllOrNothing cal answers screen := by
  rintro ⟨ret, last, hinit, hcomplete, _⟩
  rcases hevent : answers.event with _ | record
  · have hfault := probe_faults cal hreached hevent screen.arena
    unfold touchscreenInit at hinit
    rw [hfault] at hinit
    cases hinit
  have hsome : answers.event.isSome := by rw [hevent]; rfl
  obtain ⟨_, after, hrun, rfl, filter, middle, _, houtcome, hprobed⟩ :=
    show Returns (tsNs2009Probe cal answers) screen.arena _ from
      probe_returns hreached hsome screen.arena
  rw [init_of_probe Arena.next_ne_zero hrun] at hinit
  cases hinit
  obtain ⟨blocks, hblocks, _⟩ := hcomplete rfl
  have hnone : filterBlocks after.heap filter = none := by
    cases houtcome with
    | null => simp [filterBlocks, after.null]
    | broken _ _ hbroken =>
      obtain ⟨block, hblock, hmissing⟩ := hbroken
      exact filterBlocks_broken ⟨_, hprobed.calibrated block hblock, hmissing⟩
    | whole _ hfilter hcomponents => exact absurd ⟨hfilter, hcomponents, hsome⟩ hrefused
  simp [driverBlocks, hprobed.block, Object.pdata?, hnone] at hblocks

theorem tsfilterAlloc_nullOrWhole {ml nl : ℤ} {answers : FilterAnswers} {arena : Arena Object} :
    NullOrWhole ml nl answers arena ↔
      ml ≤ 0 ∨ nl ≤ 0 ∨ answers.filter = none ∨ answers.Components := by
  by_cases hlengths : ml ≤ 0 ∨ nl ≤ 0
  · have hnull : NullOrWhole ml nl answers arena := by
      unfold NullOrWhole tsfilterAlloc
      rw [if_pos hlengths]
      exact returns_pure (.inl rfl)
    exact iff_of_true hnull (by tauto)
  · push Not at hlengths
    obtain ⟨ptr, after, hrun, _, houtcome⟩ :=
      show Returns (tsfilterAlloc ml nl answers) arena _ from
        tsfilterAlloc_returns hlengths.1 hlengths.2 answers
    have hiff : NullOrWhole ml nl answers arena ↔
        ptr = 0 ∨ (filterBlocks after.heap ptr).isSome := by
      constructor
      · rintro ⟨ptr', after', hrun', hpost⟩
        rw [hrun] at hrun'
        cases hrun'
        exact hpost
      · exact fun h ↦ ⟨ptr, after, hrun, h⟩
    rw [hiff]
    cases houtcome with
    | null hnull => simp [hnull]
    | broken hfilter hmissing hbroken =>
      have hsome := Option.isSome_iff_ne_none.mp hfilter
      simp [filterBlocks_broken hbroken, hsome, hmissing, hlengths.1.not_ge, hlengths.2.not_ge]
    | whole arrays _ hcomponents _ hat => simp [filterBlocks_at hat, hcomponents]

/-- **Set-up leaves everything or nothing** exactly when the sensor does not answer, or there is
no memory for the driver data, or every other allocation is granted. -/
theorem all_or_nothing_iff (cal : Fin 7 → ℤ) (answers : ProbeAnswers) (screen : Screen) :
    (AllOrNothing cal answers screen ↔
      answers.reply = none ∨ answers.pdata = none ∨ Granted answers) ∧
    ∀ (ml nl : ℤ) (filterAnswers : FilterAnswers) (arena : Arena Object),
      NullOrWhole ml nl filterAnswers arena ↔
        ml ≤ 0 ∨ nl ≤ 0 ∨ filterAnswers.filter = none ∨ filterAnswers.Components := by
  refine ⟨⟨fun h ↦ ?_, ?_⟩, fun _ _ _ _ ↦ tsfilterAlloc_nullOrWhole⟩
  · by_contra hcondition
    push Not at hcondition
    obtain ⟨hreply, hpdata, hrefused⟩ := hcondition
    exact not_allOrNothing ⟨Option.isSome_iff_ne_none.mpr hreply,
      Option.isSome_iff_ne_none.mpr hpdata⟩ hrefused screen h
  · intro hcondition
    rcases hreply : answers.reply with _ | bytes
    · refine init_of_failed_probe (show EIO ≠ 0 by decide) ?_
      unfold tsNs2009Probe
      rw [hreply]
      rfl
    rcases hpdata : answers.pdata with _ | leftover
    · refine init_of_failed_probe (show ENOMEM ≠ 0 by decide) ?_
      unfold tsNs2009Probe
      rw [hreply, hpdata]
      rfl
    have hgranted : Granted answers := by simpa [hreply, hpdata] using hcondition
    have hreached : Reached answers := ⟨by rw [hreply]; rfl, by rw [hpdata]; rfl⟩
    obtain ⟨arrays, after, hrun, hnext, hat⟩ := init_granted cal hreached hgranted screen
    refine ⟨0, _, hrun, fun _ ↦ ⟨_, driverBlocks_at hat, List.nodup_range', ?_⟩,
      fun hne ↦ absurd rfl hne⟩
    intro address
    rw [hnext]
    simp

/-- The sensor answers and every allocation is granted. -/
def allGranted : ProbeAnswers where
  reply := some (0, 0)
  pdata := some ⟨0, 0, 0, 0, 0⟩
  filter :=
    { filter := some ⟨0, 0, 0, 0, identityCal⟩
      mx := ⟨some ⟨0, 0, 0, 0, 0⟩, some fun _ ↦ 0, some fun _ ↦ 0⟩
      my := ⟨some ⟨0, 0, 0, 0, 0⟩, some fun _ ↦ 0, some fun _ ↦ 0⟩
      nx := ⟨some ⟨0, 0, 0, 0, 0⟩, some fun _ ↦ 0⟩
      ny := ⟨some ⟨0, 0, 0, 0, 0⟩, some fun _ ↦ 0⟩ }
  event := some ⟨.touchNone, 0, 0⟩

/-- Only the index array of the second median filter is refused. -/
def oneRefusal : ProbeAnswers :=
  { allGranted with
    filter := { allGranted.filter with my := { allGranted.filter.my with index := none } } }

/-- At start-up this refusal leaves a driver without its components. -/
theorem refused_array_is_not_noticed :
    ¬ AllOrNothing calibration oneRefusal ⟨Arena.start, 0, false⟩ := by
  apply not_allOrNothing ⟨rfl, rfl⟩
  rintro ⟨_, ⟨_, ⟨_, _, hindex⟩, _⟩, _⟩
  cases hindex

end K210Firmware.Touch.Setup
