import K210Firmware.CpuUsage.Cleanup
import K210Firmware.CpuUsage.Period

/-!
# The CPU page

The page has a button for every thread that has a usage record when the page is opened. The record
points to the `thread_btn_info` of the button, and that points back to the record. A periodic task
follows the first pointer, and a click on the button follows the second. Both ends are freed
without telling the other one: the info when its button is deleted, and the record when its thread
exits. Moreover, the record of a thread born while the page is open has whatever the allocator left
there for a pointer. Histories that avoid these three events follow live pointers only.
-/

namespace K210Firmware.Gui

open Memory CpuUsage ThreadUsage Transition

/-- The percentages in the label of a chart, and the points of its two series. -/
structure Chart where
  major : Core → UInt8
  minor : Core → UInt8
  series : List (Core → UInt8)

/-- `thread_btn_info_t`, with the values that the two bars show instead of the bars. -/
structure BtnInfo where
  btn : Tid
  bar : Core → UInt8
  chart : Option Chart
  threadInfo : Address

/-- What a refresh shows of a record. -/
def BtnInfo.refresh (info : BtnInfo) (record : ThreadUsage) : BtnInfo :=
  { info with
    bar := record.major
    chart := info.chart.map fun chart ↦
      ⟨record.major, record.minor, chart.series ++ [record.major]⟩ }

/-- The kernel and the threads whose cleanup has run; the `thread_btn_info` blocks, the threads that
have a button, the `user_data` of each button, and whether the page is open. -/
structure CpuPage where
  kernel : Kernel
  reaped : List Tid
  infos : Heap BtnInfo
  buttons : List Tid
  btnUserData : Tid → Address
  opened : Bool

namespace CpuPage

/-- A thread is created, two threads meet in the hook, a thread exits and its cleanup runs, and
its object is removed; the page is opened, a thread button is clicked or deleted, the task runs, and
the page is closed. -/
inductive Event
  | create (tid : Tid)
  | hook (core : Core) (tick : UInt64) (fromThread toThread : Tid) (fromBlock toBlock : Allocation)
  | exit (tid : Tid)
  | remove (tid : Tid)
  | openPage (block : Tid → Address)
  | click (tid : Tid)
  | delete (tid : Tid)
  | refresh
  | closePage

def start (setup : Setup) : CpuPage where
  kernel := (boot setup).kernel
  reaped := []
  infos := Heap.empty
  buttons := []
  btnUserData _ := 0
  opened := false

/-- The loop body of `add_thread_list`; `block` is what `rt_malloc` returns for each thread. -/
def addThread (block : Tid → Address) (page : CpuPage) (tid : Tid) : Except Fault CpuPage :=
  let data := (page.kernel.thread tid).userData
  if data = 0 then return page
  else do
    let record ← page.kernel.heap.load data
    if record.magic ≠ magicNum then return page
    else if block tid = 0 then .error .nullPointer
    else
      return { page with
        kernel := { page.kernel with
          heap := page.kernel.heap.set data (some { record with userData := block tid }) }
        infos := page.infos.set (block tid) (some ⟨tid, 0, none, data⟩)
        buttons := page.buttons ++ [tid]
        btnUserData := Function.update page.btnUserData tid (block tid) }

def addThreadList (block : Tid → Address) (page : CpuPage) : Except Fault CpuPage := do
  let page ← page.kernel.objects.foldlM (addThread block) page
  return { page with opened := true }

/-- The loop body of `refresh_cpu_task`. -/
def refreshThread (kernel : Kernel) (infos : Heap BtnInfo) (tid : Tid) :
    Except Fault (Heap BtnInfo) :=
  let data := (kernel.thread tid).userData
  if data = 0 then return infos
  else do
    let record ← kernel.heap.load data
    if record.magic ≠ magicNum ∨ record.userData = 0 then return infos
    else do
      let info ← infos.load record.userData
      return infos.set record.userData (some (info.refresh record))

def refreshCpuTask (page : CpuPage) : Except Fault CpuPage := do
  let infos ← page.kernel.objects.foldlM (refreshThread page.kernel) page.infos
  return { page with infos }

/-- `cpu_list_btn_cb` for `LV_EVENT_CLICKED`. -/
def click (page : CpuPage) (tid : Tid) : Except Fault CpuPage := do
  let info ← page.infos.load (page.btnUserData tid)
  let data ← page.kernel.heap.load info.threadInfo
  return { page with
    infos := page.infos.set (page.btnUserData tid)
      (some { info with chart := some ⟨data.major, data.minor, []⟩ }) }

/-- `cpu_list_btn_cb` for `LV_EVENT_DELETE`. -/
def deleteBtn (page : CpuPage) (tid : Tid) : Except Fault CpuPage :=
  if page.btnUserData tid = 0 then return { page with buttons := page.buttons.erase tid }
  else do
    let infos ← page.infos.free (page.btnUserData tid)
    return { page with infos, buttons := page.buttons.erase tid }

/-- Closing the page deletes its buttons and the task. -/
def closePage (page : CpuPage) : Except Fault CpuPage := do
  let page ← page.buttons.foldlM deleteBtn page
  return { page with opened := false }

def serve (page : CpuPage) : Event → Except Fault CpuPage
  | .create tid => return { page with kernel := createThread page.kernel tid }
  | .hook core tick fromThread toThread fromBlock toBlock => do
    let kernel ← scheduleHook page.kernel core tick fromThread toThread fromBlock toBlock
    return { page with kernel }
  | .exit tid => do
    let (kernel, _) ← cleanup page.kernel tid
    return { page with kernel, reaped := tid :: page.reaped }
  | .remove tid => return { page with kernel := detach page.kernel tid }
  | .openPage block => addThreadList block page
  | .click tid => click page tid
  | .delete tid => deleteBtn page tid
  | .refresh => refreshCpuTask page
  | .closePage => closePage page

/-- The allocations for the listed threads return different fresh blocks, or fail. -/
structure FreshBlocks (page : CpuPage) (block : Tid → Address) : Prop where
  fresh : ∀ tid ∈ page.kernel.objects, block tid ≠ 0 → page.infos.cell (block tid) = none
  ne : ∀ tid ∈ page.kernel.objects, ∀ other ∈ page.kernel.objects, block tid ≠ 0 →
    block tid = block other → tid = other

def enabled (page : CpuPage) : Event → Prop
  | .create tid => tid ∉ page.kernel.objects ∧ tid ∉ page.reaped ∧
      (page.kernel.thread tid).userData = 0
  | .hook _ _ fromThread toThread fromBlock toBlock =>
      (fromThread ∈ page.kernel.objects ∧ fromThread ∉ page.reaped) ∧
        (toThread ∈ page.kernel.objects ∧ toThread ∉ page.reaped) ∧ fromThread ≠ toThread ∧
        Allocatable page.kernel fromBlock toBlock
  | .exit tid => tid ∈ page.kernel.objects ∧ tid ∉ page.reaped
  | .remove tid => tid ∈ page.reaped
  | .openPage block => page.opened = false ∧ FreshBlocks page block
  | .click tid => tid ∈ page.buttons
  | .delete tid => tid ∈ page.buttons
  | .refresh => page.opened = true
  | .closePage => page.opened = true

def cpuPage : System CpuPage Event Fault where
  enabled := enabled
  step := serve

/-- The address of the info of a button on the page. -/
def OnPage (page : CpuPage) (address : Address) : Prop :=
  ∃ tid ∈ page.buttons, page.btnUserData tid = address

/-- No step touches a dead object. The task finds the infos of the page behind the records, and a
click finds a live record behind the info. -/
def FollowsLive (page : CpuPage) (event : Event) (outcome : Except Fault CpuPage) : Prop :=
  outcome ≠ .error .deadObject ∧
    match event with
    | .refresh => ∀ tid ∈ page.kernel.objects, ∀ record,
        recordOf page.kernel tid = some record → record.userData ≠ 0 →
          OnPage page record.userData ∧ page.infos.cell record.userData ≠ none
    | .click tid => ∃ info, page.infos.cell (page.btnUserData tid) = some info ∧
        info.threadInfo ≠ 0 ∧ page.kernel.heap.cell info.threadInfo ≠ none
    | _ => True

/-- If the hook uses the block for a record, its `user_data` is null or happens to be an info of
the page. -/
def Harmless (page : CpuPage) (tid : Tid) (block : Allocation) : Prop :=
  (page.kernel.thread tid).userData = 0 → ∀ found ∈ block,
    found.2.userData = 0 ∨ OnPage page found.2.userData

/-- No record of a garbage `user_data` is born while the page is open, the list is not walked
between a cleanup and the removal of the thread, no button of an exited thread is clicked, and
no button is deleted alone while a record points to its info. -/
def Tidy (page : CpuPage) : Event → Prop
  | .hook _ _ fromThread toThread fromBlock toBlock => page.opened = true →
      Harmless page fromThread fromBlock ∧ Harmless page toThread toBlock
  | .openPage _ => ∀ tid ∈ page.kernel.objects, ¬ Dangling page.kernel page.reaped tid
  | .refresh => ∀ tid ∈ page.kernel.objects, ¬ Dangling page.kernel page.reaped tid
  | .click tid => tid ∉ page.reaped
  | .delete tid => ∀ other ∈ page.kernel.objects, ∀ record,
      recordOf (page.kernel.without page.reaped) other = some record →
        record.userData ≠ page.btnUserData tid
  | _ => True

/-! ## The invariant -/

/-- Every button has an info of its own that points to the record of its thread, and there are no
other infos. -/
structure Buttons (page : CpuPage) : Prop where
  nodup : page.buttons.Nodup
  nonnull : ∀ tid ∈ page.buttons, page.btnUserData tid ≠ 0 ∧ (page.kernel.thread tid).userData ≠ 0
  live : ∀ tid ∈ page.buttons, (page.infos.cell (page.btnUserData tid)).map BtnInfo.threadInfo =
    some (page.kernel.thread tid).userData
  separate : ∀ tid ∈ page.buttons, ∀ other ∈ page.buttons,
    page.btnUserData tid = page.btnUserData other → tid = other
  owned : ∀ address, page.infos.cell address ≠ none → OnPage page address

/-- The infos at the same addresses, pointing where they pointed before. -/
def SameLinks (before infos : Heap BtnInfo) : Prop :=
  ∀ address, (infos.cell address).map BtnInfo.threadInfo =
    (before.cell address).map BtnInfo.threadInfo

/-- What the record of a thread points to. -/
def Points (page : CpuPage) (tid : Tid) : Prop :=
  ∀ record, recordOf (page.kernel.without page.reaped) tid = some record →
    record.userData = 0 ∨ OnPage page record.userData

structure Sound (page : CpuPage) : Prop where
  installed : Installed (page.kernel.without page.reaped)
  nodup : page.kernel.objects.Nodup
  buttons : Buttons page
  closed : page.opened = false → page.buttons = []
  points : page.opened = true → ∀ tid ∈ page.kernel.objects, Points page tid

variable {page : CpuPage} {tid : Tid}

theorem start_sound (setup : Setup) : Sound (start setup) where
  installed := boot_installed setup
  nodup := setup.nodup
  buttons := ⟨List.nodup_nil, nofun, nofun, nofun, fun _ h ↦ absurd rfl h⟩
  closed _ := rfl
  points := nofun

/-- Buttons keep their infos when the pointers of the infos and of the threads stay. -/
theorem Buttons.congr (h : Buttons page) {kernel : Kernel} {reaped : List Tid}
    {infos : Heap BtnInfo} {opened : Bool}
    (hdata : ∀ tid ∈ page.buttons,
      (kernel.thread tid).userData = (page.kernel.thread tid).userData)
    (hinfos : SameLinks page.infos infos) :
    Buttons { page with kernel, reaped, infos, opened } := by
  refine ⟨h.nodup, fun tid htid ↦ ⟨(h.nonnull tid htid).1, ?_⟩, fun tid htid ↦ ?_, h.separate,
    fun address hlive ↦ ?_⟩
  · change (kernel.thread tid).userData ≠ 0
    rw [hdata tid htid]
    exact (h.nonnull tid htid).2
  · change (infos.cell _).map _ = some (kernel.thread tid).userData
    rw [hinfos, hdata tid htid]
    exact h.live tid htid
  · apply h.owned address
    intro hnone
    have hsame := hinfos address
    rw [hnone, Option.map_none, Option.map_eq_none_iff] at hsame
    exact hlive hsame

theorem Buttons.info_live (h : Buttons page) (htid : tid ∈ page.buttons) :
    ∃ info, page.infos.cell (page.btnUserData tid) = some info ∧
      info.threadInfo = (page.kernel.thread tid).userData :=
  Option.map_eq_some_iff.mp (h.live tid htid)

theorem OnPage.live (h : Buttons page) {address : Address} (haddress : OnPage page address) :
    address ≠ 0 ∧ ∃ info, page.infos.cell address = some info := by
  obtain ⟨tid, htid, rfl⟩ := haddress
  obtain ⟨info, hcell, _⟩ := h.info_live htid
  exact ⟨(h.nonnull tid htid).1, info, hcell⟩

/-! ## The kernel -/

theorem Sound.create (h : Sound page) (hlisted : tid ∉ page.kernel.objects)
    (hnull : (page.kernel.thread tid).userData = 0) :
    Sound { page with kernel := createThread page.kernel tid } := by
  have hdata := userData_createThread hnull
  have hrecord (other : Tid) : recordOf ((createThread page.kernel tid).without page.reaped) other =
      recordOf (page.kernel.without page.reaped) other := by
    by_cases hreaped : other ∈ page.reaped
    · rw [recordOf_without_of_mem hreaped, recordOf_without_of_mem hreaped]
    · rw [recordOf_without hreaped, recordOf_without hreaped, recordOf, recordOf, hdata]
      rfl
  refine ⟨installed_createThread h.installed tid, List.nodup_cons.mpr ⟨hlisted, h.nodup⟩,
    h.buttons.congr (fun other _ ↦ hdata other) fun _ ↦ rfl, h.closed,
    fun hopened other hother record hown ↦ ?_⟩
  have hown : recordOf ((createThread page.kernel tid).without page.reaped) other =
    some record := hown
  rw [hrecord] at hown
  cases hother with
  | head =>
    cases (recordOf_without_of_null hnull).symm.trans hown
  | tail _ hmem => exact h.points hopened other hmem record hown

/-- What a record points to that the hook finds or installs. -/
theorem Sound.points_new (h : Sound page) (hopened : page.opened = true)
    (hlisted : tid ∈ page.kernel.objects) {block : Allocation} (hunreaped : tid ∉ page.reaped)
    (hblock : Harmless page tid block) {init : ThreadUsage → ThreadUsage} {record : ThreadUsage}
    (hrecord : recordOrNew (page.kernel.without page.reaped) tid block init = some record)
    (hinit : ∀ content, (init content).userData = content.userData) :
    record.userData = 0 ∨ OnPage page record.userData := by
  cases hown : recordOf (page.kernel.without page.reaped) tid with
  | some own =>
    obtain rfl : own = record := by simpa [recordOrNew, hown] using hrecord
    exact h.points hopened tid hlisted own hown
  | none =>
    obtain ⟨found, hfound, rfl⟩ : ∃ found ∈ block, init found.2 = record := by
      simpa [recordOrNew, hown] using hrecord
    have hnull := (recordOf_eq_none h.installed).mp hown
    rw [without_thread hunreaped] at hnull
    rw [hinit]
    exact hblock hnull found hfound

/-- The hook, with harmless blocks while the page is open. -/
theorem Sound.hook (h : Sound page) {core : Core} {tick : UInt64} {fromThread toThread : Tid}
    {fromBlock toBlock : Allocation}
    (henabled : enabled page (.hook core tick fromThread toThread fromBlock toBlock))
    (htidy : Tidy page (.hook core tick fromThread toThread fromBlock toBlock)) :
    scheduleHook page.kernel core tick fromThread toThread fromBlock toBlock =
      .error .nullPointer ∨
    ∃ kernel, scheduleHook page.kernel core tick fromThread toThread fromBlock toBlock =
        .ok kernel ∧ Sound { page with kernel } := by
  obtain ⟨hfrom, hto, hne, hblocks⟩ := henabled
  have hhook := hook_without h.installed core tick hfrom.2 hto.2 hne hblocks
  rcases hhook with hfault | ⟨kernel, fromRecord, toRecord, hrun, hfromRecord, htoRecord,
    hinstalled, hobjects, htable⟩
  · exact .inl hfault
  refine .inr ⟨kernel, hrun, hinstalled, hobjects ▸ h.nodup, h.buttons.congr ?_ fun _ ↦ rfl,
    h.closed, fun hopened tid hlisted record hrecord ↦ ?_⟩
  · intro tid htid
    rw [scheduleHook_frame hrun (.inr (h.buttons.nonnull tid htid).2)]
  · have hrecord : recordOf (kernel.without page.reaped) tid = some record := hrecord
    have hblock := htidy hopened
    rw [htable] at hrecord
    rcases switched_cases hne hrecord with ⟨_, rfl⟩ | ⟨_, rfl⟩ | ⟨_, _, hown⟩
    · change toRecord.userData = 0 ∨ OnPage page toRecord.userData
      exact h.points_new hopened hto.1 hto.2 hblock.2 htoRecord fun _ ↦ rfl
    · change fromRecord.userData = 0 ∨ OnPage page fromRecord.userData
      exact h.points_new hopened hfrom.1 hfrom.2 hblock.1 hfromRecord fun _ ↦ rfl
    · rw [hobjects] at hlisted
      exact h.points hopened tid hlisted record hown

/-- A cleanup. -/
theorem Sound.exit (h : Sound page) (hunreaped : tid ∉ page.reaped) :
    ∃ kernel freed, cleanup page.kernel tid = .ok (kernel, freed) ∧
      Sound { page with kernel, reaped := tid :: page.reaped } := by
  obtain ⟨kernel, hrun, hinstalled, hthread, hobjects, hkept⟩ :=
    cleanup_without h.installed hunreaped
  refine ⟨kernel, _, hrun, hinstalled, hobjects ▸ h.nodup, h.buttons.congr ?_ fun _ ↦ rfl,
    h.closed, fun hopened other hlisted record hrecord ↦ ?_⟩
  · intro other _
    rw [hthread]
  · have hrecord : recordOf (kernel.without (tid :: page.reaped)) other = some record := hrecord
    have hother : other ∉ tid :: page.reaped := by
      intro hmem
      cases (recordOf_without_of_mem hmem).symm.trans hrecord
    have hold : other ∉ page.reaped := fun hmem ↦ hother (List.mem_cons_of_mem _ hmem)
    rw [recordOf_without hother, hkept other hother, ← recordOf_without hold] at hrecord
    rw [hobjects] at hlisted
    exact h.points hopened other hlisted record hrecord

theorem Sound.remove (h : Sound page) (tid : Tid) :
    Sound { page with kernel := detach page.kernel tid } where
  installed := h.installed.congr rfl rfl
  nodup := h.nodup.erase tid
  buttons := h.buttons.congr (fun _ _ ↦ rfl) fun _ ↦ rfl
  closed := h.closed
  points hopened other hlisted := h.points hopened other (List.mem_of_mem_erase hlisted)

/-! ## Opening the page -/

/-- While the list is walked, the threads that are left have no button and fresh blocks, and the
others point to the page. -/
structure Adding (first : CpuPage) (block : Tid → Address) (left : List Tid) (page : CpuPage) :
    Prop where
  installed : Installed (page.kernel.without page.reaped)
  buttons : Buttons page
  thread : page.kernel.thread = first.kernel.thread
  objects : page.kernel.objects = first.kernel.objects
  reaped : page.reaped = first.reaped
  nodup : left.Nodup
  listed : ∀ tid ∈ left, tid ∈ first.kernel.objects
  unadded : ∀ tid ∈ left, tid ∉ page.buttons
  fresh : ∀ tid ∈ left, block tid ≠ 0 → page.infos.cell (block tid) = none
  points : ∀ tid ∈ first.kernel.objects, tid ∉ left → Points page tid

/-- A new button with a fresh info that points to the record of its thread. -/
theorem Buttons.add (h : Buttons page) (hnew : tid ∉ page.buttons) {address : Address}
    (hnonnull : address ≠ 0) (hfresh : page.infos.cell address = none)
    (hdata : (page.kernel.thread tid).userData ≠ 0) (heap : Heap ThreadUsage) :
    Buttons { page with
      kernel := { page.kernel with heap }
      infos := page.infos.set address (some ⟨tid, 0, none, (page.kernel.thread tid).userData⟩)
      buttons := page.buttons ++ [tid]
      btnUserData := Function.update page.btnUserData tid address } := by
  have hold {other : Tid} (hother : other ∈ page.buttons) :
      Function.update page.btnUserData tid address other = page.btnUserData other :=
    Function.update_of_ne (ne_of_mem_of_not_mem hother hnew) ..
  have hself : Function.update page.btnUserData tid address tid = address :=
    Function.update_self ..
  have hapart {other : Tid} (hother : other ∈ page.buttons) : page.btnUserData other ≠ address := by
    intro hsame
    have hlive := h.live other hother
    rw [hsame, hfresh] at hlive
    cases hlive
  have hsplit {other : Tid} (hother : other ∈ page.buttons ++ [tid]) :
      other ∈ page.buttons ∨ other = tid := by
    simpa using hother
  refine ⟨?_, fun other hother ↦ ?_, fun other hother ↦ ?_, fun other hother another hanother ↦ ?_,
    fun found hfound ↦ ?_⟩
  · apply h.nodup.append (List.nodup_singleton tid)
    intro other hother hsame
    rw [List.mem_singleton] at hsame
    exact hnew (hsame ▸ hother)
  · change Function.update page.btnUserData tid address other ≠ 0 ∧
      (page.kernel.thread other).userData ≠ 0
    rcases hsplit hother with hmem | rfl
    · rw [hold hmem]
      exact h.nonnull other hmem
    · rw [hself]
      exact ⟨hnonnull, hdata⟩
  · change ((page.infos.set address _).cell
      (Function.update page.btnUserData tid address other)).map _ = _
    rcases hsplit hother with hmem | rfl
    · rw [hold hmem, Heap.cell_set_of_ne (hapart hmem)]
      exact h.live other hmem
    · rw [hself, Heap.cell_set_self]
      rfl
  · change Function.update page.btnUserData tid address other =
      Function.update page.btnUserData tid address another → other = another
    rcases hsplit hother with hmem | rfl <;> rcases hsplit hanother with hmem' | rfl
    · rw [hold hmem, hold hmem']
      exact h.separate other hmem another hmem'
    · rw [hold hmem, hself]
      exact fun hsame ↦ absurd hsame (hapart hmem)
    · rw [hold hmem', hself]
      exact fun hsame ↦ absurd hsame.symm (hapart hmem')
    · exact fun _ ↦ rfl
  · by_cases hone : found = address
    · exact ⟨tid, List.mem_append_right _ (List.mem_singleton_self tid), hself.trans hone.symm⟩
    · have hfound : (page.infos.set address _).cell found ≠ none := hfound
      rw [Heap.cell_set_of_ne hone] at hfound
      obtain ⟨other, hother, hsame⟩ := h.owned found hfound
      exact ⟨other, List.mem_append_left _ hother, (hold hother).trans hsame⟩

/-- `data->user_data = btn_info` in the view of the threads that are not reaped. -/
theorem record_set (h : Installed (page.kernel.without page.reaped)) {record : ThreadUsage}
    (hrecord : recordOf (page.kernel.without page.reaped) tid = some record)
    (hunreaped : tid ∉ page.reaped) (address : Address) :
    let kernel : Kernel := { page.kernel with
      heap := page.kernel.heap.set (page.kernel.thread tid).userData
        (some { record with userData := address }) }
    Installed (kernel.without page.reaped) ∧
      recordOf (kernel.without page.reaped) = Function.update
        (recordOf (page.kernel.without page.reaped)) tid
        (some { record with userData := address }) := by
  have hmodify := modify_spec h hrecord (fun record ↦ { record with userData := address }) rfl
  have hdata := userData_ne_zero h hrecord
  have hcell : (page.kernel.without page.reaped).heap.cell
      ((page.kernel.without page.reaped).thread tid).userData = some record := by
    rwa [recordOf, if_neg hdata] at hrecord
  rw [modify_of_cell hdata hcell (magic_of_recordOf h hrecord), without_thread hunreaped] at hmodify
  obtain ⟨after, hok, _, hwrites⟩ := hmodify
  cases hok
  exact ⟨hwrites.installed, hwrites.table⟩

/-- A thread without a record gets no button. -/
theorem Adding.skip {first : CpuPage} {block : Tid → Address} {left : List Tid}
    (h : Adding first block (tid :: left) page) (hnull : (page.kernel.thread tid).userData = 0) :
    Adding first block left page := by
  refine { h with
    nodup := (List.nodup_cons.mp h.nodup).2
    listed := fun other hother ↦ h.listed other (List.mem_cons_of_mem _ hother)
    unadded := fun other hother ↦ h.unadded other (List.mem_cons_of_mem _ hother)
    fresh := fun other hother ↦ h.fresh other (List.mem_cons_of_mem _ hother)
    points := fun other hother hnew ↦ ?_ }
  by_cases hone : other = tid
  · subst hone
    intro record hrecord
    cases (recordOf_without_of_null hnull).symm.trans hrecord
  · exact h.points other hother (List.not_mem_cons_of_ne_of_not_mem hone hnew)

/-- One round of the loop. -/
theorem Adding.addThread {first : CpuPage} {block : Tid → Address} {left : List Tid}
    (h : Adding first block (tid :: left) page) (hblocks : FreshBlocks first block)
    (htid : ¬ Dangling first.kernel first.reaped tid) :
    addThread block page tid = .error .nullPointer ∨
    ∃ next, addThread block page tid = .ok next ∧ Adding first block left next := by
  have hlisted := h.listed tid (List.mem_cons_self ..)
  have hnodup := List.nodup_cons.mp h.nodup
  have hleft {other : Tid} (hother : other ∈ left) : other ∈ tid :: left :=
    List.mem_cons_of_mem _ hother
  rw [← h.reaped, Dangling, ← h.thread] at htid
  rcases record_cases h.installed htid with hnull |
    ⟨record, hrecord, hunreaped, hdata, hcell, hmagic⟩
  · exact .inr ⟨page, if_pos hnull, h.skip hnull⟩
  · have hload := Heap.load_eq_ok hdata hcell
    by_cases hblock : block tid = 0
    · apply Or.inl
      simp only [CpuPage.addThread, if_neg hdata, hload, ok_bind, hmagic, hblock]
      rfl
    have hfresh := h.fresh tid (List.mem_cons_self ..) hblock
    have hunadded := h.unadded tid (List.mem_cons_self ..)
    obtain ⟨hinstalled, htable⟩ := record_set h.installed hrecord hunreaped (block tid)
    have hbuttons := h.buttons.add hunadded hblock hfresh hdata (page.kernel.heap.set
      (page.kernel.thread tid).userData (some { record with userData := block tid }))
    refine .inr ⟨_, ?_, hinstalled, hbuttons, h.thread, h.objects, h.reaped, hnodup.2,
      fun other hother ↦ h.listed other (hleft hother), fun other hother hmem ↦ ?_,
      fun other hother hnonnull ↦ ?_, fun other hother hnew own hown ↦ ?_⟩
    · simp only [CpuPage.addThread, if_neg hdata, hload, ok_bind, hmagic, if_neg hblock]
      rfl
    · rcases List.mem_append.mp hmem with hold | hlast
      · exact h.unadded other (hleft hother) hold
      · rw [List.mem_singleton] at hlast
        exact hnodup.1 (hlast ▸ hother)
    · have hne : block other ≠ block tid := by
        intro hsame
        have hone := hblocks.ne other (h.listed other (hleft hother)) tid hlisted hnonnull hsame
        exact hnodup.1 (hone ▸ hother)
      exact (Heap.cell_set_of_ne hne _).trans (h.fresh other (hleft hother) hnonnull)
    · have hown : Function.update (recordOf (page.kernel.without page.reaped)) tid
          (some { record with userData := block tid }) other = some own := by
        rw [← htable]
        exact hown
      by_cases hone : other = tid
      · subst hone
        rw [Function.update_self, Option.some.injEq] at hown
        rw [← hown]
        exact .inr ⟨other, List.mem_append_right _ (List.mem_singleton_self other),
          Function.update_self ..⟩
      · rw [Function.update_of_ne hone] at hown
        have hbefore : other ∉ tid :: left := List.not_mem_cons_of_ne_of_not_mem hone hnew
        apply (h.points other hother hbefore own hown).imp_right
        rintro ⟨button, hbutton, hsame⟩
        refine ⟨button, List.mem_append_left _ hbutton, ?_⟩
        exact (Function.update_of_ne (ne_of_mem_of_not_mem hbutton hunadded) ..).trans hsame

/-- **Opening.** Afterwards every record of a listed thread points to its button. -/
theorem Sound.openPage (h : Sound page) {block : Tid → Address} (hclosed : page.opened = false)
    (hblocks : FreshBlocks page block)
    (hlisted : ∀ tid ∈ page.kernel.objects, ¬ Dangling page.kernel page.reaped tid) :
    addThreadList block page = .error .nullPointer ∨
    ∃ next, addThreadList block page = .ok next ∧ Sound next := by
  have hstart : Adding page block page.kernel.objects page := {
    installed := h.installed
    buttons := h.buttons
    thread := rfl
    objects := rfl
    reaped := rfl
    nodup := h.nodup
    listed := fun _ hmem ↦ hmem
    unadded := fun tid _ hmem ↦ by
      rw [h.closed hclosed] at hmem
      exact List.not_mem_nil hmem
    fresh := hblocks.fresh
    points := fun tid hmem hnew ↦ absurd hmem hnew }
  have hround (tid : Tid) (left : List Tid) (state : CpuPage)
      (hadding : Adding page block (tid :: left) state) :=
    hadding.addThread hblocks (hlisted tid (hadding.listed tid (List.mem_cons_self ..)))
  rcases foldlM_rule (Adding page block) hround hstart with hfault | ⟨last, hlast, hadded⟩
  · apply Or.inl
    simp only [addThreadList, hfault]
    rfl
  · refine .inr ⟨{ last with opened := true }, ?_, hadded.installed, hadded.objects ▸ h.nodup,
      hadded.buttons.congr (fun _ _ ↦ rfl) fun _ ↦ rfl, nofun, fun _ tid hmem ↦ ?_⟩
    · simp only [addThreadList, hlast, ok_bind]
      rfl
    · have hmem : tid ∈ page.kernel.objects := hadded.objects ▸ hmem
      exact hadded.points tid hmem List.not_mem_nil

/-! ## Refreshing and clicking -/

/-- Rewriting an info without changing where it points. -/
theorem sameLinks_set {infos : Heap BtnInfo} {address : Address} {info : BtnInfo}
    (hcell : infos.cell address = some info) (changed : BtnInfo)
    (hsame : changed.threadInfo = info.threadInfo) :
    SameLinks infos (infos.set address (some changed)) := by
  intro other
  by_cases hone : other = address
  · rw [hone, Heap.cell_set_self, hcell, Option.map_some, Option.map_some, hsame]
  · rw [Heap.cell_set_of_ne hone]

/-- What the task finds behind a record. -/
theorem Sound.points_live (h : Sound page) (hopened : page.opened = true)
    (hlisted : tid ∈ page.kernel.objects) {record : ThreadUsage}
    (hrecord : recordOf (page.kernel.without page.reaped) tid = some record)
    (hdata : record.userData ≠ 0) :
    OnPage page record.userData ∧ ∃ info, page.infos.cell record.userData = some info := by
  have honPage := (h.points hopened tid hlisted record hrecord).resolve_left hdata
  exact ⟨honPage, (honPage.live h.buttons).2⟩

/-- One round of the task. -/
theorem Sound.refreshThread (h : Sound page) (hopened : page.opened = true)
    (hlisted : tid ∈ page.kernel.objects) (htid : ¬ Dangling page.kernel page.reaped tid)
    {infos : Heap BtnInfo} (hinfos : SameLinks page.infos infos) :
    ∃ next, refreshThread page.kernel infos tid = .ok next ∧ SameLinks page.infos next := by
  rcases record_cases h.installed htid with hnull | ⟨record, hrecord, _, hdata, hcell, hmagic⟩
  · exact ⟨infos, if_pos hnull, hinfos⟩
  · have hload := Heap.load_eq_ok hdata hcell
    by_cases hnone : record.userData = 0
    · refine ⟨infos, ?_, hinfos⟩
      simp only [CpuPage.refreshThread, if_neg hdata, hload, ok_bind, hnone]
      exact if_pos (.inr trivial)
    · obtain ⟨_, info, hinfo⟩ := h.points_live hopened hlisted hrecord hnone
      have hsame := hinfos record.userData
      rw [hinfo, Option.map_some, Option.map_eq_some_iff] at hsame
      obtain ⟨shown, hshown, _⟩ := hsame
      refine ⟨infos.set record.userData (some (shown.refresh record)), ?_, fun address ↦ ?_⟩
      · simp only [CpuPage.refreshThread, if_neg hdata, hload, ok_bind, hmagic, hnone,
          Heap.load_eq_ok hnone hshown]
        rfl
      · calc ((infos.set record.userData (some (shown.refresh record))).cell address).map
              BtnInfo.threadInfo
            = (infos.cell address).map BtnInfo.threadInfo :=
              sameLinks_set hshown (shown.refresh record) rfl address
          _ = (page.infos.cell address).map BtnInfo.threadInfo := hinfos address

/-- Infos that point where they pointed before. -/
theorem Sound.setInfos (h : Sound page) {infos : Heap BtnInfo}
    (hinfos : SameLinks page.infos infos) : Sound { page with infos } where
  installed := h.installed
  nodup := h.nodup
  buttons := h.buttons.congr (fun _ _ ↦ rfl) hinfos
  closed := h.closed
  points := h.points

/-- **The task** rewrites infos of the page and nothing else. -/
theorem Sound.refresh (h : Sound page) (hopened : page.opened = true)
    (hlisted : ∀ tid ∈ page.kernel.objects, ¬ Dangling page.kernel page.reaped tid) :
    refreshCpuTask page = .error .nullPointer ∨
    ∃ next, refreshCpuTask page = .ok next ∧ Sound next := by
  have hround (tid : Tid) (left : List Tid) (infos : Heap BtnInfo)
      (hinfos : (∀ other ∈ tid :: left, other ∈ page.kernel.objects) ∧ SameLinks page.infos infos) :
      CpuPage.refreshThread page.kernel infos tid = .error .nullPointer ∨
      ∃ next, CpuPage.refreshThread page.kernel infos tid = .ok next ∧
        (∀ other ∈ left, other ∈ page.kernel.objects) ∧ SameLinks page.infos next := by
    have hmem := hinfos.1 tid (List.mem_cons_self ..)
    obtain ⟨next, hnext, hsame⟩ := h.refreshThread hopened hmem (hlisted tid hmem) hinfos.2
    exact .inr ⟨next, hnext, fun other hother ↦ hinfos.1 other (List.mem_cons_of_mem _ hother),
      hsame⟩
  rcases foldlM_rule (fun left infos ↦ (∀ other ∈ left, other ∈ page.kernel.objects) ∧
      SameLinks page.infos infos) hround ⟨fun _ hmem ↦ hmem, fun _ ↦ rfl⟩ with
    hfault | ⟨infos, hrun, _, hsame⟩
  · apply Or.inl
    simp only [refreshCpuTask, hfault]
    rfl
  · refine .inr ⟨{ page with infos }, ?_, h.setInfos hsame⟩
    simp only [refreshCpuTask, hrun, ok_bind]
    rfl

/-- The record behind a button whose thread has not exited. -/
theorem Sound.button_record (h : Sound page) (htid : tid ∈ page.buttons)
    (hunreaped : tid ∉ page.reaped) :
    ∃ info record, page.infos.cell (page.btnUserData tid) = some info ∧ info.threadInfo ≠ 0 ∧
      page.kernel.heap.cell info.threadInfo = some record := by
  have hnonnull := (h.buttons.nonnull tid htid).2
  have hlive := h.installed.live tid
  rw [without_thread hunreaped] at hlive
  obtain ⟨info, hinfo, hsame⟩ := h.buttons.info_live htid
  obtain ⟨record, hcell, _⟩ := hlive hnonnull
  rw [← hsame] at hnonnull hcell
  exact ⟨info, record, hinfo, hnonnull, hcell⟩

theorem Sound.click (h : Sound page) (htid : tid ∈ page.buttons) (hunreaped : tid ∉ page.reaped) :
    ∃ next, click page tid = .ok next ∧ Sound next := by
  obtain ⟨info, record, hinfo, hnonnull, hcell⟩ := h.button_record htid hunreaped
  refine ⟨_, ?_, h.setInfos (sameLinks_set hinfo
    { info with chart := some ⟨record.major, record.minor, []⟩ } rfl)⟩
  simp only [CpuPage.click, Heap.load_eq_ok (h.buttons.nonnull tid htid).1 hinfo, ok_bind,
    Heap.load_eq_ok hnonnull hcell]
  rfl

/-! ## Deleting buttons -/

/-- A deleted button takes its own info with it. -/
theorem Buttons.delete (h : Buttons page) (htid : tid ∈ page.buttons) :
    ∃ infos, deleteBtn page tid = .ok { page with infos, buttons := page.buttons.erase tid } ∧
      Buttons { page with infos, buttons := page.buttons.erase tid } := by
  have hnonnull := (h.nonnull tid htid).1
  obtain ⟨info, hinfo, _⟩ := h.info_live htid
  have hsplit {other : Tid} (hother : other ∈ page.buttons.erase tid) :
      other ≠ tid ∧ other ∈ page.buttons :=
    h.nodup.mem_erase_iff.mp hother
  have hapart {other : Tid} (hother : other ∈ page.buttons.erase tid) :
      page.btnUserData other ≠ page.btnUserData tid := fun hsame ↦
    (hsplit hother).1 (h.separate other (hsplit hother).2 tid htid hsame)
  refine ⟨page.infos.set (page.btnUserData tid) none, ?_, h.nodup.erase tid,
    fun other hother ↦ h.nonnull other (hsplit hother).2, fun other hother ↦ ?_,
    fun other hother another hanother ↦
      h.separate other (hsplit hother).2 another (hsplit hanother).2,
    fun address hlive ↦ ?_⟩
  · simp only [deleteBtn, if_neg hnonnull, Heap.free_eq_ok hnonnull hinfo, ok_bind]
    rfl
  · change ((page.infos.set _ none).cell (page.btnUserData other)).map _ = _
    rw [Heap.cell_set_of_ne (hapart hother)]
    exact h.live other (hsplit hother).2
  · have hlive : (page.infos.set (page.btnUserData tid) none).cell address ≠ none := hlive
    have hne : address ≠ page.btnUserData tid := by
      intro hsame
      subst hsame
      exact hlive (Heap.cell_set_self none)
    rw [Heap.cell_set_of_ne hne] at hlive
    obtain ⟨other, hother, hsame⟩ := h.owned address hlive
    have hdifferent : other ≠ tid := by
      intro hsame
      subst hsame
      exact hne hsame.symm
    exact ⟨other, h.nodup.mem_erase_iff.mpr ⟨hdifferent, hother⟩, hsame⟩

theorem Sound.delete (h : Sound page) (htid : tid ∈ page.buttons)
    (htidy : Tidy page (.delete tid)) : ∃ next, deleteBtn page tid = .ok next ∧ Sound next := by
  obtain ⟨infos, hrun, hbuttons⟩ := h.buttons.delete htid
  refine ⟨_, hrun, h.installed, h.nodup, hbuttons, fun hclosed ↦ ?_,
    fun hopened other hlisted record hrecord ↦ ?_⟩
  · rw [h.closed hclosed] at htid
    exact absurd htid List.not_mem_nil
  · have hne := htidy other hlisted record hrecord
    apply (h.points hopened other hlisted record hrecord).imp_right
    rintro ⟨button, hbutton, hsame⟩
    have hdifferent : button ≠ tid := by
      intro hsame
      subst hsame
      exact hne hsame.symm
    exact ⟨button, h.buttons.nodup.mem_erase_iff.mpr ⟨hdifferent, hbutton⟩, hsame⟩

/-- **Closing** deletes every button with its info. -/
theorem Sound.closePage (h : Sound page) :
    closePage page = .error .nullPointer ∨ ∃ next, closePage page = .ok next ∧ Sound next := by
  have hround (tid : Tid) (left : List Tid) (state : CpuPage)
      (hstate : Buttons state ∧ state.buttons = tid :: left ∧ state.kernel = page.kernel ∧
        state.reaped = page.reaped) :
      deleteBtn state tid = .error .nullPointer ∨
      ∃ next, deleteBtn state tid = .ok next ∧ Buttons next ∧ next.buttons = left ∧
        next.kernel = page.kernel ∧ next.reaped = page.reaped := by
    obtain ⟨hbuttons, hleft, hkernel, hreaped⟩ := hstate
    have htid : tid ∈ state.buttons := by
      rw [hleft]
      exact List.mem_cons_self ..
    obtain ⟨infos, hrun, hnext⟩ := hbuttons.delete htid
    refine .inr ⟨_, hrun, hnext, ?_, hkernel, hreaped⟩
    change state.buttons.erase tid = left
    rw [hleft, List.erase_cons_head]
  rcases foldlM_rule (fun left state ↦ Buttons state ∧ state.buttons = left ∧
      state.kernel = page.kernel ∧ state.reaped = page.reaped) hround
      ⟨h.buttons, rfl, rfl, rfl⟩ with
    hfault | ⟨last, hlast, hrest⟩
  · apply Or.inl
    simp only [CpuPage.closePage, hfault]
    rfl
  · obtain ⟨hbuttons, hempty, hkernel, hreaped⟩ := hrest
    refine .inr ⟨{ last with opened := false }, ?_, ?_, hkernel ▸ h.nodup,
      hbuttons.congr (fun _ _ ↦ rfl) fun _ ↦ rfl, fun _ ↦ hempty, nofun⟩
    · simp only [CpuPage.closePage, hlast, ok_bind]
      rfl
    · change Installed (last.kernel.without last.reaped)
      rw [hkernel, hreaped]
      exact h.installed

/-! ## Histories -/

/-- **One step.** A tidy step keeps the pointers and touches no dead object. -/
theorem serve_sound (h : Sound page) {event : Event} (henabled : enabled page event)
    (htidy : Tidy page event) :
    serve page event = .error .nullPointer ∨ ∃ next, serve page event = .ok next ∧ Sound next := by
  cases event with
  | create tid => exact .inr ⟨_, rfl, h.create henabled.1 henabled.2.2⟩
  | hook core tick fromThread toThread fromBlock toBlock =>
    rcases h.hook henabled htidy with hfault | ⟨kernel, hrun, hsound⟩
    · apply Or.inl
      simp only [serve, hfault]
      rfl
    · refine .inr ⟨{ page with kernel }, ?_, hsound⟩
      simp only [serve, hrun, ok_bind]
      rfl
  | exit tid =>
    obtain ⟨kernel, freed, hrun, hsound⟩ := h.exit henabled.2
    refine .inr ⟨{ page with kernel, reaped := tid :: page.reaped }, ?_, hsound⟩
    simp only [serve, hrun, ok_bind]
    rfl
  | remove tid => exact .inr ⟨_, rfl, h.remove tid⟩
  | openPage block => exact h.openPage henabled.1 henabled.2 htidy
  | click tid => exact .inr (h.click henabled htidy)
  | delete tid => exact .inr (h.delete henabled htidy)
  | refresh => exact h.refresh henabled htidy
  | closePage => exact h.closePage

theorem followsLive_of_sound (h : Sound page) {event : Event} (henabled : enabled page event)
    (htidy : Tidy page event) : FollowsLive page event (serve page event) := by
  constructor
  · rcases serve_sound h henabled htidy with hfault | ⟨next, hstep, _⟩
    · rw [hfault]
      nofun
    · rw [hstep]
      nofun
  · cases event with
    | refresh =>
      intro tid hlisted record hrecord hdata
      have hview : recordOf (page.kernel.without page.reaped) tid = some record := by
        rcases record_cases h.installed (htidy tid hlisted) with hnull | ⟨_, _, hunreaped, _⟩
        · cases (if_pos hnull).symm.trans hrecord
        · rwa [recordOf_without hunreaped]
      obtain ⟨honPage, info, hinfo⟩ := h.points_live henabled hlisted hview hdata
      refine ⟨honPage, ?_⟩
      rw [hinfo]
      nofun
    | click tid =>
      obtain ⟨info, record, hinfo, hnonnull, hcell⟩ := h.button_record henabled htidy
      refine ⟨info, hinfo, hnonnull, ?_⟩
      rw [hcell]
      nofun
    | _ => trivial

/-- **Live pointers.** In every tidy history of threads and page, the task and the clicks follow
pointers to live objects only. -/
theorem followsLive_always (setup : Setup) (events : List Event)
    (htidy : cpuPage.Guarded Tidy (start setup) events) :
    cpuPage.Always FollowsLive (start setup) events := by
  apply System.Always.of_outcomes .nullPointer _ _ (start_sound setup) htidy
  · exact fun _ _ hsound henabled htidy ↦ followsLive_of_sound hsound henabled htidy
  · exact fun _ _ hsound henabled htidy ↦ serve_sound hsound henabled htidy

/-- A block for the info of each thread. -/
def blocks (tid : Tid) : Address := 64 + 16 * tid

theorem blocks_fresh (hinfos : page.infos = Heap.empty) : FreshBlocks page blocks where
  fresh tid _ _ := by
    rw [hinfos]
    rfl
  ne tid _ other _ _ hsame :=
    Nat.eq_of_mul_eq_mul_left (by decide : 0 < 16) (Nat.add_left_cancel hsame)

/-- Two threads get records, the page is opened and refreshed, the button of thread 2 is clicked,
and the page is refreshed and closed. -/
def quietVisit : List Event :=
  [.hook 0 10 0 2 (some (16, zero)) (some (32, zero)), .openPage blocks, .refresh, .click 2,
    .refresh, .closePage]

theorem quiet_visit_follows_live :
    (∃ last, cpuPage.Run (start threeThreads) quietVisit last) ∧
      cpuPage.Always FollowsLive (start threeThreads) quietVisit := by
  constructor
  · have hhook : enabled (start threeThreads)
        (.hook 0 10 0 2 (some (16, zero)) (some (32, zero))) := by
      refine ⟨by decide, by decide, by decide, ?_, ?_, ?_⟩ <;>
        simp [start, boot, Heap.Fresh, Heap.empty]
    have hclick : (2 : Tid) ∈ ([0, 2] : List Tid) := by decide
    exact ⟨_, .cons hhook rfl (.cons ⟨rfl, blocks_fresh rfl⟩ rfl (.cons (Eq.refl true) rfl
      (.cons hclick rfl (.cons (Eq.refl true) rfl (.cons (Eq.refl true) rfl (.nil _))))))⟩
  · have hlisted (kernel : Kernel) : ∀ tid ∈ kernel.objects, ¬ Dangling kernel [] tid :=
      fun _ _ hdangling ↦ List.not_mem_nil hdangling.1
    apply followsLive_always
    exact System.Always.cons rfl Bool.noConfusion (System.Always.cons rfl (hlisted _)
      (System.Always.cons rfl (hlisted _) (System.Always.cons rfl List.not_mem_nil
        (System.Always.cons rfl (hlisted _) (System.Always.cons rfl trivial trivial)))))

/-- What an allocator may hand out: a block with something left in the place of `user_data`. -/
def leftover : ThreadUsage := { zero with userData := 48 }

/-- A thread is born while the page is open. -/
def bornOnPage : List Event :=
  [.openPage blocks, .hook 0 10 0 2 (some (16, leftover)) (some (32, zero))]

/-- The task follows what the allocator left in the record of a thread born on the page. -/
theorem refresh_follows_leftover :
    ¬ cpuPage.Always FollowsLive (start threeThreads) (bornOnPage ++ [.refresh]) := by
  intro h
  have hopen : enabled (start threeThreads) (.openPage blocks) := ⟨rfl, blocks_fresh rfl⟩
  have hhook : enabled { start threeThreads with opened := true }
      (.hook 0 10 0 2 (some (16, leftover)) (some (32, zero))) := by
    refine ⟨by decide, by decide, by decide, ?_, ?_, ?_⟩ <;>
      simp [start, boot, Heap.Fresh, Heap.empty]
  have hlast := System.always_iff_forall_run.mp h bornOnPage .refresh [] _ rfl
    (.cons hopen rfl (.cons hhook rfl (.nil _))) rfl
  exact hlast.1 rfl

end CpuPage

end K210Firmware.Gui
