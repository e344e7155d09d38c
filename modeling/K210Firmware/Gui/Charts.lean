import K210Firmware.Gui.CpuPage

/-!
# Chart windows

A click on a thread button opens a chart window for the thread, also if there is one already, and
`btn_info` remembers the latest one only. The close button of a window clears this slot whichever
window it belongs to. `charted_iff` says that the charts are kept up exactly when no task runs and
no window closes while its thread has several.

The CPU page of `CpuPage` keeps a chart inside its `btn_info`; `view_refreshThread` and
`view_click` say that this is what one sees through the pointer.
-/

namespace K210Firmware.Gui.Charts

open Memory CpuUsage Transition

/-- A chart window: the thread whose `btn_info` its close button has, the percentages in the label,
and the points appended to the two series. -/
structure Window where
  tid : Tid
  major : Core → UInt8
  minor : Core → UInt8
  series : List (Core → UInt8)

/-- The bars of a button, and the window to which `chart`, `chart_label` and `cpu_ser` point; these
are set together and cleared together. -/
structure ThreadBtnInfo where
  bar : Core → UInt8
  chart : Address

/-- An open CPU page with its thread buttons and the open chart windows. -/
structure ChartPage where
  info : Tid → ThreadBtnInfo
  windows : Heap Window

/-- `add_thread_list` has cleared every `btn_info`. -/
def opened : ChartPage := ⟨fun _ ↦ ⟨0, 0⟩, .empty⟩

/-- `cpu_list_btn_cb` for `LV_EVENT_CLICKED`, with the record of the thread. -/
def cpuListBtnCb (page : ChartPage) (tid : Tid) (window : Address) (data : ThreadUsage) :
    ChartPage where
  info := Function.update page.info tid { page.info tid with chart := window }
  windows := page.windows.set window (some ⟨tid, data.major, data.minor, []⟩)

/-- `chart_close_btn_cb` for `LV_EVENT_CLICKED`. -/
def chartCloseBtnCb (page : ChartPage) (cont : Address) : Except Fault ChartPage := do
  let window ← page.windows.load cont
  let windows ← page.windows.free cont
  return {
    info := Function.update page.info window.tid { page.info window.tid with chart := 0 }
    windows }

/-- `lv_bar_set_value`, for both bars. -/
def lvBarSetValue (page : ChartPage) (tid : Tid) (data : ThreadUsage) : ChartPage :=
  { page with info := Function.update page.info tid { page.info tid with bar := data.major } }

/-- `lv_label_set_text_fmt` on the label, and `lv_chart_set_next` on both series. -/
def Window.setNext (window : Window) (data : ThreadUsage) : Window :=
  { window with
    major := data.major
    minor := data.minor
    series := window.series ++ [data.major] }

/-- The loop body of `refresh_cpu_task` for a thread with a button, with its record. -/
def refreshThread (page : ChartPage) (entry : Tid × ThreadUsage) : Except Fault ChartPage := do
  let (tid, data) := entry
  let page := lvBarSetValue page tid data
  let chart := (page.info tid).chart
  if chart ≠ 0 then
    let window ← page.windows.load chart
    return { page with windows := page.windows.set chart (some (window.setNext data)) }
  else return page

/-- A thread button is clicked and a window opens at a new address, the close button of a window is
clicked, and the task runs over the threads that have a button and a record. -/
inductive Event
  | click (tid : Tid) (window : Address) (data : ThreadUsage)
  | close (window : Address)
  | refresh (threads : List (Tid × ThreadUsage))

def enabled (page : ChartPage) : Event → Prop
  | .click _ window _ => page.windows.Fresh window
  | .close window => window ≠ 0 ∧ page.windows.cell window ≠ none
  | .refresh threads => (threads.map Prod.fst).Nodup

def serve (page : ChartPage) : Event → Except Fault ChartPage
  | .click tid window data => .ok (cpuListBtnCb page tid window data)
  | .close window => chartCloseBtnCb page window
  | .refresh threads => threads.foldlM refreshThread page

def charts : System ChartPage Event Fault where
  enabled := enabled
  step := serve

/-! ## The windows of the threads -/

/-- The window at the address is open and belongs to the thread. -/
def OpenFor (page : ChartPage) (tid : Tid) (address : Address) : Prop :=
  ∃ window, page.windows.cell address = some window ∧ window.tid = tid

/-- The current percentages of the thread, if the task finds it. -/
def current (threads : List (Tid × ThreadUsage)) (tid : Tid) : List (Core → UInt8) :=
  (threads.filter fun entry ↦ entry.1 = tid).map fun entry ↦ entry.2.major

/-- A refresh appends the current percentages to every open window, and afterwards the slot of a
thread is null if and only if the thread has no open window. -/
def Charted (page : ChartPage) (event : Event) (outcome : Except Fault ChartPage) : Prop :=
  ∃ after, outcome = .ok after ∧
    (∀ tid, (after.info tid).chart = 0 ↔ ∀ address, ¬ OpenFor after tid address) ∧
    ∀ threads, event = .refresh threads → ∀ address window,
      page.windows.cell address = some window → ∃ shown,
        after.windows.cell address = some shown ∧
          shown.series = window.series ++ current threads window.tid

/-- The thread has at most one open window. -/
def Single (page : ChartPage) (tid : Tid) : Prop :=
  ∀ first second, OpenFor page tid first → OpenFor page tid second → first = second

/-- No window closes, and no thread is refreshed, while its thread has several windows. -/
def Apart (page : ChartPage) : Event → Prop
  | .click _ _ _ => True
  | .close window => ∀ tid, OpenFor page tid window → Single page tid
  | .refresh threads => ∀ entry ∈ threads, Single page entry.1

/-! ## The invariant -/

/-- A slot that is not null points to an open window of its thread. -/
structure Tracked (page : ChartPage) : Prop where
  nonnull : page.windows.cell 0 = none
  points : ∀ tid, (page.info tid).chart ≠ 0 → OpenFor page tid (page.info tid).chart
  found : ∀ tid address, OpenFor page tid address → (page.info tid).chart ≠ 0

variable {page after : ChartPage} {tid : Tid} {address : Address}

/-- A window belongs to one thread. -/
theorem OpenFor.unique {other : Tid} (h : OpenFor page tid address)
    (hother : OpenFor page other address) : tid = other := by
  obtain ⟨window, hcell, rfl⟩ := h
  obtain ⟨found, hfound, rfl⟩ := hother
  rw [Option.some.inj (hcell.symm.trans hfound)]

theorem opened_tracked : Tracked opened where
  nonnull := rfl
  points _ h := absurd rfl h
  found _ _ := by
    rintro ⟨_, hcell, _⟩
    cases hcell

theorem Tracked.chart_iff (h : Tracked page) (tid : Tid) :
    (page.info tid).chart = 0 ↔ ∀ address, ¬ OpenFor page tid address := by
  constructor
  · exact fun hnull address hopen ↦ h.found tid address hopen hnull
  · intro hnone
    by_contra hchart
    exact hnone _ (h.points tid hchart)

/-- The only window of a thread is the one in the slot. -/
theorem Tracked.eq_chart (h : Tracked page) (hsingle : Single page tid)
    (hopen : OpenFor page tid address) : address = (page.info tid).chart :=
  hsingle _ _ hopen (h.points tid (h.found tid address hopen))

/-! ## The task -/

/-- The slots stay, the windows stay, and the window in the slot of a thread shows more values. -/
structure Shows (page after : ChartPage) (values : Tid → List (Core → UInt8)) : Prop where
  chart : ∀ tid, (after.info tid).chart = (page.info tid).chart
  closed : ∀ address, page.windows.cell address = none → after.windows.cell address = none
  shown : ∀ address window, page.windows.cell address = some window → ∃ shown,
    after.windows.cell address = some shown ∧ shown.tid = window.tid ∧
      shown.series = window.series ++
        if (page.info window.tid).chart = address then values window.tid else []

theorem Shows.refl (page : ChartPage) : Shows page page fun _ ↦ [] where
  chart _ := rfl
  closed _ h := h
  shown _ window h := ⟨window, h, rfl, by simp⟩

theorem Shows.trans {last : ChartPage} {values others : Tid → List (Core → UInt8)}
    (h : Shows page after values) (hlast : Shows after last others) :
    Shows page last fun tid ↦ values tid ++ others tid where
  chart tid := (hlast.chart tid).trans (h.chart tid)
  closed address hcell := hlast.closed address (h.closed address hcell)
  shown address window hcell := by
    obtain ⟨middle, hmiddle, htid, hseries⟩ := h.shown address window hcell
    obtain ⟨shown, hshown, hlastTid, hlastSeries⟩ := hlast.shown address middle hmiddle
    refine ⟨shown, hshown, hlastTid.trans htid, ?_⟩
    rw [hlastSeries, hseries, htid, h.chart, List.append_assoc]
    split_ifs <;> simp

theorem Shows.openFor_iff {values : Tid → List (Core → UInt8)} (h : Shows page after values) :
    OpenFor after tid address ↔ OpenFor page tid address := by
  constructor
  · rintro ⟨shown, hshown, hshownTid⟩
    cases hcell : page.windows.cell address with
    | none => cases (h.closed address hcell).symm.trans hshown
    | some window =>
      obtain ⟨found, hfound, htid, _⟩ := h.shown address window hcell
      obtain rfl : found = shown := Option.some.inj (hfound.symm.trans hshown)
      exact ⟨window, hcell, htid.symm.trans hshownTid⟩
  · rintro ⟨window, hcell, hwindow⟩
    obtain ⟨shown, hshown, htid, _⟩ := h.shown address window hcell
    exact ⟨shown, hshown, htid.trans hwindow⟩

theorem Shows.tracked {values : Tid → List (Core → UInt8)} (h : Shows page after values)
    (htracked : Tracked page) : Tracked after where
  nonnull := h.closed 0 htracked.nonnull
  points tid hchart := by
    rw [h.chart] at hchart ⊢
    exact h.openFor_iff.mpr (htracked.points tid hchart)
  found tid address hopen := by
    rw [h.chart]
    exact htracked.found tid address (h.openFor_iff.mp hopen)

theorem lvBarSetValue_chart (page : ChartPage) (tid : Tid) (data : ThreadUsage) (other : Tid) :
    ((lvBarSetValue page tid data).info other).chart = (page.info other).chart := by
  by_cases hone : other = tid
  · simp [lvBarSetValue, hone]
  · simp [lvBarSetValue, hone]

theorem refreshThread_null {data : ThreadUsage} (hnull : (page.info tid).chart = 0) :
    refreshThread page (tid, data) = .ok (lvBarSetValue page tid data) := by
  simp only [refreshThread, lvBarSetValue_chart, hnull]
  rfl

theorem refreshThread_window {data : ThreadUsage} {window : Window}
    (hchart : (page.info tid).chart ≠ 0)
    (hcell : page.windows.cell (page.info tid).chart = some window) :
    refreshThread page (tid, data) = .ok { lvBarSetValue page tid data with
      windows := page.windows.set (page.info tid).chart (some (window.setNext data)) } := by
  have hload : (lvBarSetValue page tid data).windows.load (page.info tid).chart = .ok window :=
    Heap.load_eq_ok hchart hcell
  simp only [refreshThread, lvBarSetValue_chart, if_pos hchart, hload]
  rfl

/-- **One thread.** The window in its slot shows its percentages. -/
theorem refreshThread_spec (h : Tracked page) (entry : Tid × ThreadUsage) :
    ∃ after, refreshThread page entry = .ok after ∧ Shows page after (current [entry]) := by
  obtain ⟨tid, data⟩ := entry
  have hcurrent (other : Tid) : current [(tid, data)] other =
      if tid = other then [data.major] else [] := by
    by_cases hone : tid = other
    · simp [current, hone]
    · simp [current, hone]
  by_cases hnull : (page.info tid).chart = 0
  · refine ⟨_, refreshThread_null hnull, lvBarSetValue_chart page tid data, fun _ h ↦ h,
      fun address window hcell ↦ ⟨window, hcell, rfl, ?_⟩⟩
    have hother : tid ≠ window.tid := by
      rintro rfl
      exact h.found window.tid address ⟨window, hcell, rfl⟩ hnull
    rw [hcurrent, if_neg hother, ite_self, List.append_nil]
  · obtain ⟨window, hcell, hwindow⟩ := h.points tid hnull
    refine ⟨_, refreshThread_window hnull hcell, lvBarSetValue_chart page tid data,
      fun address hnone ↦ ?_, fun address other hother ↦ ?_⟩
    · have hne : address ≠ (page.info tid).chart := by
        rintro rfl
        cases hnone.symm.trans hcell
      exact (Heap.cell_set_of_ne hne _).trans hnone
    · by_cases hone : address = (page.info tid).chart
      · subst hone
        obtain rfl : window = other := Option.some.inj (hcell.symm.trans hother)
        refine ⟨window.setNext data, Heap.cell_set_self _, rfl, ?_⟩
        rw [hcurrent, hwindow, if_pos rfl, if_pos rfl]
        rfl
      · refine ⟨other, (Heap.cell_set_of_ne hone _).trans hother, rfl, ?_⟩
        rw [hcurrent]
        by_cases hsame : tid = other.tid
        · rw [← hsame, if_neg (Ne.symm hone), List.append_nil]
        · rw [if_neg hsame, ite_self, List.append_nil]

/-- **The task.** Every window in a slot shows the percentages of its thread. -/
theorem refresh_spec (h : Tracked page) (threads : List (Tid × ThreadUsage)) :
    ∃ after, threads.foldlM refreshThread page = .ok after ∧
      Shows page after (current threads) := by
  induction threads generalizing page with
  | nil => exact ⟨page, rfl, .refl page⟩
  | cons entry threads ih =>
    obtain ⟨middle, hmiddle, hfirst⟩ := refreshThread_spec h entry
    obtain ⟨after, hafter, hrest⟩ := ih (hfirst.tracked h)
    refine ⟨after, by rw [List.foldlM_cons, hmiddle, ok_bind, hafter], ?_⟩
    have hsplit : current (entry :: threads) =
        fun tid ↦ current [entry] tid ++ current threads tid := by
      funext tid
      simp only [current, ← List.map_append, ← List.filter_append]
      rfl
    rw [hsplit]
    exact hfirst.trans hrest

theorem current_ne_nil {threads : List (Tid × ThreadUsage)} {entry : Tid × ThreadUsage}
    (hentry : entry ∈ threads) : current threads entry.1 ≠ [] := by
  intro hnil
  rw [current, List.map_eq_nil_iff, List.filter_eq_nil_iff] at hnil
  exact hnil entry hentry (by simp)

theorem current_eq_nil {threads : List (Tid × ThreadUsage)} (h : ∀ entry ∈ threads, entry.1 ≠ tid) :
    current threads tid = [] := by
  rw [current, List.map_eq_nil_iff, List.filter_eq_nil_iff]
  intro entry hentry hsame
  exact h entry hentry (of_decide_eq_true hsame)

/-- **A refresh** reaches all windows exactly if no refreshed thread has several. -/
theorem charted_refresh_iff (h : Tracked page) {threads : List (Tid × ThreadUsage)}
    (hshows : Shows page after (current threads)) :
    Charted page (.refresh threads) (.ok after) ↔ Apart page (.refresh threads) := by
  constructor
  · rintro ⟨other, hother, _, hseries⟩ entry hentry
    obtain rfl : after = other := Except.ok.inj hother
    have hslot (address : Address) (hopen : OpenFor page entry.1 address) :
        (page.info entry.1).chart = address := by
      obtain ⟨window, hcell, hwindow⟩ := hopen
      obtain ⟨shown, hshown, _, happended⟩ := hshows.shown address window hcell
      obtain ⟨found, hfound, hall⟩ := hseries threads rfl address window hcell
      obtain rfl : found = shown := Option.some.inj (hfound.symm.trans hshown)
      by_contra hne
      rw [happended, hwindow, if_neg hne, List.append_right_inj] at hall
      exact current_ne_nil hentry hall.symm
    exact fun first second hfirst hsecond ↦ (hslot first hfirst).symm.trans (hslot second hsecond)
  · intro hapart
    refine ⟨after, rfl, (hshows.tracked h).chart_iff, ?_⟩
    rintro _ ⟨⟩ address window hcell
    obtain ⟨shown, hshown, _, hseries⟩ := hshows.shown address window hcell
    refine ⟨shown, hshown, hseries.trans ?_⟩
    by_cases hlisted : ∃ entry ∈ threads, entry.1 = window.tid
    · obtain ⟨entry, hentry, htid⟩ := hlisted
      have hopen : OpenFor page entry.1 address := ⟨window, hcell, htid.symm⟩
      have hslot := h.eq_chart (hapart entry hentry) hopen
      rw [htid] at hslot
      rw [if_pos hslot.symm]
    · rw [current_eq_nil fun entry hentry htid ↦ hlisted ⟨entry, hentry, htid⟩, ite_self]

/-! ## Clicks -/

/-- A new window takes the slot of its thread. -/
theorem Tracked.click (h : Tracked page) {window : Address} (hfresh : page.windows.Fresh window)
    (tid : Tid) (data : ThreadUsage) : Tracked (cpuListBtnCb page tid window data) := by
  have hself : OpenFor (cpuListBtnCb page tid window data) tid window :=
    ⟨_, Heap.cell_set_self _, rfl⟩
  have hold {other : Tid} {address : Address} (hne : address ≠ window) :
      OpenFor (cpuListBtnCb page tid window data) other address ↔ OpenFor page other address := by
    rw [OpenFor, OpenFor, cpuListBtnCb, Heap.cell_set_of_ne hne]
  refine ⟨?_, fun other hchart ↦ ?_, fun other address hopen ↦ ?_⟩
  · exact (Heap.cell_set_of_ne (Ne.symm hfresh.1) _).trans h.nonnull
  · by_cases hone : other = tid
    · subst hone
      simpa [cpuListBtnCb] using hself
    · simp only [cpuListBtnCb, Function.update_of_ne hone] at hchart ⊢
      have hopen := h.points other hchart
      have hne : (page.info other).chart ≠ window := by
        obtain ⟨found, hcell, _⟩ := hopen
        rintro hsame
        cases hfresh.2.symm.trans (hsame ▸ hcell)
      exact (hold hne).mpr hopen
  · by_cases hone : other = tid
    · subst hone
      simpa [cpuListBtnCb] using hfresh.1
    · simp only [cpuListBtnCb, Function.update_of_ne hone]
      have hne : address ≠ window := by
        rintro rfl
        exact hone (hopen.unique hself)
      exact h.found other address ((hold hne).mp hopen)

/-- The window of a thread is closed and the slot of the thread cleared. -/
structure Closes (page after : ChartPage) (tid : Tid) (address : Address) : Prop where
  chart : ∀ other, (after.info other).chart = if other = tid then 0 else (page.info other).chart
  kept : ∀ place, place ≠ address → after.windows.cell place = page.windows.cell place
  open_iff : ∀ other place, OpenFor after other place ↔ place ≠ address ∧ OpenFor page other place

theorem chartCloseBtnCb_closes {window : Window} (haddress : address ≠ 0)
    (hcell : page.windows.cell address = some window) :
    ∃ after, chartCloseBtnCb page address = .ok after ∧ Closes page after window.tid address := by
  refine ⟨{
    info := Function.update page.info window.tid { page.info window.tid with chart := 0 }
    windows := page.windows.set address none }, ?_, fun other ↦ ?_,
    fun place hplace ↦ Heap.cell_set_of_ne hplace _, fun other place ↦ ?_⟩
  · rw [chartCloseBtnCb, Heap.load_eq_ok haddress hcell, ok_bind, Heap.free_eq_ok haddress hcell]
    rfl
  · by_cases hone : other = window.tid
    · simp [hone]
    · simp [hone]
  · by_cases hone : place = address
    · simp [OpenFor, hone]
    · simp [OpenFor, hone, Heap.cell_set_of_ne hone]

/-- The slots stay right if the closed window was the only one of its thread. -/
theorem Closes.tracked (h : Closes page after tid address) (htracked : Tracked page)
    (haddress : address ≠ 0) (hopen : OpenFor page tid address) (hsingle : Single page tid) :
    Tracked after := by
  refine ⟨?_, fun other hslot ↦ ?_, fun other place hplace ↦ ?_⟩
  · rw [h.kept 0 (Ne.symm haddress)]
    exact htracked.nonnull
  · rw [h.chart] at hslot ⊢
    split_ifs at hslot ⊢ with hone
    · exact absurd rfl hslot
    · have hother := htracked.points other hslot
      refine (h.open_iff _ _).mpr ⟨fun hsame ↦ hone ?_, hother⟩
      exact (hsame ▸ hother : OpenFor page other address).unique hopen
  · obtain ⟨hne, hother⟩ := (h.open_iff _ _).mp hplace
    have hone : other ≠ tid := by
      rintro rfl
      exact hne (hsingle place address hother hopen)
    rw [h.chart, if_neg hone]
    exact htracked.found other place hother

/-- The slot is null afterwards, so nothing but the closed window may have been open. -/
theorem Closes.single (h : Closes page after tid address)
    (hslots : ∀ other, (after.info other).chart = 0 ↔ ∀ place, ¬ OpenFor after other place) :
    Single page tid := by
  have hnone := (hslots tid).mp (by rw [h.chart, if_pos rfl])
  have honly (place : Address) (hplace : OpenFor page tid place) : place = address := by
    by_contra hne
    exact hnone place ((h.open_iff _ _).mpr ⟨hne, hplace⟩)
  exact fun first second hfirst hsecond ↦ (honly first hfirst).trans (honly second hsecond).symm

/-- **A close** is right exactly if its thread has no other window. -/
theorem close_spec (h : Tracked page) {window : Window} (haddress : address ≠ 0)
    (hcell : page.windows.cell address = some window) :
    ∃ after, chartCloseBtnCb page address = .ok after ∧
      (Charted page (.close address) (.ok after) ↔ Apart page (.close address)) ∧
      (Apart page (.close address) → Tracked after) := by
  obtain ⟨after, hrun, hcloses⟩ := chartCloseBtnCb_closes haddress hcell
  have hopen : OpenFor page window.tid address := ⟨window, hcell, rfl⟩
  have htracked (hapart : Apart page (.close address)) : Tracked after :=
    hcloses.tracked h haddress hopen (hapart window.tid hopen)
  refine ⟨after, hrun, ⟨?_, fun hapart ↦ ⟨after, rfl, (htracked hapart).chart_iff, nofun⟩⟩,
    htracked⟩
  rintro ⟨other, hother, hslots, _⟩ tid htid
  obtain rfl : after = other := Except.ok.inj hother
  obtain rfl : tid = window.tid := htid.unique hopen
  exact hcloses.single hslots

/-- **One step** is right exactly if it meets the condition, and then keeps the slots. -/
theorem serve_spec (h : Tracked page) {event : Event} (henabled : enabled page event) :
    (Charted page event (serve page event) ↔ Apart page event) ∧
      ∀ next, serve page event = .ok next → Apart page event → Tracked next := by
  cases event with
  | click tid window data =>
    have hafter := h.click henabled tid data
    refine ⟨iff_of_true ⟨_, rfl, hafter.chart_iff, nofun⟩ trivial, ?_⟩
    rintro _ ⟨⟩ _
    exact hafter
  | close address =>
    obtain ⟨haddress, hlive⟩ := henabled
    obtain ⟨window, hcell⟩ := Option.ne_none_iff_exists'.mp hlive
    obtain ⟨after, hrun, hexact, hkeeps⟩ := close_spec h haddress hcell
    have hserve : serve page (.close address) = .ok after := hrun
    rw [hserve]
    refine ⟨hexact, ?_⟩
    rintro _ ⟨⟩ hapart
    exact hkeeps hapart
  | refresh threads =>
    obtain ⟨after, hrun, hshows⟩ := refresh_spec h threads
    have hserve : serve page (.refresh threads) = .ok after := hrun
    rw [hserve]
    refine ⟨charted_refresh_iff h hshows, ?_⟩
    rintro _ ⟨⟩ _
    exact hshows.tracked h

/-! ## Exactly when the charts are kept up -/

/-- **Exact condition.** In a run on an open page every refresh reaches every open window, and the
slots are null exactly for the threads without a window, if and only if no window is closed and no
thread is refreshed while its thread has several windows. -/
theorem charted_iff (events : List Event) :
    charts.Always Charted opened events ↔ charts.Guarded Apart opened events := by
  apply System.always_iff_guarded _ _ opened_tracked
  · exact fun page event htracked henabled ↦ (serve_spec htracked henabled).1
  · exact fun page event next htracked henabled hapart hstep ↦
      (serve_spec htracked henabled).2 next hstep hapart

/-- Two windows of thread 1 are opened and the first one is closed: the slot is null, and the
second window is left without data. -/
theorem closed_twin_stops_the_chart :
    ∃ last, charts.Run opened
        [.click 1 16 .zero, .click 1 32 .zero, .close 16, .refresh [(1, .zero)]] last ∧
      (last.info 1).chart = 0 ∧ OpenFor last 1 32 ∧
      ((last.windows.cell 32).map Window.series) = some [] ∧
      ¬ charts.Always Charted opened [.click 1 16 .zero, .click 1 32 .zero, .close 16] := by
  have hfirst : enabled opened (.click 1 16 .zero) := ⟨nofun, rfl⟩
  have hsecond : enabled (cpuListBtnCb opened 1 16 .zero) (.click 1 32 .zero) := ⟨nofun, rfl⟩
  have hclose : enabled (cpuListBtnCb (cpuListBtnCb opened 1 16 .zero) 1 32 .zero) (.close 16) :=
    ⟨nofun, nofun⟩
  have hopened : charts.Run opened [.click 1 16 .zero, .click 1 32 .zero] _ :=
    .cons hfirst rfl (.cons hsecond rfl (.nil _))
  have hclosed : charts.Run opened
      [.click 1 16 .zero, .click 1 32 .zero, .close 16, .refresh [(1, .zero)]] _ :=
    .cons hfirst rfl <| .cons hsecond rfl <| .cons hclose rfl <|
      .cons (List.nodup_singleton 1) rfl <| .nil _
  refine ⟨_, hclosed, rfl, ⟨_, rfl, rfl⟩, rfl, fun halways ↦ ?_⟩
  obtain ⟨after, hafter, hslots, _⟩ := System.always_iff_forall_run.mp halways
    [.click 1 16 .zero, .click 1 32 .zero] (.close 16) [] _ rfl hopened hclose
  cases hafter
  exact (hslots 1).mp rfl 32 ⟨_, rfl, rfl⟩

/-! ## The page as the model of its buttons has it -/

/-- The `btn_info` of a thread with what lies behind its pointer. -/
def view (page : ChartPage) (tid : Tid) (threadInfo : Address) : BtnInfo where
  btn := tid
  bar := (page.info tid).bar
  chart := (page.windows.cell (page.info tid).chart).map fun window ↦
    ⟨window.major, window.minor, window.series⟩
  threadInfo := threadInfo

/-- A refresh of the thread is the refresh of its view. -/
theorem view_refreshThread (h : Tracked page) (threadInfo : Address) {data : ThreadUsage}
    (hrun : refreshThread page (tid, data) = .ok after) :
    view after tid threadInfo = (view page tid threadInfo).refresh data := by
  by_cases hnull : (page.info tid).chart = 0
  · obtain rfl := Except.ok.inj ((refreshThread_null hnull).symm.trans hrun)
    have hnone : (page.windows.cell (page.info tid).chart) = none := by rw [hnull, h.nonnull]
    simp [view, BtnInfo.refresh, lvBarSetValue, hnone]
  · obtain ⟨window, hcell, _⟩ := h.points tid hnull
    obtain rfl := Except.ok.inj ((refreshThread_window hnull hcell).symm.trans hrun)
    simp [view, BtnInfo.refresh, lvBarSetValue, Window.setNext, hcell]

/-- A click gives the view of the thread a new chart. -/
theorem view_click (page : ChartPage) (tid : Tid) (window : Address) (data : ThreadUsage)
    (threadInfo : Address) :
    view (cpuListBtnCb page tid window data) tid threadInfo =
      { view page tid threadInfo with chart := some ⟨data.major, data.minor, []⟩ } := by
  simp [view, cpuListBtnCb]

end K210Firmware.Gui.Charts
