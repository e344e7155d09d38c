import K210Firmware.Gui.Apps

/-!
# The close button of a CPU page

`close_press_cb` does not look for the page of its button: it deletes whatever is on top of the
stack of activities. A page is there only if its own push found memory and nothing was pushed on
top of it. `closed_iff` says that this is the exact condition. For it the stack must not lose the
tasks of its pages, which a camera image deletes through a variable: an image that lies above a
page was opened later, so that the variable no longer names the task of the page (`Tidy`).
-/

namespace K210Firmware.Gui.PageClose

open Memory Apps Transition

/-! ## All apps of the menu -/

/-- The page of the terminal, without the text area and the keyboard, which ignore
`LV_EVENT_DELETE`. The callback of the page deletes the C++ object and touches nothing here. -/
def terminalPage : Obj := .mk .lvPage .null 0 [.mk .empty .null 0 []]

/-- `lvgl_terminal_press_cb` for `LV_EVENT_CLICKED`. -/
def lvglTerminalPressCb (state : State) (page : Address) (node : Bool) : State :=
  { state with
    objs := state.objs.set page (some ⟨terminalPage, state.opened⟩)
    activities := (lvAddActivityObj state.activities page node).2
    opened := state.opened + 1 }

/-- The events of the camera and of the CPU page, and the opening of the terminal. -/
inductive Event
  | menu (event : Apps.Event)
  | terminal (page : Address) (node : Bool)

def Enabled (state : State) : Event → Prop
  | .menu event => Apps.Enabled state event
  | .terminal page _ => state.objs.Fresh page ∧ state.tasks.cell page = none

def serve (state : State) : Event → Except Fault State
  | .menu event => Apps.serve state event
  | .terminal page node => .ok (lvglTerminalPressCb state page node)

def apps : System State Event Fault where
  enabled := Enabled
  step := serve

/-- A click on the close button of a page deletes this page and no other object, and takes this
page and no other activity off the stack. -/
def ClosesItsPage (state : State) (event : Event) (outcome : Except Fault State) : Prop :=
  ∀ page, event = .menu (.close page) → ∃ after, outcome = .ok after ∧
    after.objs = state.objs.set page none ∧ after.activities = state.activities.erase page

/-- The page whose close button is clicked is on top of the stack. -/
def OnTop (state : State) (event : Event) : Prop :=
  ∀ page, event = .menu (.close page) → state.activities.head? = some page

/-! ## What the stack holds -/

inductive Kind
  | camera
  | cpu (task : Address)
  | terminal

def Kind.obj : Kind → Obj
  | camera => cameraImg
  | cpu task => cpuUsagePage task
  | terminal => terminalPage

/-- The task that goes with the object: the camera takes it from its variable. -/
def Kind.task (state : State) : Kind → Option Address
  | camera => some state.task
  | cpu task => some task
  | terminal => none

def Holds (state : State) (obj : Address) (kind : Kind) : Prop :=
  ∃ number, state.objs.cell obj = some ⟨kind.obj, number⟩

/-- Every activity is an app. The task of a stacked page is live and its own, and no image above
the page would delete it. -/
structure Tidy (state : State) : Prop where
  stack : Stacked state.objs state.activities
  known : ∀ obj ∈ state.activities, obj ≠ 0 ∧ ∃ kind, Holds state obj kind
  live : ∀ page ∈ state.activities, ∀ task, Holds state page (.cpu task) →
    task ≠ 0 ∧ state.tasks.cell task ≠ none
  own : ∀ page ∈ state.activities, ∀ other ∈ state.activities, ∀ task,
    Holds state page (.cpu task) → Holds state other (.cpu task) → page = other
  above : ∀ front page back, state.activities = front ++ page :: back →
    ∀ image ∈ front, Holds state image .camera → ∀ task, Holds state page (.cpu task) →
      state.task ≠ task

variable {state after : State} {obj page : Address} {kind : Kind}

theorem Holds.unique {other : Kind} (h : Holds state obj kind) (hother : Holds state obj other) :
    kind = other := by
  obtain ⟨number, hcell⟩ := h
  obtain ⟨found, hfound⟩ := hother
  have hobj : kind.obj = other.obj :=
    congrArg App.obj (Option.some.inj (hcell.symm.trans hfound))
  cases kind <;> cases other <;> simp_all [Kind.obj, cameraImg, cpuUsagePage, terminalPage]

theorem start_tidy : Tidy start where
  stack := ⟨List.nodup_nil, nofun⟩
  known := nofun
  live := nofun
  own := nofun
  above front page back h := by
    have hlength := congrArg List.length h
    simp [start] at hlength

/-! ## Deleting an object -/

/-- An object deletes the task that goes with it. -/
theorem lvObjSendDelete_eq (hobj : obj ≠ 0) (h : Holds state obj kind) :
    lvObjSendDelete state obj = (match kind.task state with
      | some task => lvTaskDel state task
      | none => .ok state) := by
  obtain ⟨number, hcell⟩ := h
  cases kind with
  | camera => exact lvObjSendDelete_camera hobj hcell
  | cpu task => exact lvObjSendDelete_cpu hobj hcell
  | terminal =>
    rw [lvObjSendDelete, Heap.load_eq_ok hobj hcell]
    rfl

/-- The states before and after a deletion. -/
structure Deletes (state after : State) (obj : Address) (task : Option Address) : Prop where
  objs : after.objs = state.objs.set obj none
  activities : after.activities = state.activities
  latest : after.task = state.task
  tasks : ∀ other, some other ≠ task → after.tasks.cell other = state.tasks.cell other

theorem lvObjDel_deletes (hobj : obj ≠ 0) (hholds : Holds state obj kind)
    (h : lvObjDel state obj = .ok after) : Deletes state after obj (kind.task state) := by
  obtain ⟨middle, hmiddle, hfree⟩ := bind_eq_ok.mp h
  obtain ⟨number, rfl⟩ := lvObjFree_cases hfree
  rw [lvObjSendDelete_eq hobj hholds] at hmiddle
  cases htask : kind.task state with
  | none =>
    rw [htask] at hmiddle
    cases hmiddle
    exact ⟨rfl, rfl, rfl, fun _ _ ↦ rfl⟩
  | some task =>
    rw [htask] at hmiddle
    obtain ⟨entry, _, hdel⟩ := bind_eq_ok.mp hmiddle
    cases hdel
    exact ⟨rfl, rfl, rfl, fun other hother ↦
      Heap.cell_set_of_ne (fun hsame ↦ hother (congrArg some hsame)) _⟩

/-- A page with a live task can be deleted. -/
theorem lvObjDel_page {task : Address} (hpage : page ≠ 0) (hholds : Holds state page (.cpu task))
    (htask : task ≠ 0) (hlive : state.tasks.cell task ≠ none) :
    ∃ after, lvObjDel state page = .ok after := by
  obtain ⟨number, hcell⟩ := hholds
  obtain ⟨entry, hentry⟩ := Option.ne_none_iff_exists'.mp hlive
  exact ⟨_, lvObjDel_eq (lvObjSendDelete_cpu hpage hcell) htask hentry hpage hcell⟩

/-! ## The stack over time -/

theorem holds_congr {other : Address} (hcell : after.objs.cell other = state.objs.cell other)
    (kind : Kind) : Holds after other kind ↔ Holds state other kind := by
  rw [Holds, Holds, hcell]

/-- The states before and after the opening of an app. -/
structure Opens (state after : State) (obj : Address) (kind : Kind) : Prop where
  fresh : state.objs.Fresh obj
  objs : ∃ number, after.objs = state.objs.set obj (some ⟨kind.obj, number⟩)
  activities : ∃ node, after.activities = (lvAddActivityObj state.activities obj node).2
  tasks : ∀ task, state.tasks.cell task ≠ none → after.tasks.cell task ≠ none
  latest : ∀ task, state.tasks.cell task ≠ none →
    (kind = .camera ∨ state.task ≠ task) → after.task ≠ task
  new : ∀ task, kind = .cpu task →
    task ≠ 0 ∧ after.tasks.cell task ≠ none ∧ state.tasks.cell task = none

theorem Opens.mem (h : Opens state after obj kind) {other : Address}
    (hother : other ∈ after.activities) : other = obj ∨ other ∈ state.activities := by
  obtain ⟨node, hactivities⟩ := h.activities
  rw [hactivities] at hother
  cases node with
  | true => exact List.mem_cons.mp hother
  | false => exact .inr hother

theorem Opens.self (h : Opens state after obj kind) : Holds after obj kind := by
  obtain ⟨number, hobjs⟩ := h.objs
  exact ⟨number, by rw [hobjs, Heap.cell_set_self]⟩

/-- The activities that were open are as they were. -/
theorem Opens.holds_iff (h : Opens state after obj kind) (htidy : Tidy state) {other : Address}
    (hother : other ∈ state.activities) (found : Kind) :
    Holds after other found ↔ Holds state other found := by
  obtain ⟨number, hobjs⟩ := h.objs
  have hne : other ≠ obj := fun hsame ↦ htidy.stack.2 other hother (hsame ▸ h.fresh.2)
  exact holds_congr (by rw [hobjs, Heap.cell_set_of_ne hne]) found

/-- An image on the stack, the new one included, does not delete the task of a page below. -/
theorem Opens.task_ne (h : Opens state after obj kind) (htidy : Tidy state)
    {front back : List Address} (hsplit : state.activities = front ++ page :: back)
    {image task : Address} (himage : image = obj ∨ image ∈ front)
    (hcamera : Holds after image .camera) (hholds : Holds after page (.cpu task)) :
    after.task ≠ task := by
  have hpage : page ∈ state.activities := by simp [hsplit]
  have hholds := (h.holds_iff htidy hpage _).mp hholds
  apply h.latest task (htidy.live page hpage task hholds).2
  rcases himage with rfl | himage
  · exact .inl (h.self.unique hcamera)
  · have hmember : image ∈ state.activities := by simp [hsplit, himage]
    exact .inr (htidy.above front page back hsplit image himage
      ((h.holds_iff htidy hmember _).mp hcamera) task hholds)

/-- **Opening** an app keeps the stack tidy, whether its push finds memory or not. -/
theorem Tidy.opens (h : Tidy state) (hopens : Opens state after obj kind) : Tidy after := by
  refine ⟨?_, fun other hother ↦ ?_, fun page hpage task hholds ↦ ?_,
    fun page hpage other hother task hholds hsame ↦ ?_,
    fun front page back hsplit image himage hcamera task hholds ↦ ?_⟩
  · obtain ⟨number, hobjs⟩ := hopens.objs
    obtain ⟨node, hactivities⟩ := hopens.activities
    rw [hobjs, hactivities]
    exact @Stacked.add _ [] _ _ h.stack hopens.fresh.2 _ node
  · rcases hopens.mem hother with rfl | hother
    · exact ⟨hopens.fresh.1, kind, hopens.self⟩
    · obtain ⟨hnonnull, found, hfound⟩ := h.known other hother
      exact ⟨hnonnull, found, (hopens.holds_iff h hother found).mpr hfound⟩
  · rcases hopens.mem hpage with rfl | hpage
    · obtain ⟨hnonnull, hlive, _⟩ := hopens.new task (hopens.self.unique hholds)
      exact ⟨hnonnull, hlive⟩
    · have hlive := h.live page hpage task ((hopens.holds_iff h hpage _).mp hholds)
      exact ⟨hlive.1, hopens.tasks task hlive.2⟩
  · -- the task of a new page was dead before
    have hapart {old : Address} (hmember : old ∈ state.activities)
        (holdPage : Holds after old (.cpu task)) (hnewPage : Holds after obj (.cpu task)) : False :=
      (h.live old hmember task ((hopens.holds_iff h hmember _).mp holdPage)).2
        (hopens.new task (hopens.self.unique hnewPage)).2.2
    rcases hopens.mem hpage with rfl | hpage
    · rcases hopens.mem hother with rfl | hother
      · rfl
      · exact (hapart hother hsame hholds).elim
    · rcases hopens.mem hother with rfl | hother
      · exact (hapart hpage hholds hsame).elim
      · exact h.own page hpage other hother task ((hopens.holds_iff h hpage _).mp hholds)
          ((hopens.holds_iff h hother _).mp hsame)
  · obtain ⟨node, hactivities⟩ := hopens.activities
    rw [hactivities] at hsplit
    cases node with
    | false => exact hopens.task_ne h hsplit (.inr himage) hcamera hholds
    | true =>
      cases front with
      | nil => cases himage
      | cons first front =>
        obtain ⟨rfl, hrest⟩ := List.cons.inj hsplit
        exact hopens.task_ne h hrest (List.mem_cons.mp himage) hcamera hholds

/-- The task that the top deletes is not the task of a page below. -/
theorem Tidy.spares (h : Tidy state) {rest : List Address}
    (hactivities : state.activities = obj :: rest) (hholds : Holds state obj kind)
    (hpage : page ∈ rest) {task : Address} (hpageHolds : Holds state page (.cpu task)) :
    some task ≠ kind.task state := by
  have hobj : obj ∈ state.activities := by simp [hactivities]
  have hmember : page ∈ state.activities := by simp [hactivities, hpage]
  intro hsame
  cases kind with
  | camera =>
    obtain ⟨front, back, rfl⟩ := List.append_of_mem hpage
    exact h.above (obj :: front) page back hactivities obj (List.mem_cons_self ..) hholds task
      hpageHolds (Option.some.inj hsame).symm
  | cpu own =>
    obtain rfl : task = own := Option.some.inj hsame
    obtain rfl := h.own page hmember obj hobj task hpageHolds hholds
    have hstack := h.stack.1
    rw [hactivities] at hstack
    exact (List.nodup_cons.mp hstack).1 hpage
  | terminal => cases hsame

/-- **Deleting** the top of the stack keeps the rest tidy. -/
theorem Tidy.pop (h : Tidy state) {rest : List Address}
    (hactivities : state.activities = obj :: rest) (hholds : Holds state obj kind)
    (hdeletes : Deletes { state with activities := rest } after obj (kind.task state)) :
    Tidy after := by
  obtain ⟨hobjs, hrest, hlatest, htasks⟩ := hdeletes
  have hrest : after.activities = rest := hrest
  have hstack := h.stack
  rw [hactivities] at hstack
  have hmem (other : Address) (hother : other ∈ after.activities) :
      other ∈ rest ∧ other ∈ state.activities := by
    have hother : other ∈ rest := hrest ▸ hother
    exact ⟨hother, hactivities ▸ List.mem_cons_of_mem _ hother⟩
  have hold (other : Address) (hother : other ∈ rest) :
      ∀ kind, Holds after other kind ↔ Holds state other kind := by
    have hne : other ≠ obj := fun hsame ↦ (List.nodup_cons.mp hstack.1).1 (hsame ▸ hother)
    exact holds_congr (by rw [hobjs, Heap.cell_set_of_ne hne])
  refine ⟨?_, fun other hother ↦ ?_, fun page hpage task hpageHolds ↦ ?_,
    fun page hpage other hother task hpageHolds hsame ↦ ?_,
    fun front page back hsplit image himage hcamera task hpageHolds ↦ ?_⟩
  · rw [hobjs, hrest]
    exact @Stacked.remove _ [] _ _ hstack
  · obtain ⟨hother, hmember⟩ := hmem other hother
    obtain ⟨hnonnull, found, hfound⟩ := h.known other hmember
    exact ⟨hnonnull, found, (hold other hother found).mpr hfound⟩
  · obtain ⟨hpage, hmember⟩ := hmem page hpage
    have hpageHolds := (hold page hpage _).mp hpageHolds
    rw [htasks task (h.spares hactivities hholds hpage hpageHolds)]
    exact h.live page hmember task hpageHolds
  · obtain ⟨hpage, hpageMember⟩ := hmem page hpage
    obtain ⟨hother, hmember⟩ := hmem other hother
    exact h.own page hpageMember other hmember task ((hold page hpage _).mp hpageHolds)
      ((hold other hother _).mp hsame)
  · have hrest : rest = front ++ page :: back := hrest.symm.trans hsplit
    have hpage : page ∈ rest := by simp [hrest]
    have himageRest : image ∈ rest := by simp [hrest, himage]
    rw [hlatest]
    exact h.above (obj :: front) page back (by rw [hactivities, hrest]; rfl) image
      (List.mem_cons_of_mem _ himage) ((hold image himageRest _).mp hcamera) task
      ((hold page hpage _).mp hpageHolds)

/-! ## Menu events -/

/-- A task that is live before an app is opened is not the new one. -/
theorem ne_of_live {task other : Address} (hfresh : Fresh state obj task)
    (hlive : state.tasks.cell other ≠ none) : other ≠ task :=
  fun hsame ↦ hlive (hsame ▸ hfresh.ofTask.1.2)

theorem opens_camera {img task : Address} (hfresh : Fresh state img task) (node : Bool) :
    Opens state (lvglCameraPressCb state img task node) img .camera where
  fresh := hfresh.ofObj.1
  objs := ⟨state.opened, rfl⟩
  activities := ⟨node, rfl⟩
  tasks other hlive := by rwa [lvglCameraPressCb, Heap.cell_set_of_ne (ne_of_live hfresh hlive)]
  latest other hlive _ := (ne_of_live hfresh hlive).symm
  new := nofun

theorem opens_cpu {task : Address} (hfresh : Fresh state page task) (node : Bool) :
    Opens state (lvglCpuUsagePressCb state page task node) page (.cpu task) where
  fresh := hfresh.ofObj.1
  objs := ⟨state.opened, rfl⟩
  activities := ⟨node, rfl⟩
  tasks other hlive := by rwa [lvglCpuUsagePressCb, Heap.cell_set_of_ne (ne_of_live hfresh hlive)]
  latest other _ hkind := hkind.resolve_left nofun
  new other hkind := by
    obtain rfl : task = other := Kind.cpu.inj hkind
    refine ⟨hfresh.ofTask.1.1, ?_, hfresh.ofTask.1.2⟩
    rw [lvglCpuUsagePressCb, Heap.cell_set_self]
    nofun

theorem opens_terminal (hfresh : state.objs.Fresh page) (node : Bool) :
    Opens state (lvglTerminalPressCb state page node) page .terminal where
  fresh := hfresh
  objs := ⟨state.opened, rfl⟩
  activities := ⟨node, rfl⟩
  tasks _ hlive := hlive
  latest _ _ hkind := hkind.resolve_left nofun
  new := nofun

/-- A click on a close button and the cancel key delete the top of the stack. -/
theorem serve_pop {rest : List Address} (h : Tidy state)
    (hactivities : state.activities = obj :: rest) :
    closePressCb state = lvObjDel { state with activities := rest } obj ∧
      cancelCb state = lvObjDel { state with activities := rest } obj := by
  have hobj : obj ≠ 0 := (h.known obj (by simp [hactivities])).1
  simp only [closePressCb, cancelCb, hactivities, lvRemoveActivityObj, if_pos hobj, and_self]

theorem Tidy.delete_top {rest : List Address} (h : Tidy state)
    (hactivities : state.activities = obj :: rest)
    (hrun : lvObjDel { state with activities := rest } obj = .ok after) : Tidy after := by
  obtain ⟨hobj, kind, hholds⟩ := h.known obj (by simp [hactivities])
  have hholds' : Holds { state with activities := rest } obj kind := hholds
  have hdeletes := lvObjDel_deletes hobj hholds' hrun
  have htask : kind.task { state with activities := rest } = kind.task state := by
    cases kind <;> rfl
  exact h.pop hactivities hholds (htask ▸ hdeletes)

/-- **One step** keeps the stack tidy. -/
theorem serve_tidy (h : Tidy state) {event : Event} (henabled : Enabled state event)
    (hstep : serve state event = .ok after) : Tidy after := by
  cases event with
  | terminal page node =>
    cases hstep
    exact h.opens (opens_terminal henabled.1 node)
  | menu event =>
    cases event with
    | camera img task node =>
      cases hstep
      exact h.opens (opens_camera henabled node)
    | cpu page task node =>
      cases hstep
      exact h.opens (opens_cpu henabled node)
    | close page =>
      cases hactivities : state.activities with
      | nil =>
        have hfault : closePressCb state = .error .nullPointer := by
          simp only [closePressCb, hactivities, lvRemoveActivityObj]
          rfl
        cases hfault.symm.trans hstep
      | cons obj rest =>
        exact h.delete_top hactivities ((serve_pop h hactivities).1.symm.trans hstep)
    | cancel =>
      cases hactivities : state.activities with
      | nil =>
        have hsame : cancelCb state = .ok state := by
          simp only [cancelCb, hactivities, lvRemoveActivityObj]
          rw [← hactivities]
          rfl
        obtain rfl : state = after := Except.ok.inj (hsame.symm.trans hstep)
        exact h
      | cons obj rest =>
        exact h.delete_top hactivities ((serve_pop h hactivities).2.symm.trans hstep)

/-- **One click** closes its page exactly if the page is on top. -/
theorem closesItsPage_iff (h : Tidy state) {event : Event} (henabled : Enabled state event) :
    ClosesItsPage state event (serve state event) ↔ OnTop state event := by
  refine forall_congr' fun page ↦ forall_congr' fun hevent ↦ ?_
  subst hevent
  obtain ⟨task, number, hcell⟩ := henabled
  cases hactivities : state.activities with
  | nil =>
    refine iff_of_false ?_ nofun
    rintro ⟨after, hrun, _⟩
    have hfault : serve state (.menu (.close page)) = .error .nullPointer := by
      simp only [serve, Apps.serve, closePressCb, hactivities, lvRemoveActivityObj]
      rfl
    cases hfault.symm.trans hrun
  | cons obj rest =>
    have hserve : serve state (.menu (.close page)) =
        lvObjDel { state with activities := rest } obj := (serve_pop h hactivities).1
    obtain ⟨hobj, kind, hholds⟩ := h.known obj (by simp [hactivities])
    have hholds' : Holds { state with activities := rest } obj kind := hholds
    rw [hserve, List.head?_cons, Option.some.injEq]
    constructor
    · rintro ⟨after, hrun, hobjs, _⟩
      by_contra hne
      -- the page would still be there
      have hleft := (lvObjDel_deletes hobj hholds' hrun).objs.symm.trans hobjs
      have hpage := congrArg (Heap.cell · page) hleft
      simp only [Heap.cell_set_self, Heap.cell_set_of_ne (Ne.symm hne)] at hpage
      cases hcell.symm.trans hpage
    · rintro rfl
      have hpage : Holds state obj (.cpu task) := ⟨number, hcell⟩
      obtain ⟨htask, hlive⟩ := h.live obj (by simp [hactivities]) task hpage
      obtain ⟨after, hrun⟩ := lvObjDel_page hobj
        (show Holds { state with activities := rest } obj (.cpu task) from hpage) htask hlive
      have hdeletes := lvObjDel_deletes hobj hholds' hrun
      refine ⟨after, hrun, hdeletes.objs, hdeletes.activities.trans ?_⟩
      exact (List.erase_cons_head ..).symm

/-! ## Exactly when a close button closes its page -/

/-- **Exact condition.** In a run of the menu every click on a close button deletes its own page
and leaves all other activities alone, exactly when the page is on top at every click. -/
theorem closed_iff (events : List Event) :
    apps.Always ClosesItsPage start events ↔ apps.Guarded OnTop start events := by
  apply System.always_iff_guarded _ _ start_tidy
  · exact fun state event htidy henabled ↦ closesItsPage_iff htidy henabled
  · exact fun state event next htidy henabled _ hstep ↦ serve_tidy htidy henabled hstep

/-- The push of a page fails, and its close button passes null to `lv_obj_del`. -/
theorem unpushed_page_deletes_null :
    serve (lvglCpuUsagePressCb start 16 32 false) (.menu (.close 16)) = .error .nullPointer ∧
      ¬ apps.Always ClosesItsPage start [.menu (.cpu 16 32 false), .menu (.close 16)] := by
  refine ⟨rfl, fun halways ↦ ?_⟩
  have hfresh : Fresh start 16 32 := ⟨⟨⟨nofun, rfl⟩, rfl⟩, ⟨⟨nofun, rfl⟩, rfl⟩, nofun⟩
  obtain ⟨_, hrest⟩ := halways hfresh
  obtain ⟨hcloses, _⟩ := hrest _ rfl ⟨32, 0, rfl⟩
  obtain ⟨_, hrun, _⟩ := hcloses 16 rfl
  cases hrun

end K210Firmware.Gui.PageClose
