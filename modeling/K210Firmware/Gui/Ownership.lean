import K210Firmware.Gui.Apps
import K210Firmware.Library.Inventory

/-!
# Who deletes the task of an app

The image of the camera is not clickable, so the camera can be opened again on top of itself. The
variables of `lvgl_camera.c` then name the second image and its task only: deleting one of the
images deletes the second task, or leaves the first task with a deleted image. `owned_iff` says that
this is all that goes wrong. An open app is one entry that holds an object and its task, and the
invariant is that the two heaps are those of one set of entries.
-/

namespace K210Firmware.Gui.Ownership

open Memory Apps Transition

/-- Each task has been passed to `lv_task_del` once if its object has been deleted, and is live if
that is live. A camera task finds a live image in the variable `img`. -/
structure Owned (state : State) : Prop where
  deleted : state.tasksDeleted = state.objsDeleted
  once : state.tasksDeleted.Nodup
  live : ∀ number, (∃ task entry, state.tasks.cell task = some entry ∧ entry.number = number) ↔
    ∃ obj app, state.objs.cell obj = some app ∧ app.number = number
  single : ∀ task other entry found, state.tasks.cell task = some entry →
    state.tasks.cell other = some found → entry.number = found.number → task = other
  image : ∀ task number, state.tasks.cell task = some ⟨.cameraTask, number⟩ →
    IsCamera state state.img

/-- No deleted task or object is accessed, and ownership is as it should be. -/
def Sound (_ : State) (_ : Event) (outcome : Except Fault State) : Prop :=
  outcome ≠ .error .deadObject ∧ ∀ after, outcome = .ok after → Owned after

/-- If the event pops a camera image, there is no other. -/
def Alone (state : State) (event : Event) : Prop :=
  event = .cancel ∨ (∃ page, event = .close page) →
    ∀ obj ∈ state.activities.head?, IsCamera state obj →
      ∀ other, IsCamera state other → other = obj

/-! ## Open apps -/

inductive Kind
  | camera
  | cpu
  deriving DecidableEq, Repr

/-- An open app owns an object and a task. -/
structure OpenApp where
  kind : Kind
  obj : Address
  task : Address
  number : ℕ

def OpenApp.app (entry : OpenApp) : App :=
  match entry.kind with
  | .camera => ⟨cameraImg, entry.number⟩
  | .cpu => ⟨cpuUsagePage entry.task, entry.number⟩

def OpenApp.timer (entry : OpenApp) : Task :=
  match entry.kind with
  | .camera => ⟨.cameraTask, entry.number⟩
  | .cpu => ⟨.refreshCpuTask, entry.number⟩

@[simp]
theorem OpenApp.app_number (entry : OpenApp) : entry.app.number = entry.number := by
  unfold app
  split <;> rfl

@[simp]
theorem OpenApp.timer_number (entry : OpenApp) : entry.timer.number = entry.number := by
  unfold timer
  split <;> rfl

/-- An app whose object is a camera image is a camera. -/
theorem OpenApp.kind_of_app {entry : OpenApp} {number : ℕ} (h : entry.app = ⟨cameraImg, number⟩) :
    entry.kind = .camera := by
  unfold app at h
  split at h
  case h_1 hkind => exact hkind
  case h_2 => cases congrArg (fun app : App ↦ app.obj.type) h

theorem OpenApp.kind_of_timer {entry : OpenApp} {number : ℕ}
    (h : entry.timer = ⟨.cameraTask, number⟩) : entry.kind = .camera := by
  unfold timer at h
  split at h
  case h_1 hkind => exact hkind
  case h_2 => cases congrArg Task.taskCb h

/-- The objects and tasks are those of the open apps, and the variables name the object and the
task of one camera if there is any. -/
structure Represents (state : State) (apps : Set OpenApp) : Prop where
  objs : Inventory state.objs OpenApp.obj OpenApp.app apps
  tasks : Inventory state.tasks OpenApp.task OpenApp.timer apps
  numbers : Set.InjOn OpenApp.number apps
  opened : ∀ app ∈ apps, app.number < state.opened ∧ app.number ∉ state.objsDeleted
  closed : ∀ number ∈ state.objsDeleted, number < state.opened
  deleted : state.tasksDeleted = state.objsDeleted
  once : state.objsDeleted.Nodup
  stack : Stacked state.objs state.activities
  statics : ∀ app ∈ apps, app.kind = .camera →
    ∃ latest ∈ apps, latest.kind = .camera ∧ latest.obj = state.img ∧ latest.task = state.task

theorem start_represents : Represents start ∅ where
  objs := .empty _ _
  tasks := .empty _ _
  numbers := nofun
  opened := nofun
  closed := nofun
  deleted := rfl
  once := List.nodup_nil
  stack := ⟨List.nodup_nil, nofun⟩
  statics := nofun

variable {state : State} {apps : Set OpenApp} {app : OpenApp} {obj : Address}

theorem Represents.cell_camera (h : Represents state apps) (happ : app ∈ apps)
    (hkind : app.kind = .camera) : state.objs.cell app.obj = some ⟨cameraImg, app.number⟩ := by
  rw [h.objs.live app happ, OpenApp.app, hkind]

theorem Represents.cell_cpu (h : Represents state apps) (happ : app ∈ apps)
    (hkind : app.kind = .cpu) :
    state.objs.cell app.obj = some ⟨cpuUsagePage app.task, app.number⟩ := by
  rw [h.objs.live app happ, OpenApp.app, hkind]

theorem Represents.isCamera_iff (h : Represents state apps) :
    IsCamera state obj ↔ ∃ app ∈ apps, app.kind = .camera ∧ app.obj = obj := by
  constructor
  · rintro ⟨number, hcell⟩
    obtain ⟨app, happ, hobj, hfound⟩ := h.objs.entry_of_cell hcell
    exact ⟨app, happ, app.kind_of_app hfound, hobj⟩
  · rintro ⟨app, happ, hkind, rfl⟩
    exact ⟨app.number, h.cell_camera happ hkind⟩

theorem Represents.owned (h : Represents state apps) : Owned state where
  deleted := h.deleted
  once := h.deleted ▸ h.once
  live number := by
    constructor
    · rintro ⟨task, entry, hcell, rfl⟩
      obtain ⟨app, happ, _, rfl⟩ := h.tasks.entry_of_cell hcell
      exact ⟨app.obj, app.app, h.objs.live app happ, by simp⟩
    · rintro ⟨obj, found, hcell, rfl⟩
      obtain ⟨app, happ, _, rfl⟩ := h.objs.entry_of_cell hcell
      exact ⟨app.task, app.timer, h.tasks.live app happ, by simp⟩
  single task other entry found htask hother hnumber := by
    obtain ⟨app, happ, rfl, rfl⟩ := h.tasks.entry_of_cell htask
    obtain ⟨app', happ', rfl, rfl⟩ := h.tasks.entry_of_cell hother
    simp only [OpenApp.timer_number] at hnumber
    rw [h.numbers happ happ' hnumber]
  image task number hcell := by
    obtain ⟨app, happ, _, htimer⟩ := h.tasks.entry_of_cell hcell
    obtain ⟨latest, hlatest, hkind, himg, _⟩ :=
      h.statics app happ (app.kind_of_timer htimer)
    exact h.isCamera_iff.mpr ⟨latest, hlatest, hkind, himg⟩

/-! ## Opening an app -/

/-- What `lvgl_camera_press_cb` and `lvgl_cpu_usage_press_cb` have in common. -/
def openApp (state : State) (img task : Address) (app : OpenApp) (node : Bool) : State :=
  { state with
    img
    task
    objs := state.objs.set app.obj (some app.app)
    tasks := state.tasks.set app.task (some app.timer)
    activities := (lvAddActivityObj state.activities app.obj node).2
    opened := state.opened + 1 }

/-- A new app sets both variables, or neither. -/
def SetsVariables (state : State) (img task : Address) (app : OpenApp) : Prop :=
  (app.kind = .camera ∧ app.obj = img ∧ app.task = task) ∨
    (app.kind = .cpu ∧ img = state.img ∧ task = state.task)

theorem Represents.openApp (h : Represents state apps) {img task : Address}
    (hnumber : app.number = state.opened) (hfresh : Fresh state app.obj app.task)
    (hvariables : SetsVariables state img task app) (node : Bool) :
    Represents (openApp state img task app node) (insert app apps) where
  objs := h.objs.allocate hfresh.ofObj.1
  tasks := h.tasks.allocate hfresh.ofTask.1
  numbers := by
    have hnew : app ∉ apps := fun happ ↦ h.objs.ne_of_fresh hfresh.ofObj.1 happ rfl
    rw [Set.injOn_insert hnew]
    refine ⟨h.numbers, ?_⟩
    rintro ⟨other, hother, hsame⟩
    exact absurd (hsame.trans hnumber) (h.opened other hother).1.ne
  opened := by
    rintro other (rfl | hother)
    · rw [hnumber]
      exact ⟨Nat.lt_succ_self _, fun hmem ↦ Nat.lt_irrefl _ (h.closed _ hmem)⟩
    · obtain ⟨hlt, hlive⟩ := h.opened other hother
      exact ⟨Nat.lt_succ_of_lt hlt, hlive⟩
  closed number hmem := Nat.lt_succ_of_lt (h.closed number hmem)
  deleted := h.deleted
  once := h.once
  stack := @Stacked.add _ [] _ _ h.stack hfresh.ofObj.1.2 _ node
  statics other hother hkind := by
    rcases hvariables with ⟨hcamera, himg, htask⟩ | ⟨hcpu, rfl, rfl⟩
    · exact ⟨app, Set.mem_insert .., hcamera, himg, htask⟩
    · rcases hother with rfl | hother
      · cases hcpu.symm.trans hkind
      · obtain ⟨latest, hlatest, hrest⟩ := h.statics other hother hkind
        exact ⟨latest, Set.mem_insert_of_mem _ hlatest, hrest⟩

theorem Represents.camera (h : Represents state apps) {img task : Address}
    (hfresh : Fresh state img task) (node : Bool) :
    ∃ apps', Represents (lvglCameraPressCb state img task node) apps' := by
  let app : OpenApp := ⟨.camera, img, task, state.opened⟩
  have hfresh : Fresh state app.obj app.task := hfresh
  exact ⟨_, h.openApp rfl hfresh (.inl ⟨rfl, rfl, rfl⟩) node⟩

theorem Represents.cpu (h : Represents state apps) {page task : Address}
    (hfresh : Fresh state page task) (node : Bool) :
    ∃ apps', Represents (lvglCpuUsagePressCb state page task node) apps' := by
  let app : OpenApp := ⟨.cpu, page, task, state.opened⟩
  have hfresh : Fresh state app.obj app.task := hfresh
  exact ⟨_, h.openApp rfl hfresh (.inr ⟨rfl, rfl, rfl⟩) node⟩

/-! ## Deleting an object -/

/-- The variable `task` is that of the app if it is the only camera. -/
theorem Represents.sendDelete (h : Represents state apps) (happ : app ∈ apps)
    (halone : app.kind = .camera → ∀ other ∈ apps, other.kind = .camera → other = app) :
    lvObjSendDelete state app.obj = lvTaskDel state app.task := by
  cases hkind : app.kind with
  | camera =>
    obtain ⟨latest, hlatest, hcamera, _, htask⟩ := h.statics app happ hkind
    rw [lvObjSendDelete_camera (h.objs.nonnull app happ) (h.cell_camera happ hkind), ← htask,
      halone hkind latest hlatest hcamera]
  | cpu => exact lvObjSendDelete_cpu (h.objs.nonnull app happ) (h.cell_cpu happ hkind)

theorem Represents.delete (h : Represents state apps) (happ : app ∈ apps)
    (halone : app.kind = .camera → ∀ other ∈ apps, other.kind = .camera → other = app)
    (hstack : Stacked state.objs (app.obj :: state.activities)) :
    ∃ after, lvObjDel state app.obj = .ok after ∧ Represents after (apps \ {app}) := by
  have hrun := lvObjDel_eq (h.sendDelete happ halone) (h.tasks.nonnull app happ)
    (h.tasks.live app happ) (h.objs.nonnull app happ) (h.objs.live app happ)
  rw [app.timer_number, app.app_number] at hrun
  refine ⟨_, hrun, ?_⟩
  exact
    { objs := h.objs.free happ
      tasks := h.tasks.free happ
      numbers := h.numbers.mono Set.sdiff_subset
      opened := by
        rintro other ⟨hother, hne⟩
        obtain ⟨hlt, hlive⟩ := h.opened other hother
        refine ⟨hlt, fun hmem ↦ ?_⟩
        rcases List.mem_append.mp hmem with hold | hnew
        · exact hlive hold
        · exact hne (h.numbers hother happ (List.mem_singleton.mp hnew))
      closed := by
        intro number hmem
        rcases List.mem_append.mp hmem with hold | hnew
        · exact h.closed number hold
        · rw [List.mem_singleton.mp hnew]
          exact (h.opened app happ).1
      deleted := congrArg (· ++ [app.number]) h.deleted
      once := by
        simpa only [List.concat_eq_append] using List.Nodup.concat (h.opened app happ).2 h.once
      stack := @Stacked.remove _ [] _ _ hstack
      statics := by
        rintro other ⟨hother, hne⟩ hkind
        obtain ⟨latest, hlatest, hcamera, hrest⟩ := h.statics other hother hkind
        refine ⟨latest, ⟨hlatest, ?_⟩, hcamera, hrest⟩
        rintro rfl
        exact hne (halone hcamera other hother hkind) }

/-- With two cameras, the wrong task is deleted, or the image of a live task. -/
theorem Represents.delete_unowned (h : Represents state apps) (happ : app ∈ apps)
    (hkind : app.kind = .camera) {other : OpenApp} (hother : other ∈ apps)
    (hcamera : other.kind = .camera) (hne : other ≠ app) :
    ∃ after, lvObjDel state app.obj = .ok after ∧ ¬ Owned after := by
  obtain ⟨latest, hlatest, hlast, himg, htask⟩ := h.statics app happ hkind
  have hobj := h.objs.nonnull app happ
  have hsend : lvObjSendDelete state app.obj = lvTaskDel state latest.task := by
    rw [lvObjSendDelete_camera hobj (h.cell_camera happ hkind), htask]
  have hrun := lvObjDel_eq hsend (h.tasks.nonnull latest hlatest) (h.tasks.live latest hlatest)
    hobj (h.objs.live app happ)
  rw [latest.timer_number, app.app_number] at hrun
  refine ⟨_, hrun, fun howned ↦ ?_⟩
  -- the logs agree only if the deleted image is the latest, and then `img` is dead
  have hnumber : latest.number = app.number := by
    have hlogs := howned.deleted
    rw [h.deleted] at hlogs
    exact List.singleton_inj.mp (List.append_cancel_left hlogs)
  obtain rfl : latest = app := h.numbers hlatest happ hnumber
  have htimer : (state.tasks.set latest.task none).cell other.task =
      some ⟨.cameraTask, other.number⟩ := by
    rw [Heap.cell_set_of_ne fun hsame ↦ hne (h.tasks.separate hother hlatest hsame),
      h.tasks.live other hother, OpenApp.timer, hcamera]
  obtain ⟨number, hcell⟩ := howned.image _ _ htimer
  rw [← himg, Heap.cell_set_self] at hcell
  cases hcell

/-! ## Menu events -/

theorem Represents.pop (h : Represents state apps) {rest : List Address}
    (hactivities : state.activities = obj :: rest) :
    Represents { state with activities := rest } apps ∧
      ∃ app ∈ apps, app.obj = obj ∧ Stacked state.objs (obj :: rest) := by
  have hstack := h.stack
  rw [hactivities] at hstack
  obtain ⟨app, happ, hobj⟩ := h.objs.owned obj (hstack.2 obj (List.mem_cons_self ..))
  exact ⟨⟨h.objs, h.tasks, h.numbers, h.opened, h.closed, h.deleted, h.once, hstack.tail,
    h.statics⟩, app, happ, hobj, hstack⟩

/-- Deleting the top activity is sound exactly when it is no camera image, or the only one. -/
theorem Represents.delete_top (h : Represents state apps) {rest : List Address}
    (hactivities : state.activities = obj :: rest) :
    ∃ after, lvObjDel { state with activities := rest } obj = .ok after ∧
      (Owned after ↔ (IsCamera state obj → ∀ other, IsCamera state other → other = obj)) ∧
      (Owned after → ∃ apps', Represents after apps') := by
  obtain ⟨hpopped, app, happ, rfl, hstack⟩ := h.pop hactivities
  by_cases halone : app.kind = .camera → ∀ other ∈ apps, other.kind = .camera → other = app
  · obtain ⟨after, hrun, hafter⟩ := hpopped.delete happ halone hstack
    refine ⟨after, hrun, iff_of_true hafter.owned fun hcamera other hother ↦ ?_,
      fun _ ↦ ⟨_, hafter⟩⟩
    obtain ⟨found, hfound, hkind, rfl⟩ := h.isCamera_iff.mp hother
    obtain ⟨self, hself, hcamera', hsame⟩ := h.isCamera_iff.mp hcamera
    obtain rfl : self = app := h.objs.separate hself happ hsame
    rw [halone hcamera' found hfound hkind]
  · push Not at halone
    obtain ⟨hkind, other, hother, hcamera, hne⟩ := halone
    obtain ⟨after, hrun, hafter⟩ := hpopped.delete_unowned happ hkind hother hcamera hne
    refine ⟨after, hrun, iff_of_false hafter fun hguard ↦ ?_, fun howned ↦ absurd howned hafter⟩
    have hsame := hguard (h.isCamera_iff.mpr ⟨app, happ, hkind, rfl⟩) _
      (h.isCamera_iff.mpr ⟨other, hother, hcamera, rfl⟩)
    exact hne (h.objs.separate hother happ hsame)

theorem cancelCb_nil (h : state.activities = []) :
    cancelCb state = .ok { state with activities := [] } := by
  simp [cancelCb, h, lvRemoveActivityObj]
  rfl

theorem cancelCb_cons {rest : List Address} (h : state.activities = obj :: rest) (hobj : obj ≠ 0) :
    cancelCb state = lvObjDel { state with activities := rest } obj := by
  simp only [cancelCb, h, lvRemoveActivityObj, if_pos hobj]

theorem closePressCb_nil (h : state.activities = []) :
    closePressCb state = .error .nullPointer := by
  simp only [closePressCb, h, lvRemoveActivityObj]
  rfl

theorem closePressCb_cons {rest : List Address} (h : state.activities = obj :: rest) :
    closePressCb state = lvObjDel { state with activities := rest } obj := by
  simp only [closePressCb, h, lvRemoveActivityObj]

theorem sound_ok_iff {event : Event} {after : State} :
    Sound state event (.ok after) ↔ Owned after :=
  ⟨fun h ↦ h.2 after rfl, fun h ↦ ⟨nofun, fun _ hafter ↦ Except.ok.inj hafter ▸ h⟩⟩

/-- Both events that pop an activity delete it, if there is one. -/
theorem serve_pop {event : Event} (hevent : event = .cancel ∨ ∃ page, event = .close page)
    (h : Represents state apps) :
    (state.activities = [] ∧ (serve state event = .error .nullPointer ∨
      serve state event = .ok { state with activities := [] })) ∨
    ∃ obj rest, state.activities = obj :: rest ∧
      serve state event = lvObjDel { state with activities := rest } obj := by
  cases hactivities : state.activities with
  | nil =>
    refine .inl ⟨rfl, ?_⟩
    rcases hevent with rfl | ⟨page, rfl⟩
    · exact .inr (cancelCb_nil hactivities)
    · exact .inl (closePressCb_nil hactivities)
  | cons obj rest =>
    refine .inr ⟨obj, rest, rfl, ?_⟩
    rcases hevent with rfl | ⟨page, rfl⟩
    · obtain ⟨_, app, happ, rfl, _⟩ := h.pop hactivities
      exact cancelCb_cons hactivities (h.objs.nonnull app happ)
    · exact closePressCb_cons hactivities

def Kept (state : State) : Prop := ∃ apps, Represents state apps

/-- The step is sound exactly when it meets the guard, and then it keeps the invariant. -/
def Exact (state : State) (event : Event) : Prop :=
  (Sound state event (serve state event) ↔ Alone state event) ∧
    ∀ next, serve state event = .ok next → Alone state event → Kept next

theorem exact_of_kept {event : Event} {after : State} (hserve : serve state event = .ok after)
    (h : Kept after) (hguard : Alone state event) : Exact state event := by
  obtain ⟨apps, hafter⟩ := h
  rw [Exact, hserve]
  refine ⟨iff_of_true (sound_ok_iff.mpr hafter.owned) hguard, ?_⟩
  rintro _ ⟨⟩ _
  exact ⟨apps, hafter⟩

theorem exact_pop {event : Event} (hevent : event = .cancel ∨ ∃ page, event = .close page)
    (h : Represents state apps) : Exact state event := by
  rcases serve_pop hevent h with ⟨hnil, hserve⟩ | ⟨obj, rest, hcons, hserve⟩
  · have halone : Alone state event := by
      intro _ obj hobj
      rw [hnil] at hobj
      cases hobj
    have hempty : Represents { state with activities := [] } apps :=
      ⟨h.objs, h.tasks, h.numbers, h.opened, h.closed, h.deleted, h.once, ⟨List.nodup_nil, nofun⟩,
        h.statics⟩
    rcases hserve with hserve | hserve
    · rw [Exact, hserve]
      exact ⟨iff_of_true ⟨nofun, nofun⟩ halone, nofun⟩
    · exact exact_of_kept hserve ⟨apps, hempty⟩ halone
  · obtain ⟨after, hrun, howned, hkept⟩ := h.delete_top hcons
    have hguard : Alone state event ↔
        (IsCamera state obj → ∀ other, IsCamera state other → other = obj) := by
      rw [Alone, hcons]
      exact ⟨fun halone ↦ halone hevent obj rfl, fun halone _ _ hobj ↦
        Option.some.inj hobj ▸ halone⟩
    rw [Exact, hserve, hrun, sound_ok_iff, howned, hguard]
    refine ⟨Iff.rfl, ?_⟩
    rintro _ ⟨⟩ halone
    exact hkept (howned.mpr halone)

theorem exact_serve {event : Event} (h : Kept state) (henabled : Enabled state event) :
    Exact state event := by
  obtain ⟨apps, h⟩ := h
  cases event with
  | camera img task node => exact exact_of_kept rfl (h.camera henabled node) (by simp [Alone])
  | cpu page task node => exact exact_of_kept rfl (h.cpu henabled node) (by simp [Alone])
  | close page => exact exact_pop (.inr ⟨page, rfl⟩) h
  | cancel => exact exact_pop (.inl rfl) h

/-- **Ownership.** In a sequence of menu events every task is deleted once, with its object, and a
camera task finds a live image, exactly when no camera image is deleted while there is another. -/
theorem owned_iff (events : List Event) :
    menu.Always Sound start events ↔ menu.Guarded Alone start events := by
  have hstart : Kept start := ⟨∅, start_represents⟩
  apply System.always_iff_guarded _ _ hstart
  · exact fun state event hkept henabled ↦ (exact_serve hkept henabled).1
  · exact fun state event next hkept henabled hguard hstep ↦
      (exact_serve hkept henabled).2 next hstep hguard

/-- The camera is opened twice and cancelled once: the task of the first image is left with the
deleted second image. -/
theorem second_camera_leaves_deleted_image :
    ¬ menu.Always Sound start [.camera 16 32 true, .camera 48 64 true, .cancel] := by
  intro hsound
  have hfirst : Fresh start 16 32 := ⟨⟨⟨nofun, rfl⟩, rfl⟩, ⟨⟨nofun, rfl⟩, rfl⟩, nofun⟩
  have hsecond : Fresh (lvglCameraPressCb start 16 32 true) 48 64 :=
    ⟨⟨⟨nofun, rfl⟩, rfl⟩, ⟨⟨nofun, rfl⟩, rfl⟩, nofun⟩
  obtain ⟨_, howned⟩ := System.always_iff_forall_run.mp hsound
    [.camera 16 32 true, .camera 48 64 true] .cancel [] _ rfl
    (.cons hfirst rfl <| .cons hsecond rfl <| .nil _) trivial
  obtain ⟨number, hcell⟩ := (howned _ rfl).image 32 0 rfl
  cases hcell

end K210Firmware.Gui.Ownership
