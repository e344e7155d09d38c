import K210Firmware.Library.Heap
import K210Firmware.Library.Transition
import Mathlib.Data.List.Nodup

/-!
# The apps of the menu

The camera app shows an image on the whole screen, and the CPU app a page with a list. Each has a
periodic task, which a callback deletes when LVGL tells it that the object is being deleted. The
CPU page keeps the handle of its task in the `user_data` of its list; the camera keeps it in a
file-scope variable, next to one for the image. Open apps are on a stack of activities, which the
cancel key and the close button of a CPU page pop.
-/

namespace K210Firmware.Gui.Apps

open Memory Transition

/-! ## Objects and tasks -/

/-- The first name that `lv_obj_get_type` finds, which is empty for the buttons of a list and for
the scrollable part of a page. -/
inductive ObjType
  | lvImg
  | lvLabel
  | lvPage
  | lvList
  | empty
  deriving DecidableEq, Repr

inductive EventCb
  | null
  | cameraImgCb
  | closePressCb
  deriving DecidableEq, Repr

/-- An object with its children, the latest child first. -/
inductive Obj
  | mk (type : ObjType) (eventCb : EventCb) (userData : Address) (children : List Obj)

namespace Obj

def type : Obj → ObjType
  | mk type _ _ _ => type

def eventCb : Obj → EventCb
  | mk _ eventCb _ _ => eventCb

def userData : Obj → Address
  | mk _ _ userData _ => userData

mutual

/-- The objects to which `lv_obj_del` sends `LV_EVENT_DELETE`, in this order, each followed by its
ancestors. -/
def deletions (ancestors : List Obj) : Obj → List (List Obj)
  | mk type eventCb userData children =>
    deletionsOf (mk type eventCb userData children :: ancestors) children ++
      [mk type eventCb userData children :: ancestors]

def deletionsOf (ancestors : List Obj) : List Obj → List (List Obj)
  | [] => []
  | child :: children => deletions ancestors child ++ deletionsOf ancestors children

end

end Obj

/-- `lv_find_obj_parent_by_type`; the objects are the one to start from and its ancestors. -/
def lvFindObjParentByType (objs : List Obj) (type : ObjType) : Option Obj :=
  objs.find? fun obj ↦ obj.type = type

inductive TaskCb
  | cameraTask
  | refreshCpuTask
  deriving DecidableEq, Repr

/-- An object on the screen or in the menu. The number counts the apps opened, and is the same for
the object and for the task created with it. -/
structure App where
  obj : Obj
  number : ℕ

structure Task where
  taskCb : TaskCb
  number : ℕ
  deriving DecidableEq, Repr

/-- The variables of `lvgl_camera.c`, the objects and tasks of open apps, and the activities; and
the number of apps opened, and those whose object or task has been deleted. -/
structure State where
  img : Address
  task : Address
  objs : Heap App
  tasks : Heap Task
  activities : List Address
  opened : ℕ
  objsDeleted : List ℕ
  tasksDeleted : List ℕ

def start : State := ⟨0, 0, .empty, .empty, [], 0, [], []⟩

/-! ## LVGL -/

def lvTaskDel (state : State) (task : Address) : Except Fault State := do
  let entry ← state.tasks.load task
  return { state with
    tasks := state.tasks.set task none
    tasksDeleted := state.tasksDeleted ++ [entry.number] }

/-- The callbacks for `LV_EVENT_DELETE`; `objs` are the object and its ancestors. The parameter
`img` of `camera_img_cb` is not used, but the variable `task` is. -/
def sendDelete (state : State) (objs : List Obj) : Except Fault State :=
  match objs.head?.map Obj.eventCb with
  | some .cameraImgCb => lvTaskDel state state.task
  | some .closePressCb =>
    match lvFindObjParentByType objs .lvList with
    | some list => lvTaskDel state list.userData
    | none => .error .nullPointer
  | _ => .ok state

/-- The first half of `lv_obj_del`: the object and its children are told. -/
def lvObjSendDelete (state : State) (obj : Address) : Except Fault State := do
  let app ← state.objs.load obj
  (app.obj.deletions []).foldlM sendDelete state

/-- The second half of `lv_obj_del`: the object is freed, with its children. -/
def lvObjFree (state : State) (obj : Address) : Except Fault State := do
  let app ← state.objs.load obj
  return { state with
    objs := state.objs.set obj none
    objsDeleted := state.objsDeleted ++ [app.number] }

def lvObjDel (state : State) (obj : Address) : Except Fault State := do
  let state ← lvObjSendDelete state obj
  lvObjFree state obj

/-! ## Activities -/

/-- `node` says whether `rt_malloc` returns a block. -/
def lvAddActivityObj (activities : List Address) (obj : Address) (node : Bool) :
    ℤ × List Address :=
  if node then (0, obj :: activities) else (-1, activities)

def lvRemoveActivityObj : List Address → Address × List Address
  | [] => (0, [])
  | obj :: activities => (obj, activities)

/-! ## The apps -/

def cameraImg : Obj := .mk .lvImg .cameraImgCb 0 []

/-- The page after `add_thread_list`, without the buttons of the threads. -/
def cpuUsagePage (task : Address) : Obj :=
  .mk .lvPage .null 0
    [.mk .empty .null 0
      [.mk .lvList .null task
        [.mk .empty .null 0
          [.mk .empty .closePressCb 0 [.mk .lvLabel .null 0 [], .mk .lvImg .null 0 []]]]]]

/-- `lvgl_camera_press_cb` for `LV_EVENT_CLICKED`, once `camera_get_buff` has returned. -/
def lvglCameraPressCb (state : State) (img task : Address) (node : Bool) : State :=
  { state with
    img
    task
    objs := state.objs.set img (some ⟨cameraImg, state.opened⟩)
    tasks := state.tasks.set task (some ⟨.cameraTask, state.opened⟩)
    activities := (lvAddActivityObj state.activities img node).2
    opened := state.opened + 1 }

/-- `lvgl_cpu_usage_press_cb` for `LV_EVENT_CLICKED`. -/
def lvglCpuUsagePressCb (state : State) (page task : Address) (node : Bool) : State :=
  { state with
    objs := state.objs.set page (some ⟨cpuUsagePage task, state.opened⟩)
    tasks := state.tasks.set task (some ⟨.refreshCpuTask, state.opened⟩)
    activities := (lvAddActivityObj state.activities page node).2
    opened := state.opened + 1 }

/-- `close_press_cb` for `LV_EVENT_CLICKED`; without an activity it deletes the null pointer. -/
def closePressCb (state : State) : Except Fault State :=
  let (obj, activities) := lvRemoveActivityObj state.activities
  lvObjDel { state with activities } obj

def cancelCb (state : State) : Except Fault State :=
  let (obj, activities) := lvRemoveActivityObj state.activities
  if obj ≠ 0 then lvObjDel { state with activities } obj else return { state with activities }

/-! ## Menu events -/

/-- An item of the menu is clicked, with what the allocator answers, or the close button of a page,
or the cancel key. -/
inductive Event
  | camera (img task : Address) (node : Bool)
  | cpu (page task : Address) (node : Bool)
  | close (page : Address)
  | cancel
  deriving DecidableEq, Repr

/-- Objects and tasks come from one allocator. -/
structure Fresh (state : State) (obj task : Address) : Prop where
  ofObj : state.objs.Fresh obj ∧ state.tasks.cell obj = none
  ofTask : state.tasks.Fresh task ∧ state.objs.cell task = none
  ne : obj ≠ task

def Enabled (state : State) : Event → Prop
  | .camera img task _ => Fresh state img task
  | .cpu page task _ => Fresh state page task
  | .close page => ∃ task number, state.objs.cell page = some ⟨cpuUsagePage task, number⟩
  | .cancel => True

def serve (state : State) : Event → Except Fault State
  | .camera img task node => .ok (lvglCameraPressCb state img task node)
  | .cpu page task node => .ok (lvglCpuUsagePressCb state page task node)
  | .close _ => closePressCb state
  | .cancel => cancelCb state

def menu : System State Event Fault where
  enabled := Enabled
  step := serve

def IsCamera (state : State) (obj : Address) : Prop :=
  ∃ number, state.objs.cell obj = some ⟨cameraImg, number⟩

/-! ## The stack of activities -/

/-- The objects are different, and live. -/
def Stacked (objs : Heap App) (stack : List Address) : Prop :=
  stack.Nodup ∧ ∀ obj ∈ stack, objs.cell obj ≠ none

section Stacked

variable {objs : Heap App} {front rest : List Address} {obj : Address}

theorem Stacked.tail (h : Stacked objs (obj :: rest)) : Stacked objs rest :=
  ⟨(List.nodup_cons.mp h.1).2, fun other hother ↦ h.2 other (List.mem_cons_of_mem _ hother)⟩

theorem Stacked.add (h : Stacked objs (front ++ rest)) (hfresh : objs.cell obj = none) (app : App)
    (node : Bool) :
    Stacked (objs.set obj (some app)) (front ++ (lvAddActivityObj rest obj node).2) := by
  have hnew : obj ∉ front ++ rest := fun hmem ↦ h.2 obj hmem hfresh
  have hlive (other : Address) (hother : other ∈ front ++ rest) :
      (objs.set obj (some app)).cell other ≠ none := by
    have hne : other ≠ obj := fun hsame ↦ hnew (hsame ▸ hother)
    rw [Heap.cell_set_of_ne hne]
    exact h.2 other hother
  unfold lvAddActivityObj
  split
  · refine ⟨List.nodup_middle.mpr (List.nodup_cons.mpr ⟨hnew, h.1⟩), fun other hother ↦ ?_⟩
    rcases List.mem_cons.mp (List.perm_middle.mem_iff.mp hother) with rfl | hother
    · rw [Heap.cell_set_self]
      nofun
    · exact hlive other hother
  · exact ⟨h.1, hlive⟩

theorem Stacked.remove (h : Stacked objs (front ++ obj :: rest)) :
    Stacked (objs.set obj none) (front ++ rest) := by
  obtain ⟨hnew, hnodup⟩ := List.nodup_cons.mp (List.nodup_middle.mp h.1)
  refine ⟨hnodup, fun other hother ↦ ?_⟩
  have hne : other ≠ obj := fun hsame ↦ hnew (hsame ▸ hother)
  rw [Heap.cell_set_of_ne hne]
  exact h.2 other (List.perm_middle.mem_iff.mpr (List.mem_cons_of_mem _ hother))

end Stacked

/-! ## Deleting an object -/

variable {state : State} {obj : Address}

/-- A camera image deletes the task of the variable, whichever image that belongs to. -/
theorem lvObjSendDelete_camera {number : ℕ} (hobj : obj ≠ 0)
    (hcell : state.objs.cell obj = some ⟨cameraImg, number⟩) :
    lvObjSendDelete state obj = lvTaskDel state state.task := by
  rw [lvObjSendDelete, Heap.load_eq_ok hobj hcell, ok_bind]
  exact bind_pure (lvTaskDel state state.task)

/-- A page deletes the task of its own list. -/
theorem lvObjSendDelete_cpu {task : Address} {number : ℕ} (hobj : obj ≠ 0)
    (hcell : state.objs.cell obj = some ⟨cpuUsagePage task, number⟩) :
    lvObjSendDelete state obj = lvTaskDel state task := by
  rw [lvObjSendDelete, Heap.load_eq_ok hobj hcell, ok_bind]
  exact bind_pure (lvTaskDel state task)

theorem lvTaskDel_eq {task : Address} {entry : Task} (htask : task ≠ 0)
    (hcell : state.tasks.cell task = some entry) :
    lvTaskDel state task = .ok { state with
      tasks := state.tasks.set task none
      tasksDeleted := state.tasksDeleted ++ [entry.number] } := by
  rw [lvTaskDel, Heap.load_eq_ok htask hcell]
  rfl

theorem lvObjFree_eq {app : App} (hobj : obj ≠ 0) (hcell : state.objs.cell obj = some app) :
    lvObjFree state obj = .ok { state with
      objs := state.objs.set obj none
      objsDeleted := state.objsDeleted ++ [app.number] } := by
  rw [lvObjFree, Heap.load_eq_ok hobj hcell]
  rfl

theorem lvObjFree_cases {after : State} (h : lvObjFree state obj = .ok after) :
    ∃ number, after = { state with
      objs := state.objs.set obj none
      objsDeleted := state.objsDeleted ++ [number] } := by
  obtain ⟨app, _, hafter⟩ := bind_eq_ok.mp h
  cases hafter
  exact ⟨app.number, rfl⟩

theorem lvObjDel_eq {task : Address} {entry : Task} {app : App}
    (hsend : lvObjSendDelete state obj = lvTaskDel state task) (htask : task ≠ 0)
    (hentry : state.tasks.cell task = some entry) (hobj : obj ≠ 0)
    (hcell : state.objs.cell obj = some app) :
    lvObjDel state obj = .ok { state with
      tasks := state.tasks.set task none
      tasksDeleted := state.tasksDeleted ++ [entry.number]
      objs := state.objs.set obj none
      objsDeleted := state.objsDeleted ++ [app.number] } := by
  rw [lvObjDel, hsend, lvTaskDel_eq htask hentry, ok_bind]
  exact lvObjFree_eq hobj hcell

/-- The same state, less some tasks. -/
structure FewerTasks (before after : State) : Prop where
  img : after.img = before.img
  objs : after.objs = before.objs
  activities : after.activities = before.activities
  tasks : ∀ task entry, after.tasks.cell task = some entry → before.tasks.cell task = some entry

theorem FewerTasks.refl (state : State) : FewerTasks state state :=
  ⟨rfl, rfl, rfl, fun _ _ h ↦ h⟩

theorem FewerTasks.trans {before after last : State} (h : FewerTasks before after)
    (hlast : FewerTasks after last) : FewerTasks before last where
  img := hlast.img.trans h.img
  objs := hlast.objs.trans h.objs
  activities := hlast.activities.trans h.activities
  tasks task entry hcell := h.tasks task entry (hlast.tasks task entry hcell)

theorem lvTaskDel_tasks {task : Address} {after : State} (h : lvTaskDel state task = .ok after) :
    after.tasks = state.tasks.set task none := by
  obtain ⟨entry, _, hafter⟩ := bind_eq_ok.mp h
  cases hafter
  rfl

theorem lvTaskDel_fewer {task : Address} {after : State} (h : lvTaskDel state task = .ok after) :
    FewerTasks state after := by
  obtain ⟨entry, _, hafter⟩ := bind_eq_ok.mp h
  cases hafter
  refine ⟨rfl, rfl, rfl, fun other found hcell ↦ ?_⟩
  by_cases hsame : other = task
  · rw [hsame, Heap.cell_set_self] at hcell
    cases hcell
  · rwa [Heap.cell_set_of_ne hsame] at hcell

theorem sendDelete_fewer {objs : List Obj} {after : State}
    (h : sendDelete state objs = .ok after) : FewerTasks state after := by
  unfold sendDelete at h
  split at h
  case h_1 => exact lvTaskDel_fewer h
  case h_2 =>
    split at h
    case h_1 => exact lvTaskDel_fewer h
    case h_2 => cases h
  case h_3 =>
    cases h
    exact .refl state

theorem lvObjSendDelete_fewer {after : State} (h : lvObjSendDelete state obj = .ok after) :
    FewerTasks state after := by
  obtain ⟨app, _, hloop⟩ := bind_eq_ok.mp h
  exact foldlM_preserves (fun _ _ _ hbefore hstep ↦ hbefore.trans (sendDelete_fewer hstep))
    (FewerTasks.refl state) hloop

end K210Firmware.Gui.Apps
