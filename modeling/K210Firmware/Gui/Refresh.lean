import K210Firmware.Camera.Ov2640
import K210Firmware.Gui.Apps

/-!
# Refreshing the camera image

`camera_task` waits for a frame in `camera_get_buff`, and then passes the image of the variable
`img` to `lv_img_set_src`. The cancel key is served by another thread, which pops the top activity
and deletes it. Deleting the task of an image takes the task out of the list but does not stop it:
if it waits for a frame, the image is gone when it goes on. `refresh_live` gives a condition under
which this does not happen.
-/

namespace K210Firmware.Gui.Refresh

open Memory Apps Transition

/-- What the LVGL thread does: nothing here, `camera_task`, or the opening of the camera. The last
two begin with `camera_get_buff`. -/
inductive LvglThread
  | idle
  | refreshing
  | opening
  deriving DecidableEq, Repr

/-- Where the key thread is in `cancel_cb`: it has popped an object, or has also told it of its
deletion. -/
inductive KeyThread
  | idle
  | popped (obj : Address)
  | told (obj : Address)
  deriving DecidableEq, Repr

def KeyThread.holds : KeyThread → List Address
  | idle => []
  | popped obj => [obj]
  | told obj => [obj]

structure State where
  apps : Apps.State
  driver : Camera.Ov2640.State
  lvgl : LvglThread
  key : KeyThread

/-- A step of the LVGL thread, of the camera driver or the camera, or of the key thread. -/
inductive Event
  | startTask (task : Address)
  | setSrc
  | click
  | create (img task : Address) (node : Bool)
  | cpu (page task : Address) (node : Bool)
  | close (page : Address)
  | driver (event : Camera.Ov2640.Event)
  | pop
  | sendDelete
  | free
  deriving DecidableEq, Repr

def start : State := ⟨Apps.start, Camera.Ov2640.hwOv2640Init, .idle, .idle⟩

/-- `lv_img_set_src` reads and writes the extension of an image. -/
def lvImgSetSrc (apps : Apps.State) : Except Fault Unit := do
  let app ← apps.objs.load apps.img
  if app.obj.type = .lvImg then return () else .error .wrongObject

/-- The first step of `cancel_cb`. -/
def popActivity (state : State) : State :=
  let (obj, activities) := lvRemoveActivityObj state.apps.activities
  { state with
    apps := { state.apps with activities }
    key := if obj ≠ 0 then .popped obj else .idle }

def serve (state : State) : Event → Except Fault State
  | .startTask _ =>
    .ok { state with
      driver := Camera.Ov2640.serve state.driver .call
      lvgl := .refreshing }
  | .setSrc => do
    lvImgSetSrc state.apps
    return { state with lvgl := .idle }
  | .click =>
    .ok { state with
      driver := Camera.Ov2640.serve state.driver .call
      lvgl := .opening }
  | .create img task node =>
    .ok { state with apps := lvglCameraPressCb state.apps img task node, lvgl := .idle }
  | .cpu page task node => .ok { state with apps := lvglCpuUsagePressCb state.apps page task node }
  | .close _ => do
    let apps ← closePressCb state.apps
    return { state with apps }
  | .driver event => .ok { state with driver := Camera.Ov2640.serve state.driver event }
  | .pop => .ok (popActivity state)
  | .sendDelete =>
    match state.key with
    | .popped obj => do
      let apps ← lvObjSendDelete state.apps obj
      return { state with apps, key := .told obj }
    | _ => .ok state
  | .free =>
    match state.key with
    | .told obj => do
      let apps ← lvObjFree state.apps obj
      return { state with apps, key := .idle }
    | _ => .ok state

/-- The LVGL thread runs one task or callback at a time, and leaves the driver only when that has
returned a buffer. -/
def Enabled (state : State) : Event → Prop
  | .startTask task => state.lvgl = .idle ∧
      ∃ number, state.apps.tasks.cell task = some ⟨.cameraTask, number⟩
  | .setSrc => state.lvgl = .refreshing ∧ state.driver.step = .outside
  | .click => state.lvgl = .idle
  | .create img task _ => (state.lvgl = .opening ∧ state.driver.step = .outside) ∧
      Fresh state.apps img task
  | .cpu page task _ => state.lvgl = .idle ∧ Fresh state.apps page task
  | .close page => state.lvgl = .idle ∧ Apps.Enabled state.apps (.close page)
  | .driver event => event ≠ .call ∧ Camera.Ov2640.enabled state.driver event
  | .pop => state.key = .idle
  | .sendDelete => ∃ obj, state.key = .popped obj
  | .free => ∃ obj, state.key = .told obj

def threads : System State Event Fault where
  enabled := Enabled
  step := serve

def IsCameraTask (apps : Apps.State) (task : Address) : Prop :=
  ∃ number, apps.tasks.cell task = some ⟨.cameraTask, number⟩

/-- What `camera_task` passes to `lv_img_set_src` is the image, which has not been deleted. -/
def PassesImage (state : State) (event : Event) (outcome : Except Fault State) : Prop :=
  event = .setSrc → IsCamera state.apps state.apps.img ∧ outcome ≠ .error .deadObject

/-- The only camera task is the one that an image deletes. -/
def SingleTask (apps : Apps.State) : Prop :=
  ∀ task, IsCameraTask apps task → task = apps.task

/-- The image of the variable is told of its deletion only if there is one camera task, and it is
freed only when `camera_task` does not run. -/
def Quiet (state : State) : Event → Prop
  | .close _ => state.apps.activities.head? = some state.apps.img → SingleTask state.apps
  | .sendDelete => state.key = .popped state.apps.img → SingleTask state.apps
  | .free => state.key = .told state.apps.img → state.lvgl ≠ .refreshing
  | _ => True

/-! ## The invariant -/

/-- While there is a camera task, or one runs, the variable `img` names a live image; an image that
has been told of its deletion leaves no task behind. -/
structure Kept (state : State) : Prop where
  image : state.lvgl = .refreshing ∨ (∃ task, IsCameraTask state.apps task) →
    IsCamera state.apps state.apps.img
  told : state.key = .told state.apps.img → ∀ task, ¬ IsCameraTask state.apps task
  stack : Stacked state.apps.objs (state.key.holds ++ state.apps.activities)

variable {state next : State} {apps after : Apps.State} {obj : Address}

theorem start_kept : Kept start where
  image := by
    rintro (hrun | ⟨task, number, hcell⟩)
    · cases hrun
    · cases hcell
  told := nofun
  stack := ⟨List.nodup_nil, nofun⟩

theorem isCameraTask_of_fewer (h : FewerTasks apps after) {task : Address}
    (htask : IsCameraTask after task) : IsCameraTask apps task := by
  obtain ⟨number, hcell⟩ := htask
  exact ⟨number, h.tasks task _ hcell⟩

/-- The deletion of the image takes the single camera task out of the list. -/
theorem no_task_of_sendDelete (himage : (∃ task, IsCameraTask apps task) → IsCamera apps apps.img)
    (hsingle : SingleTask apps) (hrun : lvObjSendDelete apps apps.img = .ok after)
    (task : Address) : ¬ IsCameraTask after task := by
  intro htask
  have hbefore := isCameraTask_of_fewer (lvObjSendDelete_fewer hrun) htask
  obtain ⟨_, himg⟩ := himage ⟨task, hbefore⟩
  have hnonnull : apps.img ≠ 0 := by
    intro hnull
    rw [lvObjSendDelete, hnull] at hrun
    cases hrun
  rw [lvObjSendDelete_camera hnonnull himg] at hrun
  obtain ⟨_, hcell⟩ := htask
  rw [lvTaskDel_tasks hrun, hsingle task hbefore, Heap.cell_set_self] at hcell
  cases hcell

/-! ## Every step -/

/-- A new image is the one that the variable names. -/
theorem Kept.create (h : Kept state) {img task : Address} (hfresh : Fresh state.apps img task)
    (node : Bool) :
    Kept { state with apps := lvglCameraPressCb state.apps img task node, lvgl := .idle } where
  image _ := ⟨_, Heap.cell_set_self _⟩
  told hkey := by
    have hkey : state.key = .told img := hkey
    have hlive := h.stack.2 img (by rw [hkey]; exact List.mem_cons_self ..)
    exact absurd hfresh.ofObj.1.2 hlive
  stack := h.stack.add hfresh.ofObj.1.2 _ node

theorem isCameraTask_cpu {page task other : Address} {node : Bool}
    (h : IsCameraTask (lvglCpuUsagePressCb apps page task node) other) :
    IsCameraTask apps other := by
  obtain ⟨number, hcell⟩ := h
  by_cases hsame : other = task
  · rw [hsame, lvglCpuUsagePressCb, Heap.cell_set_self] at hcell
    cases hcell
  · rw [lvglCpuUsagePressCb, Heap.cell_set_of_ne hsame] at hcell
    exact ⟨number, hcell⟩

theorem Kept.cpu (h : Kept state) {page task : Address} (hfresh : Fresh state.apps page task)
    (node : Bool) :
    Kept { state with apps := lvglCpuUsagePressCb state.apps page task node } where
  image himage := by
    have hbefore : IsCamera state.apps state.apps.img :=
      h.image (himage.imp_right fun ⟨other, hother⟩ ↦ ⟨other, isCameraTask_cpu hother⟩)
    obtain ⟨number, hcell⟩ := hbefore
    have hne : state.apps.img ≠ page := by
      intro hsame
      rw [hsame, hfresh.ofObj.1.2] at hcell
      cases hcell
    exact ⟨number, (Heap.cell_set_of_ne hne _).trans hcell⟩
  told hkey other hother := h.told hkey other (isCameraTask_cpu hother)
  stack := h.stack.add hfresh.ofObj.1.2 _ node

/-- Freeing an object other than the image, or the last use of the image. -/
theorem image_of_free {number : ℕ} (himage : IsCamera apps apps.img)
    (hother : obj ≠ apps.img)
    (hafter : after = { apps with
      objs := apps.objs.set obj none
      objsDeleted := apps.objsDeleted ++ [number] }) : IsCamera after after.img := by
  subst hafter
  obtain ⟨found, hcell⟩ := himage
  exact ⟨found, (Heap.cell_set_of_ne hother.symm none).trans hcell⟩

theorem Kept.close (h : Kept state) (hidle : state.lvgl = .idle)
    (hquiet : state.apps.activities.head? = some state.apps.img → SingleTask state.apps)
    (hrun : closePressCb state.apps = .ok after) : Kept { state with apps := after } := by
  have hstack := h.stack
  unfold closePressCb at hrun
  cases hactivities : state.apps.activities with
  | nil =>
    rw [hactivities] at hrun
    cases hrun
  | cons obj rest =>
    rw [hactivities] at hrun hstack hquiet
    obtain ⟨middle, hsend, hfree⟩ := bind_eq_ok.mp hrun
    have hfewer := lvObjSendDelete_fewer hsend
    obtain ⟨number, rfl⟩ := lvObjFree_cases hfree
    have htask {task : Address} (htask : IsCameraTask middle task) :
        IsCameraTask state.apps task := isCameraTask_of_fewer hfewer htask
    have himg : middle.img = state.apps.img := hfewer.img
    have hobjs : middle.objs = state.apps.objs := hfewer.objs
    refine ⟨fun himage ↦ ?_, fun hkey task hafter ↦ ?_, ?_⟩
    · rcases himage with hrefresh | ⟨task, hafter⟩
      · cases hidle.symm.trans hrefresh
      have hbefore : IsCamera middle middle.img := by
        rw [IsCamera, himg, hobjs]
        exact h.image (.inr ⟨task, htask hafter⟩)
      refine image_of_free hbefore (fun hsame ↦ ?_) rfl
      have hlast : obj = state.apps.img := hsame.trans himg
      subst hlast
      have hnone := @no_task_of_sendDelete { state.apps with activities := rest } middle
        (fun hlive ↦ h.image (.inr hlive)) (hquiet rfl) hsend
      exact hnone task hafter
    · exact h.told (himg ▸ hkey) task (htask hafter)
    · change Stacked (middle.objs.set obj none) (state.key.holds ++ middle.activities)
      rw [hobjs, hfewer.activities]
      exact hstack.remove

theorem popActivity_cons {activities : List Address}
    (h : state.apps.activities = obj :: activities) :
    popActivity state = { state with
      apps := { state.apps with activities }
      key := if obj ≠ 0 then .popped obj else .idle } := by
  rw [popActivity, h]
  rfl

theorem Kept.pop (h : Kept state) (hidle : state.key = .idle) : Kept (popActivity state) := by
  have hstack := h.stack
  rw [hidle] at hstack
  cases hactivities : state.apps.activities with
  | nil =>
    rw [popActivity, hactivities]
    exact ⟨h.image, nofun, List.nodup_nil, nofun⟩
  | cons obj activities =>
    rw [popActivity_cons hactivities]
    rw [hactivities] at hstack
    split_ifs
    · exact ⟨h.image, nofun, hstack⟩
    · exact ⟨h.image, nofun, hstack.tail⟩

theorem Kept.sendDelete (h : Kept state) (hkey : state.key = .popped obj)
    (hquiet : state.key = .popped state.apps.img → SingleTask state.apps)
    (hrun : lvObjSendDelete state.apps obj = .ok after) :
    Kept { state with apps := after, key := .told obj } := by
  have hfewer := lvObjSendDelete_fewer hrun
  have hstack := h.stack
  rw [hkey] at hstack hquiet
  refine ⟨fun himage ↦ ?_, fun htold task htask ↦ ?_, ?_⟩
  · change IsCamera after after.img
    rw [IsCamera, hfewer.img, hfewer.objs]
    exact h.image (himage.imp_right fun ⟨task, htask⟩ ↦ ⟨task, isCameraTask_of_fewer hfewer htask⟩)
  · obtain rfl : obj = state.apps.img := (KeyThread.told.inj htold).trans hfewer.img
    exact no_task_of_sendDelete (fun hlive ↦ h.image (.inr hlive)) (hquiet rfl) hrun
      task htask
  · change Stacked after.objs (obj :: after.activities)
    rw [hfewer.objs, hfewer.activities]
    exact hstack

theorem Kept.free (h : Kept state) (hkey : state.key = .told obj)
    (hquiet : state.key = .told state.apps.img → state.lvgl ≠ .refreshing)
    (hrun : lvObjFree state.apps obj = .ok after) :
    Kept { state with apps := after, key := .idle } := by
  have hstack := h.stack
  obtain ⟨number, rfl⟩ := lvObjFree_cases hrun
  rw [hkey] at hstack hquiet
  refine ⟨fun himage ↦ ?_, nofun, @Stacked.remove _ [] _ _ hstack⟩
  refine image_of_free (h.image himage) (fun hsame ↦ ?_) rfl
  subst hsame
  rcases himage with hrefresh | ⟨task, htask⟩
  · exact hquiet rfl hrefresh
  · exact h.told hkey task htask

theorem lvImgSetSrc_ne (h : IsCamera apps apps.img) :
    lvImgSetSrc apps ≠ .error .deadObject := by
  obtain ⟨number, hcell⟩ := h
  unfold lvImgSetSrc Heap.load
  rw [hcell]
  split_ifs
  · nofun
  · nofun

theorem Kept.passesImage (h : Kept state) {event : Event} (henabled : Enabled state event) :
    PassesImage state event (serve state event) := by
  rintro rfl
  have himage := h.image (.inl henabled.1)
  refine ⟨himage, fun hfault ↦ ?_⟩
  cases hsrc : lvImgSetSrc state.apps with
  | error fault =>
    simp only [serve, hsrc] at hfault
    cases hfault
    exact lvImgSetSrc_ne himage hsrc
  | ok _ =>
    simp only [serve, hsrc] at hfault
    cases hfault

theorem serve_kept {event : Event} (h : Kept state) (henabled : Enabled state event)
    (hquiet : Quiet state event) (hstep : serve state event = .ok next) : Kept next := by
  cases event with
  | startTask task =>
    cases hstep
    exact ⟨fun _ ↦ h.image (.inr ⟨task, henabled.2⟩), h.told, h.stack⟩
  | setSrc =>
    obtain ⟨_, _, hnext⟩ := bind_eq_ok.mp hstep
    cases hnext
    exact ⟨fun himage ↦ h.image (himage.elim nofun .inr), h.told, h.stack⟩
  | click =>
    cases hstep
    exact ⟨fun himage ↦ h.image (himage.elim nofun .inr), h.told, h.stack⟩
  | create img task node =>
    cases hstep
    exact h.create henabled.2 node
  | cpu page task node =>
    cases hstep
    exact h.cpu henabled.2 node
  | close page =>
    obtain ⟨after, hrun, hnext⟩ := bind_eq_ok.mp hstep
    cases hnext
    exact h.close henabled.1 hquiet hrun
  | driver event =>
    cases hstep
    exact ⟨h.image, h.told, h.stack⟩
  | pop =>
    cases hstep
    exact h.pop henabled
  | sendDelete =>
    obtain ⟨obj, hkey⟩ := henabled
    simp only [serve, hkey] at hstep
    obtain ⟨after, hrun, hnext⟩ := bind_eq_ok.mp hstep
    cases hnext
    exact h.sendDelete hkey hquiet hrun
  | free =>
    obtain ⟨obj, hkey⟩ := henabled
    simp only [serve, hkey] at hstep
    obtain ⟨after, hrun, hnext⟩ := bind_eq_ok.mp hstep
    cases hnext
    exact h.free hkey hquiet hrun

/-- **Refreshing the image.** In every interleaving in which the image is told of its deletion only
while its task is the only camera task, and freed only while `camera_task` does not run, no refresh
uses a deleted image. -/
theorem refresh_live (events : List Event) (hquiet : threads.Guarded Quiet start events) :
    threads.Always PassesImage start events := by
  apply System.Always.of_invariant _ _ start_kept hquiet
  · exact fun state event hkept henabled _ ↦ hkept.passesImage henabled
  · exact fun state event next hkept henabled hquiet hstep ↦
      serve_kept hkept henabled hquiet hstep

/-- The task of the first image is the only one. -/
theorem singleTask_first (img task : Address) (node : Bool) :
    SingleTask (lvglCameraPressCb Apps.start img task node) := by
  rintro other ⟨number, hcell⟩
  by_contra hne
  have hne : other ≠ task := hne
  rw [lvglCameraPressCb, Heap.cell_set_of_ne hne] at hcell
  cases hcell

/-- The camera is opened, refreshed once, and cancelled. -/
theorem refresh_live_once : threads.Always PassesImage start
    [.click, .driver .frameStart, .driver .frameFinish, .driver .see, .driver .clear,
      .driver .toggle, .driver .pick, .create 16 32 true, .startTask 32, .driver .frameStart,
      .driver .frameFinish, .driver .see, .driver .clear, .driver .toggle, .driver .pick, .setSrc,
      .pop, .sendDelete, .free] := by
  refine refresh_live _ ?_
  exact .cons rfl trivial <| .cons rfl trivial <| .cons rfl trivial <| .cons rfl trivial <|
    .cons rfl trivial <| .cons rfl trivial <| .cons rfl trivial <| .cons rfl trivial <|
    .cons rfl trivial <| .cons rfl trivial <| .cons rfl trivial <| .cons rfl trivial <|
    .cons rfl trivial <| .cons rfl trivial <| .cons rfl trivial <| .cons rfl trivial <|
    .cons rfl trivial <| .cons rfl (fun _ ↦ singleTask_first 16 32 true) <|
    .cons rfl (fun _ ↦ nofun) trivial

/-- The image is cancelled while `camera_task` waits for a frame. -/
theorem waiting_task_uses_deleted_image : ¬ threads.Always PassesImage start
    [.click, .driver .frameStart, .driver .frameFinish, .driver .see, .driver .clear,
      .driver .toggle, .driver .pick, .create 16 32 true, .startTask 32, .pop, .sendDelete, .free,
      .driver .frameStart, .driver .frameFinish, .driver .see, .driver .clear, .driver .toggle,
      .driver .pick, .setSrc] := by
  intro hpasses
  have hfresh : Fresh Apps.start 16 32 := ⟨⟨⟨nofun, rfl⟩, rfl⟩, ⟨⟨nofun, rfl⟩, rfl⟩, nofun⟩
  have hsetSrc := System.always_iff_forall_run.mp hpasses
    [.click, .driver .frameStart, .driver .frameFinish, .driver .see, .driver .clear,
      .driver .toggle, .driver .pick, .create 16 32 true, .startTask 32, .pop, .sendDelete, .free,
      .driver .frameStart, .driver .frameFinish, .driver .see, .driver .clear, .driver .toggle,
      .driver .pick] .setSrc [] _ rfl
    (.cons rfl rfl <| .cons ⟨nofun, rfl⟩ rfl <| .cons ⟨nofun, nofun⟩ rfl <|
      .cons ⟨nofun, rfl⟩ rfl <| .cons ⟨nofun, rfl⟩ rfl <| .cons ⟨nofun, rfl⟩ rfl <|
      .cons ⟨nofun, rfl⟩ rfl <| .cons ⟨⟨rfl, rfl⟩, hfresh⟩ rfl <| .cons ⟨rfl, 0, rfl⟩ rfl <|
      .cons rfl rfl <| .cons ⟨16, rfl⟩ rfl <| .cons ⟨16, rfl⟩ rfl <| .cons ⟨nofun, rfl⟩ rfl <|
      .cons ⟨nofun, nofun⟩ rfl <| .cons ⟨nofun, rfl⟩ rfl <| .cons ⟨nofun, rfl⟩ rfl <|
      .cons ⟨nofun, rfl⟩ rfl <| .cons ⟨nofun, rfl⟩ rfl <| .nil _)
    ⟨rfl, rfl⟩ rfl
  obtain ⟨⟨_, hcell⟩, _⟩ := hsetSrc
  cases hcell

end K210Firmware.Gui.Refresh
