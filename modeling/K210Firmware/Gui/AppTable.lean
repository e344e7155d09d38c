import K210Firmware.Library.Heap
import Mathlib.Data.List.Basic

/-!
# The table of exported objects

The export macros place pointers to apps and widgets in a section of their own, and the linker
script marks its start and its end. The macro `LVGL_LIST_ALL_EXPORT_OBJ`, with which the menu is
filled, and the loop of `lvgl_tab_list` both walk over that table. They visit the same entries, but
the macro loads each entry before it has tested the pointer.
-/

namespace K210Firmware.Gui.AppTable

open Memory

/-- The slots from `lvgl_obj_start_point` on. The first `count` of them lie before
`lvgl_obj_end_point`; behind these is whatever the linker has placed there. -/
structure Table (Entry : Type) where
  count : ℕ
  slot : ℕ → Entry

/-- What the body of a loop has computed, and the slots that the loop has read. -/
structure Trace (State : Type) where
  state : State
  reads : List ℕ
  deriving DecidableEq, Repr

section Loops

variable {Entry State : Type}

/-- `*_p` -/
def Table.load (table : Table Entry) (p : ℕ) (trace : Trace State) : Entry × Trace State :=
  (table.slot p, { trace with reads := trace.reads ++ [p] })

/-- The loop of `LVGL_LIST_ALL_EXPORT_OBJ` from its test on; the step is `_p++, obj = *_p`. -/
def listFrom (table : Table Entry) (body : State → Entry → Except Fault State) (p : ℕ)
    (obj : Entry) (trace : Trace State) : Except Fault (Trace State) :=
  if p < table.count then do
    let state ← body trace.state obj
    let (obj, trace) := table.load (p + 1) { trace with state := state }
    listFrom table body (p + 1) obj trace
  else return trace
termination_by table.count - p

def lvglListAllExportObj (table : Table Entry) (body : State → Entry → Except Fault State)
    (state : State) : Except Fault (Trace State) :=
  let (obj, trace) := table.load 0 ⟨state, []⟩
  listFrom table body 0 obj trace

/-- The loop of `lvgl_tab_list`, which loads the entry in its body. -/
def tabListFrom (table : Table Entry) (body : State → Entry → Except Fault State) (point : ℕ)
    (trace : Trace State) : Except Fault (Trace State) :=
  if point < table.count then do
    let (obj, trace) := table.load point trace
    let state ← body trace.state obj
    tabListFrom table body (point + 1) { trace with state := state }
  else return trace
termination_by table.count - point

def tabListAll (table : Table Entry) (body : State → Entry → Except Fault State) (state : State) :
    Except Fault (Trace State) :=
  tabListFrom table body 0 ⟨state, []⟩

end Loops

/-! ## The entries -/

/-- What the export macros define: `struct __lvgl_app_item` with a name that starts with `__app_`,
or `struct __lvgl_widget_item` with a name that starts with `__widget_`. -/
inductive Item
  | app (text : List Char) (img cb : Address)
  | widget (text : List Char) (obj : Address)
  deriving DecidableEq, Repr

def appPrefix : List Char := "__app_".toList

def widgetPrefix : List Char := "__widget_".toList

namespace Item

def name : Item → List Char
  | app text _ _ => appPrefix ++ text
  | widget text _ => widgetPrefix ++ text

def text : Item → List Char
  | app text _ _ => text
  | widget text _ => text

/-- A widget has no image and no callback. -/
def img : Item → Except Fault Address
  | app _ img _ => .ok img
  | widget _ _ => .error .wrongObject

def cb : Item → Except Fault Address
  | app _ _ cb => .ok cb
  | widget _ _ => .error .wrongObject

end Item

/-- A button of the menu. -/
structure Button where
  img : Address
  text : List Char
  eventCb : Address
  deriving DecidableEq, Repr

/-- `strncmp(left, right, count) == 0` for strings without their NUL. -/
def strncmpEq (left right : List Char) (count : ℕ) : Bool := left.take count == right.take count

/-- The body of the loop in `menu_list_create`. -/
def menuItem (list : List Button) (obj : Item) : Except Fault (List Button) :=
  if strncmpEq obj.name appPrefix 6 then do
    return list ++ [⟨← obj.img, obj.text, ← obj.cb⟩]
  else return list

/-- The buttons of `menu_list_create`. -/
def menuListCreate (table : Table Item) : Except Fault (Trace (List Button)) :=
  lvglListAllExportObj table menuItem []

/-- The body of the loop in `lvgl_tab_list`, of which the names are printed. -/
def printName (names : List (List Char)) (obj : Item) : Except Fault (List (List Char)) :=
  return names ++ [obj.name]

def lvglTabList (table : Table Item) : Except Fault (Trace (List (List Char))) :=
  tabListAll table printName []

/-! ## What the loops visit and read -/

section Visits

variable {Entry State : Type} {table : Table Entry}

/-- The entries in the order of the table. -/
def Table.entries (table : Table Entry) : List Entry := (List.range table.count).map table.slot

theorem entries_drop {p : ℕ} (hp : p < table.count) :
    table.entries.drop p = table.slot p :: table.entries.drop (p + 1) := by
  have hlength : p < table.entries.length := by
    rwa [Table.entries, List.length_map, List.length_range]
  rw [List.drop_eq_getElem_cons hlength]
  simp [Table.entries]

theorem entries_drop_of_le {p : ℕ} (hp : table.count ≤ p) : table.entries.drop p = [] := by
  apply List.drop_eq_nil_of_le
  rwa [Table.entries, List.length_map, List.length_range]

/-- From slot `p` on, the macro visits the rest of the table and reads one slot further. -/
theorem listFrom_eq (table : Table Entry) (body : State → Entry → Except Fault State) (p : ℕ)
    (state : State) (reads : List ℕ) :
    listFrom table body p (table.slot p) ⟨state, reads⟩ = do
      let last ← (table.entries.drop p).foldlM body state
      return ⟨last, reads ++ List.range' (p + 1) (table.count - p)⟩ := by
  by_cases hp : p < table.count
  · have hcount : table.count - p = table.count - (p + 1) + 1 := by omega
    rw [listFrom, if_pos hp, entries_drop hp, List.foldlM_cons, hcount, List.range'_succ]
    cases hbody : body state (table.slot p) with
    | error fault => rfl
    | ok next =>
      rw [ok_bind, ok_bind]
      refine (listFrom_eq table body (p + 1) next (reads ++ [p + 1])).trans ?_
      rw [List.append_assoc]
      rfl
  · have hcount : table.count - p = 0 := by omega
    rw [listFrom, if_neg hp, entries_drop_of_le (Nat.le_of_not_lt hp), hcount, List.range'_zero,
      List.append_nil]
    rfl
termination_by table.count - p

/-- The loop of `lvgl_tab_list` reads what it visits. -/
theorem tabListFrom_eq (table : Table Entry) (body : State → Entry → Except Fault State)
    (point : ℕ) (state : State) (reads : List ℕ) :
    tabListFrom table body point ⟨state, reads⟩ = do
      let last ← (table.entries.drop point).foldlM body state
      return ⟨last, reads ++ List.range' point (table.count - point)⟩ := by
  by_cases hp : point < table.count
  · have hcount : table.count - point = table.count - (point + 1) + 1 := by omega
    rw [tabListFrom, if_pos hp, entries_drop hp, List.foldlM_cons, hcount, List.range'_succ]
    change (body state (table.slot point) >>= fun next ↦
      tabListFrom table body (point + 1) ⟨next, reads ++ [point]⟩) = _
    cases hbody : body state (table.slot point) with
    | error fault => rfl
    | ok next =>
      rw [ok_bind, ok_bind, tabListFrom_eq table body (point + 1), List.append_assoc]
      rfl
  · have hcount : table.count - point = 0 := by omega
    rw [tabListFrom, if_neg hp, entries_drop_of_le (Nat.le_of_not_lt hp), hcount,
      List.range'_zero, List.append_nil]
    rfl
termination_by table.count - point

/-- **The macro.** It visits the entries in order, and reads the slot behind them as well. -/
theorem lvglListAllExportObj_eq (table : Table Entry)
    (body : State → Entry → Except Fault State) (state : State) :
    lvglListAllExportObj table body state = do
      let last ← table.entries.foldlM body state
      return ⟨last, List.range (table.count + 1)⟩ := by
  refine (listFrom_eq table body 0 state [0]).trans ?_
  rw [List.drop_zero, Nat.sub_zero, List.range_eq_range', List.range'_succ]
  rfl

/-- **The explicit loop.** It visits the entries in order and reads nothing else. -/
theorem tabListAll_eq (table : Table Entry) (body : State → Entry → Except Fault State)
    (state : State) :
    tabListAll table body state = do
      let last ← table.entries.foldlM body state
      return ⟨last, List.range table.count⟩ := by
  refine (tabListFrom_eq table body 0 state []).trans ?_
  rw [List.drop_zero, Nat.sub_zero, List.range_eq_range']
  rfl

/-- Both loops run their body once for each entry, in the order of the table, and read no slot
outside the table. -/
def ListsExactly (table : Table Entry) : Prop :=
  ∀ (State : Type) (body : State → Entry → Except Fault State) (state last : State),
    table.entries.foldlM body state = .ok last →
      ∃ reads reads', lvglListAllExportObj table body state = .ok ⟨last, reads⟩ ∧
        tabListAll table body state = .ok ⟨last, reads'⟩ ∧
          (∀ p ∈ reads, p < table.count) ∧ ∀ p ∈ reads', p < table.count

/-- A body that appends something for each entry. -/
theorem foldlM_append {Result : Type} {body : List Result → Entry → Except Fault (List Result)}
    {items : Entry → List Result} (hbody : ∀ list obj, body list obj = .ok (list ++ items obj))
    (list : List Result) (entries : List Entry) :
    entries.foldlM body list = .ok (list ++ entries.flatMap items) := by
  induction entries generalizing list with
  | nil =>
    rw [List.flatMap_nil, List.append_nil]
    rfl
  | cons obj entries ih =>
    rw [List.foldlM_cons, hbody, ok_bind, ih, List.flatMap_cons, List.append_assoc]

/-- A body that only records its entry. -/
def recordVisit (visited : List Entry) (obj : Entry) : Except Fault (List Entry) :=
  return visited ++ [obj]

theorem recordVisit_eq (visited : List Entry) (obj : Entry) :
    recordVisit visited obj = .ok (visited ++ [obj]) := rfl

/-- **Reading past the table.** Whatever its length, the macro reads the slot at its end. -/
theorem not_listsExactly (table : Table Entry) : ¬ ListsExactly table := by
  intro h
  have hvisits := foldlM_append recordVisit_eq [] table.entries
  obtain ⟨reads, _, hmacro, _, hreads, _⟩ := h _ _ _ _ hvisits
  rw [lvglListAllExportObj_eq, hvisits, ok_bind] at hmacro
  obtain ⟨_, rfl⟩ := Trace.mk.inj (Except.ok.inj hmacro)
  exact absurd (hreads table.count (List.mem_range.mpr (Nat.lt_succ_self _))) (Nat.lt_irrefl _)

/-- A table without entries. -/
def emptyTable : Table Item := ⟨0, fun _ ↦ .widget [] 0⟩

/-- The macro loads the slot at the start of the empty table before its first test. -/
theorem emptyTable_not_listsExactly : ¬ ListsExactly emptyTable := by
  intro h
  obtain ⟨reads, _, hmacro, _, hreads, _⟩ := h Unit (fun _ _ ↦ .ok ()) () () rfl
  have hrun : lvglListAllExportObj emptyTable (fun _ _ ↦ .ok ()) () = .ok ⟨(), [0]⟩ := by
    change listFrom emptyTable _ 0 (emptyTable.slot 0) ⟨(), [0]⟩ = _
    rw [listFrom, if_neg (by decide)]
    rfl
  obtain ⟨_, rfl⟩ := Trace.mk.inj (Except.ok.inj (hrun.symm.trans hmacro))
  exact absurd (hreads 0 (by decide)) (by decide)

end Visits

/-! ## The menu -/

/-- The button of an app. -/
def Item.button : Item → Option Button
  | app text img cb => some ⟨img, text, cb⟩
  | widget _ _ => none

theorem strncmpEq_app (text : List Char) (img cb : Address) :
    strncmpEq (Item.app text img cb).name appPrefix 6 = true := by
  rw [strncmpEq, Item.name, List.take_append_of_le_length (by decide)]
  decide

theorem strncmpEq_widget (text : List Char) (obj : Address) :
    strncmpEq (Item.widget text obj).name appPrefix 6 = false := by
  rw [strncmpEq, Item.name, List.take_append_of_le_length (by decide)]
  decide

/-- The name tells the kind of an item: only apps are read as apps. -/
theorem menuItem_eq (list : List Button) (obj : Item) :
    menuItem list obj = .ok (list ++ obj.button.toList) := by
  cases obj with
  | app text img cb =>
    rw [menuItem, if_pos (strncmpEq_app text img cb)]
    rfl
  | widget text obj =>
    rw [menuItem, if_neg (by rw [strncmpEq_widget]; decide)]
    simp only [Item.button, Option.toList_none, List.append_nil]
    rfl

/-- **The menu.** It has one button for each app, in the order of the table. -/
theorem menuListCreate_eq (table : Table Item) :
    menuListCreate table =
      .ok ⟨table.entries.filterMap Item.button, List.range (table.count + 1)⟩ := by
  rw [menuListCreate, lvglListAllExportObj_eq, foldlM_append menuItem_eq, ok_bind,
    List.nil_append, List.filterMap_eq_flatMap_toList]
  rfl

/-- The list of the shell has the names of all items. -/
theorem lvglTabList_eq (table : Table Item) :
    lvglTabList table = .ok ⟨table.entries.map Item.name, List.range table.count⟩ := by
  have hname : ∀ names obj, printName names obj = .ok (names ++ [obj.name]) := fun _ _ ↦ rfl
  rw [lvglTabList, tabListAll_eq, foldlM_append hname, ok_bind, List.nil_append,
    List.map_eq_flatMap]
  rfl

end K210Firmware.Gui.AppTable
