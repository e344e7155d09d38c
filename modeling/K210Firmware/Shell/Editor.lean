import K210Firmware.Library.LineEdit
import K210Firmware.Shell.Finsh

/-!
# The shell as a line editor

What the input loop is for: an editor of one line with a cursor, which remembers the last ten lines
and runs a command for every line that is entered. `Shows` says how the arrays and counters of the
shell hold the line and the history of the editor.
-/

namespace K210Firmware.Shell

open Memory CString Terminal.Keyboard Transition LineEdit

/-! ## The editor -/

structure Editor where
  stat : InputStat
  cursor : Cursor UInt8
  /-- Every line that was entered. -/
  entered : List Text
  /-- The place in the history. -/
  current : ℕ

namespace Editor

variable (editor : Editor)

/-- The line. -/
def text : Text := editor.cursor.text

/-- The lines that can be recalled. -/
def history : List Text := recent finshHistoryLines (editor.entered.filter (· ≠ []))

/-- A line of the history takes the place of the line. -/
def recallLine (current : ℕ) : Editor :=
  { editor with current, cursor := .ofText (editor.history.getD current []) }

/-- The line of the history before the current one. -/
def upPlace : Option ℕ := if 0 < editor.current then some (editor.current - 1) else none

/-- The line of the history behind the current one, or the last one. -/
def downPlace : Option ℕ :=
  if editor.current + 1 < editor.history.length then some (editor.current + 1)
  else if editor.history ≠ [] then some (editor.history.length - 1)
  else none

def browse (place : Option ℕ) : Editor := place.elim editor editor.recallLine

def enter : Editor :=
  let entered := editor.entered ++ [editor.text]
  { editor with
    cursor := .ofText []
    entered
    current := (recent finshHistoryLines (entered.filter (· ≠ []))).length }

variable (table : List FinshSyscall)

def press (world : World) : Key → Editor
  | .up => editor.browse editor.upPlace
  | .down => editor.browse editor.downPlace
  | .left => { editor with cursor := editor.cursor.left }
  | .right => { editor with cursor := editor.cursor.right }
  | .char ch =>
      if ch = 0x09 then
        { editor with cursor := .ofText (completeLine table world.completePath editor.text) }
      else if ch = 0x7f ∨ ch = 0x08 then { editor with cursor := editor.cursor.delete }
      else if ch = 0x0d ∨ ch = 0x0a then editor.enter
      else { editor with cursor := editor.cursor.insert ch }

/-- The key does not make the line longer than the array. -/
def Fits (world : World) : Key → Prop
  | .char ch =>
      if ch = 0x09 then
        (completePathOf world.completePath editor.text).length < finshCmdSize ∧
          (completeLine table world.completePath editor.text).length < finshCmdSize
      else if ch = 0x7f ∨ ch = 0x08 ∨ ch = 0x0d ∨ ch = 0x0a then True
      else editor.text.length + 1 < finshCmdSize
  | _ => True

def read (input : UInt8 × World) : Editor :=
  let (stat, key) := finshInput editor.stat input.1
  let editor := { editor with stat }
  match key with
  | none => editor
  | some key => editor.press table input.2 key

/-- No byte of the input makes the line longer than the array. -/
def FitsAll (editor : Editor) : List (UInt8 × World) → Prop
  | [] => True
  | input :: inputs =>
      (∀ key ∈ (finshInput editor.stat input.1).2, editor.Fits table input.2 key) ∧
        (editor.read table input).FitsAll inputs

def readAll (inputs : List (UInt8 × World)) : Editor := inputs.foldl (·.read table) editor

instance (world : World) : (key : Key) → Decidable (editor.Fits table world key)
  | .char ch =>
      inferInstanceAs (Decidable (if ch = 0x09 then _ ∧ _
        else if ch = 0x7f ∨ ch = 0x08 ∨ ch = 0x0d ∨ ch = 0x0a then True else _))
  | .up | .down | .left | .right => inferInstanceAs (Decidable True)

instance decidableFitsAll (editor : Editor) :
    (inputs : List (UInt8 × World)) → Decidable (editor.FitsAll table inputs)
  | [] => inferInstanceAs (Decidable True)
  | input :: inputs =>
      have := decidableFitsAll (editor.read table input) inputs
      inferInstanceAs (Decidable ((∀ key ∈ (finshInput editor.stat input.1).2,
        editor.Fits table input.2 key) ∧ (editor.read table input).FitsAll table inputs))

end Editor

/-- Nothing is entered yet. -/
def initialEditor : Editor := ⟨.waitNormal, .ofText [], [], 0⟩

/-! ## How the shell shows the editor -/

/-- The lines of the history, in arrays of their own. -/
structure RowsHold (row : ℕ → Text) (history : Block (Block UInt8)) : Prop where
  size : history.size = finshHistoryLines
  padded : ∀ i < finshHistoryLines, Padded finshCmdSize (row i) (history.cell i)

/-- Some lines, with empty ones behind them. -/
def rowsOf (lines : List Text) (i : ℕ) : Text := lines[i]?.getD []

structure Shows (shell : FinshShell) (editor : Editor) : Prop where
  stat : shell.stat = editor.stat
  line : Padded finshCmdSize editor.text shell.line
  no_nul : 0 ∉ editor.text
  position : shell.linePosition = editor.text.length
  curpos : shell.lineCurpos = editor.cursor.before.length
  rows : RowsHold (rowsOf editor.history) shell.cmdHistory
  entered_no_nul : ∀ line ∈ editor.entered, 0 ∉ line
  count : shell.historyCount = editor.history.length
  current : shell.currentHistory = editor.current
  current_le : editor.current ≤ editor.history.length
  echo : shell.echoMode = true
  prompt : finshGetPrompt shell = mshPrompt

theorem initial_shows : Shows initialShell initialEditor where
  stat := rfl
  line := ⟨rfl, by decide, fun _ _ ↦ rfl⟩
  no_nul := List.not_mem_nil
  position := rfl
  curpos := rfl
  rows := ⟨rfl, fun i _ ↦ by
    have hnone : rowsOf initialEditor.history i = [] := by
      rw [rowsOf, show initialEditor.history = [] from rfl, List.getElem?_nil]
      rfl
    rw [hnone]
    exact ⟨rfl, by decide, fun _ _ ↦ rfl⟩⟩
  entered_no_nul := List.forall_mem_nil _
  count := rfl
  current := rfl
  current_le := Nat.zero_le _
  echo := rfl
  prompt := rfl

namespace Shows

variable {shell : FinshShell} {editor : Editor} (h : Shows shell editor)
include h

theorem length_lt : editor.text.length < finshCmdSize := h.line.fits

theorem before_lt : editor.cursor.before.length < finshCmdSize := by
  have hlength : editor.text.length =
      editor.cursor.before.length + editor.cursor.after.length := List.length_append
  have hlt := h.length_lt
  omega

theorem rows_no_nul : ∀ line ∈ editor.history, 0 ∉ line := fun line hline ↦
  h.entered_no_nul line (List.mem_of_mem_filter (mem_of_mem_recent hline))

end Shows

/-! ## The keys that move the cursor -/

variable {shell : FinshShell} {editor : Editor}

theorem dec16_eq {counter : ℕ} (hpos : 0 < counter) (hlt : counter ≤ finshCmdSize) :
    dec16 counter = counter - 1 := by
  rw [finshCmdSize] at hlt
  rw [dec16]
  omega

theorem inc16_eq {counter : ℕ} (hlt : counter ≤ finshCmdSize) : inc16 counter = counter + 1 := by
  rw [finshCmdSize] at hlt
  rw [inc16]
  omega

/-- Another line with a cursor. -/
theorem Shows.edit (h : Shows shell editor) (cursor : Cursor UInt8) {line : Block UInt8}
    {position curpos : ℕ} (hline : Padded finshCmdSize cursor.text line) (hnul : 0 ∉ cursor.text)
    (hposition : position = cursor.text.length) (hcurpos : curpos = cursor.before.length) :
    Shows { shell with line, linePosition := position, lineCurpos := curpos }
      { editor with cursor } where
  stat := h.stat
  line := hline
  no_nul := hnul
  position := hposition
  curpos := hcurpos
  rows := h.rows
  entered_no_nul := h.entered_no_nul
  count := h.count
  current := h.current
  current_le := h.current_le
  echo := h.echo
  prompt := h.prompt

/-- Another place in the history. -/
theorem Shows.browse (h : Shows shell editor) {current : ℕ}
    (hcurrent : current ≤ editor.history.length) :
    Shows { shell with currentHistory := current } { editor with current } where
  stat := h.stat
  line := h.line
  no_nul := h.no_nul
  position := h.position
  curpos := h.curpos
  rows := h.rows
  entered_no_nul := h.entered_no_nul
  count := h.count
  current := rfl
  current_le := hcurrent
  echo := h.echo
  prompt := h.prompt

/-- Another place for the cursor. -/
theorem Shows.move (h : Shows shell editor) {cursor : Cursor UInt8} {curpos : ℕ}
    (htext : cursor.text = editor.cursor.text) (hcurpos : curpos = cursor.before.length) :
    Shows { shell with lineCurpos := curpos } { editor with cursor } :=
  h.edit cursor (htext ▸ h.line) (htext ▸ h.no_nul) (htext ▸ h.position) hcurpos

theorem leftKey_shows (h : Shows shell editor) :
    Shows (leftKey shell).1 { editor with cursor := editor.cursor.left } ∧
      (leftKey shell).2 = backspaces (min 1 editor.cursor.before.length) := by
  have hle := h.before_lt.le
  rw [leftKey, h.curpos]
  rcases List.eq_nil_or_concat editor.cursor.before with hnil | ⟨front, last, hsplit⟩
  · have hsame : editor.cursor.left = editor.cursor := by
      rw [Cursor.left, hnil]
      exact Cursor.mk.injEq .. ▸ ⟨hnil.symm, rfl⟩
    rw [hnil, if_neg (by simp), hsame]
    exact ⟨h, rfl⟩
  · have hpos : 0 < editor.cursor.before.length := by rw [hsplit]; simp
    rw [if_pos (by omega), min_eq_left hpos]
    refine ⟨h.move Cursor.left_text ?_, rfl⟩
    rw [dec16_eq hpos hle, Cursor.left, List.length_dropLast]

theorem rightKey_shows (h : Shows shell editor) :
    ∃ next, rightKey shell = .ok (next, editor.cursor.after.head?.toList) ∧
      Shows next { editor with cursor := editor.cursor.right } := by
  have hlength : editor.text.length =
      editor.cursor.before.length + editor.cursor.after.length := List.length_append
  have hle := h.before_lt.le
  rw [rightKey]
  cases hafter : editor.cursor.after with
  | nil =>
    have hsame : editor.cursor.right = editor.cursor := by
      rw [Cursor.right, hafter]
      exact Cursor.mk.injEq .. ▸ ⟨List.append_nil _, hafter.symm⟩
    rw [hafter, List.length_nil] at hlength
    rw [if_neg (by rw [h.curpos, h.position]; omega), hsame]
    exact ⟨shell, rfl, h⟩
  | cons c rest =>
    rw [hafter, List.length_cons] at hlength
    have hread := h.line.read (k := editor.cursor.before.length) h.before_lt
    have hchar : editor.text[editor.cursor.before.length]? = some c := by
      simp [Editor.text, Cursor.text, hafter]
    rw [hchar, Option.getD_some, ← h.curpos] at hread
    rw [if_pos (by rw [h.curpos, h.position]; omega), hread, ok_bind]
    refine ⟨_, rfl, h.move Cursor.right_text ?_⟩
    rw [h.curpos, inc16_eq hle, Cursor.right, hafter, List.length_append]
    rfl

end K210Firmware.Shell
