import K210Firmware.Library.Transition
import K210Firmware.Shell.Complete
import K210Firmware.Terminal.Keyboard

/-!
# The input loop of the shell

`finsh_thread_entry` reads one byte after the other and keeps a line with a cursor, a history of
ten lines and what is needed to take the escape sequences of the arrow keys apart. All of it lives
in arrays of a fixed size and in counters of 16 bits; an access outside an array is a fault.
-/

namespace K210Firmware.Shell

open Memory CString Terminal.Keyboard Transition

def finshHistoryLines : ℕ := 10

/-- The fields of `struct finsh_shell` that the loop uses, and `finsh_prompt_custom`. -/
structure FinshShell where
  stat : InputStat
  echoMode : Bool
  promptMode : Bool
  promptCustom : Option Text
  currentHistory : ℕ
  historyCount : ℕ
  cmdHistory : Block (Block UInt8)
  line : Block UInt8
  linePosition : ℕ
  lineCurpos : ℕ

/-- `counter++` on a `rt_uint16_t`. -/
def inc16 (counter : ℕ) : ℕ := (counter + 1) % 2 ^ 16

/-- `counter--` on a `rt_uint16_t`. -/
def dec16 (counter : ℕ) : ℕ := (counter + (2 ^ 16 - 1)) % 2 ^ 16

/-- `"msh >"` -/
def mshPrompt : Text := [0x6d, 0x73, 0x68, 0x20, 0x3e]

def finshGetPrompt (shell : FinshShell) : Text :=
  if shell.promptMode then
    match shell.promptCustom with
    | some prompt => prompt.take rtConsolebufSize
    | none => mshPrompt
  else []

/-- `rt_kprintf("\b")`, as often as a loop calls it. -/
def backspaces (count : ℕ) : Text := List.replicate count 0x08

/-! ## The history -/

/-- `"\033[2K\r"` -/
def eraseLine : Text := [0x1b, 0x5b, 0x32, 0x4b, 0x0d]

def shellHandleHistory (shell : FinshShell) : Except Fault Text := do
  let line ← cString shell.line 0
  return rtKprintf eraseLine ++ rtKprintf (finshGetPrompt shell ++ line)

/-- The line is replaced by the current line of the history. -/
def copyHistory (shell : FinshShell) : Except Fault (FinshShell × Text) := do
  let command ← shell.cmdHistory.read shell.currentHistory
  let bytes ← command.load 0 finshCmdSize
  let line ← shell.line.store 0 bytes
  let text ← cString line 0
  let shell := { shell with
    line
    linePosition := text.length % 2 ^ 16
    lineCurpos := text.length % 2 ^ 16 }
  let printed ← shellHandleHistory shell
  return (shell, printed)

def upKey (shell : FinshShell) : Except Fault (FinshShell × Text) :=
  if 0 < shell.currentHistory then
    copyHistory { shell with currentHistory := shell.currentHistory - 1 }
  else return ({ shell with currentHistory := 0 }, [])

def downKey (shell : FinshShell) : Except Fault (FinshShell × Text) :=
  if (shell.currentHistory : ℤ) < shell.historyCount - 1 then
    copyHistory { shell with currentHistory := inc16 shell.currentHistory }
  else if shell.historyCount ≠ 0 then
    copyHistory { shell with currentHistory := shell.historyCount - 1 }
  else return (shell, [])

/-- `memcmp(&cmd_history[index], line, FINSH_CMD_SIZE) != 0` -/
def historyDiffers (shell : FinshShell) (index : ℤ) : Except Fault Bool := do
  let command ← shell.cmdHistory.read index
  let bytes ← command.load 0 finshCmdSize
  let line ← shell.line.load 0 finshCmdSize
  return bytes != line

/-- The condition for a push while there is room in the history. -/
def lastDiffers (shell : FinshShell) : Except Fault Bool :=
  if shell.historyCount = 0 then return true
  else historyDiffers shell (shell.historyCount - 1 : ℕ)

/-- One round of the loop that moves the history. -/
def moveHistory (history : Block (Block UInt8)) (index : ℕ) : Except Fault (Block (Block UInt8)) := do
  let next ← history.read (index + 1 : ℕ)
  let bytes ← next.load 0 finshCmdSize
  let command ← history.read index
  let command ← command.store 0 bytes
  history.write index command

/-- The line is copied into a cleared line of the history. -/
def putHistory (shell : FinshShell) (history : Block (Block UInt8)) (index : ℕ) :
    Except Fault (Block (Block UInt8)) := do
  let command ← history.read index
  let bytes ← shell.line.load 0 shell.linePosition
  let command ← (command.fill finshCmdSize 0).store 0 bytes
  history.write index command

def shellPushHistory (shell : FinshShell) : Except Fault FinshShell := do
  let shell ←
    if shell.linePosition = 0 then pure shell
    else if finshHistoryLines ≤ shell.historyCount then do
      let differs ← historyDiffers shell (finshHistoryLines - 1 : ℕ)
      if differs then
        let history ← (List.range (finshHistoryLines - 1)).foldlM moveHistory shell.cmdHistory
        let cmdHistory ← putHistory shell history (finshHistoryLines - 1)
        pure { shell with cmdHistory, historyCount := finshHistoryLines }
      else pure shell
    else do
      let differs ← lastDiffers shell
      if differs then
        let cmdHistory ← putHistory shell shell.cmdHistory shell.historyCount
        pure { shell with cmdHistory, historyCount := inc16 shell.historyCount }
      else pure shell
  return { shell with currentHistory := shell.historyCount }

/-! ## The line -/

def leftKey (shell : FinshShell) : FinshShell × Text :=
  if shell.lineCurpos ≠ 0 then ({ shell with lineCurpos := dec16 shell.lineCurpos }, backspaces 1)
  else (shell, [])

def rightKey (shell : FinshShell) : Except Fault (FinshShell × Text) :=
  if shell.lineCurpos < shell.linePosition then do
    let c ← shell.line.read shell.lineCurpos
    return ({ shell with lineCurpos := inc16 shell.lineCurpos }, rtKprintf [c])
  else return (shell, [])

/-- The tab key, with `shell_auto_complete`. -/
def tabKey (table : List FinshSyscall) (completePath : PathCompletion) (shell : FinshShell) :
    Except Fault (FinshShell × Text) := do
  let (line, printed) ← mshAutoComplete table completePath.completer shell.line
  let text ← cString line 0
  return ({ shell with
    line
    linePosition := text.length % 2 ^ 16
    lineCurpos := text.length % 2 ^ 16 },
    backspaces shell.lineCurpos ++ rtKprintf [0x0a] ++ printed ++
      rtKprintf (finshGetPrompt shell ++ text))

def backspaceKey (shell : FinshShell) : Except Fault (FinshShell × Text) :=
  if shell.lineCurpos = 0 then return (shell, [])
  else do
    let position := dec16 shell.linePosition
    let curpos := dec16 shell.lineCurpos
    if curpos < position then
      -- the characters behind the cursor move
      let bytes ← shell.line.load (curpos + 1 : ℕ) (position - curpos)
      let line ← shell.line.store curpos bytes
      let line ← line.write position 0
      let rest ← cString line curpos
      return ({ shell with line, linePosition := position, lineCurpos := curpos },
        rtKprintf (0x08 :: rest ++ [0x20, 0x20, 0x08]) ++ backspaces (position + 1 - curpos))
    else
      let line ← shell.line.write position 0
      return ({ shell with line, linePosition := position, lineCurpos := curpos },
        rtKprintf [0x08, 0x20, 0x08])

/-- The end of a line: the history, the command, a new prompt and an empty line. -/
def enterKey (table : List FinshSyscall) (prints : Call → Text) (shell : FinshShell) :
    Except Fault (FinshShell × Option Call × Text) := do
  let shell ← shellPushHistory shell
  let (line, call, printed) ←
    mshExec (table.map (·.name)) prints shell.line shell.linePosition
  return ({ shell with line := line.fill finshCmdSize 0, linePosition := 0, lineCurpos := 0 }, call,
    (if shell.echoMode then rtKprintf [0x0a] else []) ++ printed ++
      rtKprintf (finshGetPrompt shell))

/-- Every other character. -/
def normalKey (shell : FinshShell) (ch : UInt8) : Except Fault (FinshShell × Text) := do
  -- a large line is discarded
  let position := if finshCmdSize ≤ shell.linePosition then 0 else shell.linePosition
  let curpos := shell.lineCurpos
  let (line, printed) ←
    if curpos < position then do
      let bytes ← shell.line.load curpos (position - curpos)
      let line ← shell.line.store (curpos + 1 : ℕ) bytes
      let line ← line.write curpos ch
      let rest ← if shell.echoMode then cString line curpos else pure []
      pure (line, rtKprintf rest ++ backspaces (position - curpos))
    else do
      let line ← shell.line.write position ch
      pure (line, if shell.echoMode then rtKprintf [ch] else [])
  if finshCmdSize ≤ inc16 position then
    return ({ shell with line, linePosition := 0, lineCurpos := 0 }, printed)
  else
    return ({ shell with line, linePosition := inc16 position, lineCurpos := inc16 curpos }, printed)

/-! ## The loop -/

/-- What the loop finds outside of the shell while it handles a byte: what the completion of a path
prints and adds to it, and what a command prints. -/
structure World where
  completePath : PathCompletion
  added_no_nul : ∀ path, 0 ∉ (completePath path).2
  prints : Call → Text

/-- The shell with everything it has printed and every command it has run. -/
structure Session where
  shell : FinshShell
  console : Text
  calls : List Call

variable (table : List FinshSyscall)

/-- The handling of one key, with the call of a command and what is printed. -/
def handleKey (world : World) (shell : FinshShell) :
    Key → Except Fault (FinshShell × Option Call × Text)
  | .up => do
      let (shell, printed) ← upKey shell
      return (shell, none, printed)
  | .down => do
      let (shell, printed) ← downKey shell
      return (shell, none, printed)
  | .left => return ((leftKey shell).1, none, (leftKey shell).2)
  | .right => do
      let (shell, printed) ← rightKey shell
      return (shell, none, printed)
  | .char ch =>
      if ch = 0x09 then do
        let (shell, printed) ← tabKey table world.completePath shell
        return (shell, none, printed)
      else if ch = 0x7f ∨ ch = 0x08 then do
        let (shell, printed) ← backspaceKey shell
        return (shell, none, printed)
      else if ch = 0x0d ∨ ch = 0x0a then enterKey table world.prints shell
      else do
        let (shell, printed) ← normalKey shell ch
        return (shell, none, printed)

/-- The loop body of `finsh_thread_entry`. -/
def finshByte (session : Session) (input : UInt8 × World) : Except Fault Session :=
  let (stat, key) := finshInput session.shell.stat input.1
  let shell := { session.shell with stat }
  match key with
  | none => return { session with shell }
  | some key => do
      let (shell, call, printed) ← handleKey table input.2 shell key
      return {
        shell
        console := session.console ++ printed
        calls := session.calls ++ call.toList }

/-- Bytes may come at any time. -/
def finshSystem : System Session (UInt8 × World) Fault where
  enabled _ _ := True
  step := finshByte table

/-- `finsh_system_init` has cleared the shell, and `finsh_thread_entry` has printed the prompt. -/
def initialShell : FinshShell where
  stat := .waitNormal
  echoMode := true
  promptMode := true
  promptCustom := none
  currentHistory := 0
  historyCount := 0
  cmdHistory := ⟨finshHistoryLines, fun _ ↦ ⟨finshCmdSize, fun _ ↦ 0⟩⟩
  line := ⟨finshCmdSize, fun _ ↦ 0⟩
  linePosition := 0
  lineCurpos := 0

def initialSession : Session where
  shell := initialShell
  console := rtKprintf (finshGetPrompt initialShell)
  calls := []

end K210Firmware.Shell
