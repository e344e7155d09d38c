import K210Firmware.Shell.Split
import Mathlib.Data.List.Find

/-!
# Running a command line

`msh_exec` looks for the first word of a line in the table of commands and calls the function it
finds with the words of the line as arguments. `mshExec_interpret` says which command a line runs.
-/

namespace K210Firmware.Shell

open Memory CString

/-! ## The code -/

/-- `strncmp(left, right, count) == 0` for two strings, of which the readable bytes are given. -/
def strncmpEq : Text → Text → ℕ → Bool
  | _, _, 0 => true
  | left, right, count + 1 =>
      left.headD 0 == right.headD 0 &&
        (left.headD 0 == 0 || strncmpEq left.tail right.tail count)

/-- `"__cmd_"` -/
def cmdPrefix : Text := "__cmd_".toList.map fun c ↦ c.toNat.toUInt8

/-- A function of the table with the arguments it is called with. -/
structure Call where
  name : Text
  args : List Text
  deriving DecidableEq, Repr

/-- `msh_get_cmd`; a function of the table is named by its symbol. -/
def mshGetCmd (table : List Text) (cmd : Text) (size : ℕ) : Option Text :=
  table.find? fun name ↦
    strncmpEq name cmdPrefix 6 && (strncmpEq (name.drop 6) cmd size && (name.drop 6)[size]?.getD 0 == 0)

/-- `_msh_exec_cmd` up to the call, with what `msh_split` prints; no call for `-RT_ERROR`. -/
def mshExecCmd (table : List Text) (cmd : Block UInt8) (start length : ℕ) :
    Except Fault (Block UInt8 × Option Call × Text) := do
  let stop ← skipWhile (fun c ↦ !isBlank c) cmd (start + length) start
  if stop = start then return (cmd, none, [])
  else
    let name ← cmd.load start (stop - start)
    match mshGetCmd table name (stop - start) with
    | none => return (cmd, none, [])
    | some func =>
        let (cmd, argv, printed) ← mshSplit cmd start length
        if argv.length = 0 then return (cmd, none, printed)
        else
          let args ← argv.mapM fun arg : ℕ ↦ cString cmd arg
          return (cmd, some ⟨func, args⟩, printed)

/-- `": command not found.\n"` -/
def commandNotFound : Text := ": command not found.\n".toList.map fun c ↦ c.toNat.toUInt8

/-- `length`, counted down once for every blank in front of `start`. -/
def lengthFrom (length start : ℕ) : ℕ := (length + (2 ^ 64 - start)) % 2 ^ 64

/-- `msh_exec`. A call prints what the command prints. -/
def mshExec (table : List Text) (prints : Call → Text) (cmd : Block UInt8) (length : ℕ) :
    Except Fault (Block UInt8 × Option Call × Text) := do
  let start ← skipWhile isBlank cmd cmd.size.toNat 0
  if lengthFrom length start = 0 then return (cmd, none, [])
  else
    let (cmd, call, printed) ← mshExecCmd table cmd start (lengthFrom length start)
    match call with
    | some call => return (cmd, some call, printed ++ prints call)
    | none =>
        let tcmd ← skipWhile (fun c ↦ c != 0x20 && c != 0) cmd cmd.size.toNat start
        let cmd ← cmd.write tcmd 0
        let name ← cString cmd start
        return (cmd, none, printed ++ rtKprintf (name ++ commandNotFound))

/-! ## What a line runs -/

/-- The first word of a command. -/
def commandName (command : Text) : Text := command.takeWhile fun c ↦ !isBlank c

/-- The command that a line runs. -/
def interpret (table : List Text) (line : Text) : Option Call :=
  let command := line.dropWhile isBlank
  if command ≠ [] ∧ cmdPrefix ++ commandName command ∈ table then
    some ⟨cmdPrefix ++ commandName command, (words command).take finshArgMax⟩
  else none

theorem strncmpEq_iff {left right : Text} {count : ℕ} (hleft : 0 ∉ left) (hright : 0 ∉ right)
    (hcount : count ≤ left.length ∨ count ≤ right.length) :
    strncmpEq left right count ↔ left.take count = right.take count := by
  induction count generalizing left right with
  | zero => simp [strncmpEq]
  | succ count ih =>
    cases left with
    | nil =>
      cases right with
      | nil => simp at hcount
      | cons d right =>
        rw [List.mem_cons, not_or] at hright
        have hne : ¬(0 : UInt8) = d := hright.1
        simp [strncmpEq, hne]
    | cons c left =>
      rw [List.mem_cons, not_or] at hleft
      have hne : ¬c = 0 := Ne.symm hleft.1
      cases right with
      | nil => simp [strncmpEq, hne]
      | cons d right =>
        rw [List.mem_cons, not_or] at hright
        rw [List.length_cons, List.length_cons] at hcount
        have hrest := ih hleft.2 hright.2 (by omega)
        simp [strncmpEq, hne, hrest]

theorem find?_eq_self {table : List Text} {name : Text} (h : name ∈ table) :
    table.find? (fun other ↦ decide (other = name)) = some name := by
  cases hfound : table.find? fun other ↦ decide (other = name) with
  | none =>
    have hnone := List.find?_eq_none.mp hfound name h
    simp at hnone
  | some found =>
    have hsame := List.find?_some hfound
    rw [of_decide_eq_true hsame]

/-- The function is the one whose symbol is the prefix and the word. -/
theorem mshGetCmd_eq {table : List Text} {word : Text} (htable : ∀ name ∈ table, 0 ∉ name)
    (hword : 0 ∉ word) :
    mshGetCmd table word word.length =
      if cmdPrefix ++ word ∈ table then some (cmdPrefix ++ word) else none := by
  have htest : ∀ name ∈ table, (strncmpEq name cmdPrefix 6 && (strncmpEq (name.drop 6) word
      word.length && (name.drop 6)[word.length]?.getD 0 == 0)) = decide (name = cmdPrefix ++ word) := by
    intro name hname
    have hnul := htable name hname
    have hrest : 0 ∉ name.drop 6 := fun hmem ↦ hnul (List.mem_of_mem_drop hmem)
    rw [Bool.eq_iff_iff, Bool.and_eq_true, Bool.and_eq_true,
      strncmpEq_iff hnul (by decide) (.inr (by decide)), strncmpEq_iff hrest hword (.inr le_rfl),
      beq_iff_eq,
      decide_eq_true_iff, List.take_length, List.take_of_length_le (l := cmdPrefix) (by decide)]
    constructor
    · rintro ⟨hbegins, hname, hend⟩
      have hlength : (name.drop 6).length ≤ word.length := by
        by_contra hlong
        rw [List.getElem?_eq_getElem (by omega), Option.getD_some] at hend
        exact hrest (hend ▸ List.getElem_mem _)
      rw [List.take_of_length_le hlength] at hname
      calc
        name = name.take 6 ++ name.drop 6 := (List.take_append_drop 6 name).symm
        _ = cmdPrefix ++ word := by rw [hbegins, hname]
    · rintro rfl
      have hdrop : (cmdPrefix ++ word).drop 6 = word := List.drop_left' rfl
      refine ⟨List.take_left' rfl, ?_, ?_⟩
      · rw [hdrop, List.take_length]
      · rw [hdrop, List.getElem?_eq_none le_rfl]
        rfl
  rw [mshGetCmd, List.find?_congr htest]
  by_cases hmem : cmdPrefix ++ word ∈ table
  · rw [if_pos hmem]
    exact find?_eq_self hmem
  · rw [if_neg hmem, List.find?_eq_none]
    intro name hname hsame
    exact hmem (of_decide_eq_true hsame ▸ hname)

theorem words_ne_nil {c : UInt8} (hblank : isBlank c = false) (text : Text) :
    words (c :: text) ≠ [] := by
  rcases eq_or_ne c quote with rfl | hquote
  · rw [words_string]
    exact List.cons_ne_nil _ _
  · rw [words_word hblank hquote]
    exact List.cons_ne_nil _ _

section Running

variable {table : List Text} {prints : Call → Text} {Prints : UInt8 → Prop}
  (htable : ∀ name ∈ table, 0 ∉ name) (hplain : ∀ c, isPlain c → Prints c)
  (hprints : ∀ call, ∀ c ∈ prints call, Prints c)

include htable hplain in
/-- The command that starts behind the blanks. -/
theorem mshExecCmd_eq {cmd : Block UInt8} {done command : Text} {c : UInt8}
    (h : Padded finshCmdSize (done ++ c :: command) cmd) (hcommand : 0 ∉ c :: command)
    (hblank : isBlank c = false) (hchars : ∀ d ∈ done ++ c :: command, d ≠ 0 → Prints d) :
    if cmdPrefix ++ commandName (c :: command) ∈ table then
      ∃ next tail printed, mshExecCmd table cmd done.length (c :: command).length =
        .ok (next, some ⟨cmdPrefix ++ commandName (c :: command),
          (words (c :: command)).take finshArgMax⟩, printed) ∧
        Padded finshCmdSize (done ++ tail) next ∧ ∀ d ∈ printed, Prints d
    else mshExecCmd table cmd done.length (c :: command).length = .ok (cmd, none, []) := by
  have hstop : done.length + (c :: command).length = (done ++ c :: command).length :=
    List.length_append.symm
  have hskip := h.skipWhile (fun c ↦ !isBlank c) (.inl hstop)
  have hname : (c :: command).takeWhile (fun c ↦ !isBlank c) = commandName (c :: command) := rfl
  have hpos : 0 < (commandName (c :: command)).length := by
    rw [commandName, List.takeWhile_cons_of_pos (by simp [hblank])]
    exact Nat.succ_pos _
  have hle : (commandName (c :: command)).length ≤ (c :: command).length :=
    (List.takeWhile_sublist _).length_le
  have hload : cmd.load done.length (commandName (c :: command)).length =
      .ok (commandName (c :: command)) := by
    rw [h.load_inside (by rw [List.length_append]; omega), List.drop_left]
    congr 1
    exact (List.prefix_iff_eq_take.mp (List.takeWhile_prefix _)).symm
  have hnul : 0 ∉ commandName (c :: command) :=
    fun hmem ↦ hcommand ((List.takeWhile_sublist _).mem hmem)
  have hlookup := mshGetCmd_eq htable hnul
  rw [hname] at hskip
  split_ifs with hmem
  · rw [if_pos hmem] at hlookup
    obtain ⟨next, tail, args, printed, hsplit, hpadded, hstrings, hprinted⟩ :=
      mshSplit_words hplain h hcommand hchars
    have hargs : args.length ≠ 0 := by
      intro hnone
      rw [List.eq_nil_of_length_eq_zero hnone] at hstrings
      have hwords := words_ne_nil hblank command
      cases hall : words (c :: command) with
      | nil => exact hwords hall
      | cons word rest =>
        rw [hall] at hstrings
        cases hstrings
    refine ⟨next, tail, printed, ?_, hpadded, hprinted⟩
    rw [mshExecCmd, hskip, ok_bind, if_neg (by omega), Nat.add_sub_cancel_left, hload, ok_bind,
      hlookup]
    simp only
    rw [hsplit, ok_bind, if_neg hargs, hstrings]
    rfl
  · rw [if_neg hmem] at hlookup
    rw [mshExecCmd, hskip, ok_bind, if_neg (by omega), Nat.add_sub_cancel_left, hload, ok_bind,
      hlookup]
    rfl

/-- What `msh_exec` says when there is no such command: the line up to the first space. -/
theorem truncate_eq {cmd : Block UInt8} {done command : Text}
    (h : Padded finshCmdSize (done ++ command) cmd) (hcommand : 0 ∉ command) :
    ∃ tcmd next, skipWhile (fun c ↦ c != 0x20 && c != 0) cmd finshCmdSize done.length = .ok tcmd ∧
      cmd.write tcmd 0 = .ok next ∧ next.size = finshCmdSize ∧
      cString next done.length = .ok (command.takeWhile fun c ↦ c != 0x20 && c != 0) := by
  have hskip := h.skipWhile (fun c ↦ c != 0x20 && c != 0)
    (.inr ⟨h.fits.le, (by decide : ((0 : UInt8) != 0x20 && (0 : UInt8) != 0) = false)⟩)
  set name := command.takeWhile fun c ↦ c != 0x20 && c != 0 with hname
  have hnul : 0 ∉ name := fun hmem ↦ hcommand ((List.takeWhile_sublist _).mem hmem)
  have hplace : done.length + name.length = (done ++ name).length := List.length_append.symm
  have hsplit : command = name ++ command.dropWhile fun c ↦ c != 0x20 && c != 0 :=
    List.takeWhile_append_dropWhile.symm
  rw [hsplit, ← List.append_assoc] at h
  rw [hplace] at hskip
  cases hrest : command.dropWhile fun c ↦ c != 0x20 && c != 0 with
  | nil =>
    rw [hrest, List.append_nil] at h
    obtain ⟨next, hnext, hpadded⟩ := h.write_end
    refine ⟨_, next, hskip, hnext, hpadded.size, ?_⟩
    rw [← List.append_nil (done ++ name)] at hpadded
    exact cString_eq hpadded hnul fun c hc ↦ by cases hc
  | cons c rest =>
    rw [hrest] at h
    obtain ⟨next, hnext, hpadded⟩ := h.replace (c := 0)
    refine ⟨_, next, hskip, hnext, hpadded.size, cString_eq hpadded hnul ?_⟩
    exact fun d hd ↦ (Option.some.inj hd).symm

include htable hplain hprints in
/-- **Interpretation.** A line runs the command that its first word names, with its words as the
arguments. -/
theorem mshExec_interpret {cmd : Block UInt8} {line : Text} (h : Padded finshCmdSize line cmd)
    (hline : 0 ∉ line) (hchars : ∀ c ∈ line, Prints c) :
    ∃ next printed, mshExec table prints cmd line.length =
        .ok (next, interpret table line, printed) ∧
      next.size = finshCmdSize ∧ ∀ c ∈ printed, Prints c := by
  have hsize : cmd.size.toNat = finshCmdSize := by rw [h.size, Int.toNat_natCast]
  have hsplit : line = line.takeWhile isBlank ++ line.dropWhile isBlank :=
    List.takeWhile_append_dropWhile.symm
  have hskip : skipWhile isBlank cmd finshCmdSize 0 = .ok (line.takeWhile isBlank).length := by
    have hstart := @Padded.skipWhile _ _ _ cmd [] line h isBlank finshCmdSize
      (.inr ⟨h.fits.le, rfl⟩)
    rwa [List.length_nil, Nat.zero_add] at hstart
  have hlength := length_dropWhile isBlank line
  have hfits := h.fits
  rw [finshCmdSize] at hfits
  have hleft : lengthFrom line.length (line.takeWhile isBlank).length =
      (line.dropWhile isBlank).length := by
    rw [lengthFrom]
    omega
  rw [mshExec, hsize, hskip, ok_bind, hleft, interpret]
  rw [hsplit] at h
  cases hcommand : line.dropWhile isBlank with
  | nil => exact ⟨cmd, [], rfl, h.size, List.forall_mem_nil _⟩
  | cons c command =>
    rw [hcommand] at h hsplit
    have hnul : 0 ∉ c :: command := by
      rw [← hcommand]
      exact fun hmem ↦ hline ((List.dropWhile_sublist _).mem hmem)
    have hrun := mshExecCmd_eq htable hplain h hnul (head_dropWhile hcommand)
      fun d hd _ ↦ hchars d (hsplit ▸ hd)
    have hpos : (c :: command).length ≠ 0 := Nat.succ_ne_zero _
    rw [if_neg hpos]
    by_cases hmem : cmdPrefix ++ commandName (c :: command) ∈ table
    · rw [if_pos hmem] at hrun
      obtain ⟨next, tail, printed, hexec, hpadded, hprinted⟩ := hrun
      rw [hexec, ok_bind, if_pos ⟨List.cons_ne_nil _ _, hmem⟩]
      refine ⟨next, _, rfl, hpadded.size, fun d hd ↦ ?_⟩
      rcases List.mem_append.mp hd with hd | hd
      · exact hprinted d hd
      · exact hprints _ d hd
    · rw [if_neg hmem] at hrun
      obtain ⟨tcmd, next, hskip, hwrite, hnext, hstring⟩ := truncate_eq h hnul
      rw [hrun, ok_bind, if_neg (fun hboth ↦ hmem hboth.2)]
      simp only
      rw [hsize, hskip, ok_bind, hwrite, ok_bind, hstring, ok_bind]
      refine ⟨next, _, rfl, hnext, fun d hd ↦ ?_⟩
      refine rtKprintf_prints hplain (List.forall_mem_append.mpr ⟨fun d hd ↦ ?_, fun d hd ↦ ?_⟩) d hd
      · apply hchars
        rw [hsplit]
        exact List.mem_append_right _ ((List.takeWhile_sublist _).mem hd)
      · have hall : ∀ c ∈ commandNotFound, isPlain c := List.all_eq_true.mp (by decide)
        exact hplain d (hall d hd)

end Running

/-- A command and up to nine arguments in quotes are what their line runs. -/
theorem interpret_commandLine {table : List Text} {name : Text} {args : List Text}
    (hname : Word name) (hmem : cmdPrefix ++ name ∈ table) (hargs : ∀ arg ∈ args, Quotable arg)
    (hcount : args.length < finshArgMax) :
    interpret table (commandLine name args) = some ⟨cmdPrefix ++ name, name :: args⟩ := by
  obtain ⟨c, hhead, _⟩ := hname.head
  obtain ⟨rest, hrest⟩ := List.head?_eq_some_iff.mp hhead
  have hblank : isBlank c = false := hname.no_blank c (by rw [hrest]; exact List.mem_cons_self ..)
  have hstart : (commandLine name args).dropWhile isBlank = commandLine name args := by
    rw [commandLine, hrest, List.cons_append, List.dropWhile_cons_of_neg (by simp [hblank])]
  have hall : ∀ d ∈ name, (!isBlank d) = true := fun d hd ↦ by rw [hname.no_blank d hd]; rfl
  have hcommand : commandName (commandLine name args) = name := by
    rw [commandName, commandLine, List.takeWhile_append_of_pos hall,
      List.takeWhile_cons_of_neg (by decide), List.append_nil]
  have hne : commandLine name args ≠ [] := List.append_ne_nil_of_right_ne_nil _ (List.cons_ne_nil _ _)
  have hwords : (name :: args).take finshArgMax = name :: args := List.take_of_length_le hcount
  rw [interpret, hstart, hcommand, if_pos ⟨hne, hmem⟩, words_commandLine hname hargs, hwords]

/-- **Round trip.** The line of a command and its arguments in quotes runs the command with these
arguments. -/
theorem mshExec_commandLine {table : List Text} (prints : Call → Text) {cmd : Block UInt8}
    {name : Text} {args : List Text} (htable : ∀ symbol ∈ table, 0 ∉ symbol) (hname : Word name)
    (hmem : cmdPrefix ++ name ∈ table) (hargs : ∀ arg ∈ args, Quotable arg ∧ 0 ∉ arg)
    (hcount : args.length < finshArgMax) (h : Padded finshCmdSize (commandLine name args) cmd) :
    ∃ next printed, mshExec table prints cmd (commandLine name args).length =
      .ok (next, some ⟨cmdPrefix ++ name, name :: args⟩, printed) := by
  have hquoted : 0 ∉ quoteArgs args := by
    intro hzero
    obtain ⟨arg, harg, hinside⟩ := List.mem_flatMap.mp hzero
    have hnul := (hargs arg harg).2
    simp [quote, hnul] at hinside
  have hline : 0 ∉ commandLine name args := by
    intro hzero
    rcases List.mem_append.mp hzero with hinside | hinside
    · exact htable _ hmem (List.mem_append_right _ hinside)
    · rcases List.mem_cons.mp hinside with hblank | hinside
      · cases hblank
      · exact hquoted hinside
  obtain ⟨next, printed, hexec, _⟩ := @mshExec_interpret table prints (fun _ ↦ True) htable
    (fun _ _ ↦ trivial) (fun _ _ _ ↦ trivial) cmd _ h hline (fun _ _ ↦ trivial)
  rw [interpret_commandLine hname hmem (fun arg harg ↦ (hargs arg harg).1) hcount] at hexec
  exact ⟨next, printed, hexec⟩

/-- `echo "a b"` -/
theorem mshExec_commandLine_echo :
    ∃ next printed, mshExec [cmdPrefix ++ [0x65, 0x63, 0x68, 0x6f]] (fun _ ↦ [])
        ⟨finshCmdSize, fun k ↦ (commandLine [0x65, 0x63, 0x68, 0x6f] [[0x61, 0x20, 0x62]])[k.toNat]?.getD 0⟩
        (commandLine [0x65, 0x63, 0x68, 0x6f] [[0x61, 0x20, 0x62]]).length =
      .ok (next, some ⟨cmdPrefix ++ [0x65, 0x63, 0x68, 0x6f],
        [[0x65, 0x63, 0x68, 0x6f], [0x61, 0x20, 0x62]]⟩, printed) := by
  apply mshExec_commandLine
  · exact List.forall_mem_singleton.mpr (by decide)
  · exact ⟨by simp [isBlank], 0x65, rfl, by decide⟩
  · exact List.mem_singleton_self _
  · exact List.forall_mem_singleton.mpr ⟨⟨by decide, by decide⟩, by decide⟩
  · decide
  · exact ⟨rfl, by decide, fun _ _ ↦ rfl⟩

end K210Firmware.Shell
