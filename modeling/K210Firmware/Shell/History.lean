import K210Firmware.Shell.Keys

/-!
# The end of a line

A line that is entered goes into the history, unless it is empty or repeats the last one, and is
run. A full history moves up by one line.
-/

namespace K210Firmware.Shell

open Memory CString Terminal.Keyboard LineEdit

variable {shell : FinshShell} {editor : Editor}

variable {row : ℕ → Text} {history : Block (Block UInt8)}

theorem RowsHold.read (h : RowsHold row history) {i : ℕ} (hi : i < finshHistoryLines) :
    history.read i = .ok (history.cell i) :=
  Block.read_eq_ok (by omega) (by rw [h.size]; omega)

theorem RowsHold.congr {other : ℕ → Text} (h : RowsHold row history)
    (hsame : ∀ i < finshHistoryLines, other i = row i) : RowsHold other history := by
  refine ⟨h.size, fun i hi ↦ ?_⟩
  rw [hsame i hi]
  exact h.padded i hi

/-- Writing one line of the history. -/
theorem RowsHold.write (h : RowsHold row history) {i : ℕ} (hi : i < finshHistoryLines) {text : Text}
    {command : Block UInt8} (hcommand : Padded finshCmdSize text command) :
    ∃ next, history.write i command = .ok next ∧
      RowsHold (Function.update row i text) next := by
  refine ⟨_, Block.write_eq_ok (by omega) (by rw [h.size]; omega), h.size, fun k hk ↦ ?_⟩
  rcases eq_or_ne k i with rfl | hne
  · simpa using hcommand
  · rw [Function.update_of_ne hne]
    simp only
    rw [Function.update_of_ne (by omega)]
    exact h.padded k hk

/-- One round of the loop that moves the history. -/
theorem moveHistory_holds (h : RowsHold row history) {i : ℕ} (hi : i + 1 < finshHistoryLines) :
    ∃ next, moveHistory history i = .ok next ∧
      RowsHold (Function.update row i (row (i + 1))) next := by
  obtain ⟨bytes, command, hload, hstore, hpadded⟩ :=
    (h.padded i (by omega)).copy (h.padded (i + 1) hi)
  obtain ⟨next, hwrite, hnext⟩ := h.write (i := i) (by omega) hpadded
  refine ⟨next, ?_, hnext⟩
  rw [moveHistory, h.read hi, ok_bind, hload, ok_bind, h.read (by omega), ok_bind, hstore, ok_bind,
    hwrite]

/-- The whole loop: every line takes the place of the one before. -/
theorem foldlM_moveHistory (h : RowsHold row history) {count : ℕ} (hcount : count < finshHistoryLines) :
    ∃ next, (List.range count).foldlM moveHistory history = .ok next ∧
      RowsHold (fun i ↦ if i < count then row (i + 1) else row i) next := by
  induction count with
  | zero => exact ⟨history, rfl, by simpa using h⟩
  | succ count ih =>
    obtain ⟨middle, hmiddle, hmoved⟩ := ih (by omega)
    obtain ⟨next, hnext, hlast⟩ := moveHistory_holds hmoved hcount
    refine ⟨next, ?_, ?_⟩
    · rw [List.range_succ, List.foldlM_append, hmiddle, ok_bind, List.foldlM_cons, hnext, ok_bind]
      rfl
    · refine hlast.congr fun i _ ↦ ?_
      rcases eq_or_ne i count with rfl | hne
      · rw [if_pos (Nat.lt_succ_self i), Function.update_self, if_neg (by omega)]
      · rw [Function.update_of_ne hne]
        simp only [Nat.lt_succ_iff_lt_or_eq, hne, or_false]

/-- The line becomes a line of the history. -/
theorem putHistory_holds (hshell : Shows shell editor) (h : RowsHold row history) {i : ℕ}
    (hi : i < finshHistoryLines) :
    ∃ next, putHistory shell history i = .ok next ∧
      RowsHold (Function.update row i editor.text) next := by
  have hload := hshell.line.load_inside (k := 0) (Nat.zero_add editor.text.length).le
  rw [List.drop_zero, List.take_length, Int.natCast_zero, ← hshell.position] at hload
  have hclear : Padded finshCmdSize [] ((history.cell i).fill finshCmdSize 0) :=
    Padded.fill (h.padded i hi).size (by decide)
  have hfits := hshell.length_lt
  have hstore := hclear.store (k := 0) (show 0 + editor.text.length < finshCmdSize by omega)
  have hline := hclear.overlay (k := 0) (Nat.zero_le _)
    (show 0 + editor.text.length < finshCmdSize by omega)
  rw [Int.natCast_zero] at hstore hline
  rw [List.take_zero, List.nil_append, List.drop_nil, List.append_nil] at hline
  obtain ⟨next, hwrite, hnext⟩ := h.write hi hline
  refine ⟨next, ?_, hnext⟩
  rw [putHistory, h.read hi, ok_bind, hload, ok_bind, hstore, ok_bind, hwrite]

/-- The comparison with a line of the history. -/
theorem historyDiffers_eq (h : Shows shell editor) {i : ℕ} (hi : i < editor.history.length) :
    historyDiffers shell i = .ok (decide (editor.history[i] ≠ editor.text)) := by
  have hbound : i < finshHistoryLines := hi.trans_le (length_recent_le _ _)
  have hrow := h.rows.padded i hbound
  rw [rowsOf, List.getElem?_eq_getElem hi, Option.getD_some] at hrow
  have hleft := hrow.load_rest (k := 0) (Nat.zero_le _)
  have hright := h.line.load_rest (k := 0) (Nat.zero_le _)
  have hsame := hrow.load_eq_iff h.line (h.rows_no_nul _ (List.getElem_mem hi)) h.no_nul
  rw [Nat.sub_zero, Int.natCast_zero] at hleft hright
  rw [hleft, hright] at hsame
  rw [historyDiffers, h.rows.read hbound, ok_bind, hleft, ok_bind, hright, ok_bind]
  refine congrArg Except.ok ?_
  rw [Bool.eq_iff_iff, bne_iff_ne, decide_eq_true_iff, ne_eq, ne_eq, ← hsame, Except.ok.injEq]

/-- What is remembered when a line is entered. -/
theorem enter_history (editor : Editor) :
    editor.enter.history = if editor.text = [] then editor.history
      else remember finshHistoryLines editor.history editor.text := by
  rw [Editor.history, Editor.enter]
  simp only
  rw [List.filter_append]
  by_cases hempty : editor.text = []
  · rw [if_pos hempty, hempty]
    simp [Editor.history]
  · rw [if_neg hempty, List.filter_cons_of_pos (by simpa using hempty), List.filter_nil,
      recent_concat (by decide), Editor.history]

theorem rtake_concat_short {lines : List Text} {line : Text}
    (h : lines.length < finshHistoryLines) :
    (lines ++ [line]).rtake finshHistoryLines = lines ++ [line] := by
  rw [List.rtake, List.length_append, List.length_singleton, Nat.sub_eq_zero_of_le (by omega),
    List.drop_zero]

theorem rtake_concat_full {lines : List Text} {line : Text}
    (h : lines.length = finshHistoryLines) :
    (lines ++ [line]).rtake finshHistoryLines = lines.tail ++ [line] := by
  have hne : lines ≠ [] := by
    rintro rfl
    cases h
  rw [List.rtake, List.length_append, List.length_singleton, h, Nat.add_sub_cancel_left,
    List.drop_one, List.tail_append_of_ne_nil hne]

/-- The line is pushed unless it is empty or repeats the last one. -/
theorem shellPushHistory_holds (h : Shows shell editor) :
    ∃ history count, shellPushHistory shell = .ok { shell with
        cmdHistory := history, historyCount := count, currentHistory := count } ∧
      RowsHold (rowsOf editor.enter.history) history ∧ count = editor.enter.history.length := by
  have hle : editor.history.length ≤ finshHistoryLines := length_recent_le _ _
  rw [enter_history, shellPushHistory]
  by_cases hempty : editor.text = []
  · rw [if_pos (by rw [h.position, hempty]; rfl), if_pos hempty]
    exact ⟨_, _, rfl, h.rows, h.count⟩
  have hlength := List.length_pos_of_ne_nil hempty
  rw [if_neg (by rw [h.position]; omega), if_neg hempty, remember]
  by_cases hfull : finshHistoryLines ≤ editor.history.length
  · -- the history is full
    have hall : editor.history.length = finshHistoryLines := le_antisymm hle hfull
    have hlast : finshHistoryLines - 1 < editor.history.length := by rw [hall]; decide
    have hdiffers := historyDiffers_eq h hlast
    have hgetLast : editor.history.getLast? = some editor.history[finshHistoryLines - 1] := by
      rw [List.getLast?_eq_getElem?, hall, List.getElem?_eq_getElem hlast]
    rw [if_pos (by rwa [h.count]), hdiffers, ok_bind, hgetLast]
    by_cases hsame : editor.history[finshHistoryLines - 1] = editor.text
    · rw [if_neg (by simpa using hsame), if_pos (congrArg some hsame)]
      exact ⟨_, _, rfl, h.rows, h.count⟩
    · obtain ⟨moved, hmove, hmoved⟩ := foldlM_moveHistory h.rows (show 9 < finshHistoryLines by decide)
      obtain ⟨history, hput, hrows⟩ := putHistory_holds h hmoved (show 9 < finshHistoryLines by decide)
      have hput' : putHistory shell moved (finshHistoryLines - 1) = .ok history := hput
      have hmove' : (List.range (finshHistoryLines - 1)).foldlM moveHistory shell.cmdHistory =
          .ok moved := hmove
      rw [if_pos (by simpa using hsame), if_neg (by simpa using hsame), hmove', ok_bind, hput',
        rtake_concat_full hall]
      refine ⟨history, finshHistoryLines, rfl, hrows.congr fun i hi ↦ ?_, ?_⟩
      · rw [finshHistoryLines] at hi hall
        rcases eq_or_ne i 9 with rfl | hne
        · rw [Function.update_self, rowsOf, List.getElem?_append_right (by simp [hall]),
            List.length_tail, hall]
          rfl
        · have hlt : i < 9 := by omega
          rw [Function.update_of_ne hne, if_pos hlt, rowsOf, rowsOf,
            List.getElem?_append_left (by rw [List.length_tail, hall]; exact hlt),
            List.getElem?_tail]
      · rw [List.length_append, List.length_tail, hall]
        rfl
  · -- there is room for one more line
    have hroom : editor.history.length < finshHistoryLines := by omega
    have hinc : inc16 shell.historyCount = (editor.history ++ [editor.text]).length := by
      have hsmall : finshHistoryLines ≤ finshCmdSize := by decide
      rw [h.count, inc16_eq (by omega), List.length_append]
      rfl
    obtain ⟨history, hput, hrows⟩ := putHistory_holds h h.rows hroom
    rw [← h.count] at hput
    have hmore : RowsHold (rowsOf (editor.history ++ [editor.text])) history := by
      refine hrows.congr fun i _ ↦ ?_
      rcases eq_or_ne i editor.history.length with rfl | hne
      · rw [Function.update_self, rowsOf, List.getElem?_concat_length]
        rfl
      · rw [Function.update_of_ne hne, rowsOf, rowsOf]
        rcases Nat.lt_or_gt_of_ne hne with hlt | hgt
        · rw [List.getElem?_append_left hlt]
        · rw [List.getElem?_eq_none (by simp; omega), List.getElem?_eq_none hgt.le]
    have hdiffers : lastDiffers shell =
        .ok (decide (editor.history.getLast? ≠ some editor.text)) := by
      rw [lastDiffers]
      rcases List.eq_nil_or_concat' editor.history with hnil | ⟨front, last, hsplit⟩
      · rw [if_pos (by rw [h.count, hnil]; rfl), hnil]
        rfl
      · have hlast : editor.history.length - 1 < editor.history.length := by
          rw [hsplit]
          simp
        have hcount : shell.historyCount - 1 = editor.history.length - 1 := by rw [h.count]
        rw [if_neg (by rw [h.count]; omega), hcount, historyDiffers_eq h hlast]
        simp only [hsplit, List.getLast?_concat]
        simp
    rw [if_neg (by rwa [h.count]), rtake_concat_short hroom, hdiffers, ok_bind]
    by_cases hsame : editor.history.getLast? = some editor.text
    · rw [if_neg (by simpa using hsame), if_pos hsame]
      exact ⟨_, _, rfl, h.rows, h.count⟩
    · rw [if_pos (by simpa using hsame), if_neg hsame, hput]
      exact ⟨history, _, rfl, hmore, hinc⟩

/-- The end of a line. -/
theorem enterKey_shows (h : Shows shell editor) {table : List FinshSyscall} {world : World}
    {Prints : UInt8 → Prop} (hplain : ∀ c, isPlain c → Prints c)
    (hprints : ∀ call, ∀ c ∈ world.prints call, Prints c) (hchars : ∀ c ∈ editor.text, Prints c) :
    ∃ next printed, enterKey table world.prints shell = .ok (next,
        interpret (table.map (·.name)) editor.text, [0x0a] ++ printed ++ mshPrompt) ∧
      (∀ c ∈ printed, Prints c) ∧ Shows next editor.enter := by
  have htable : ∀ name ∈ table.map (·.name), 0 ∉ name := by
    intro name hname
    obtain ⟨call, _, rfl⟩ := List.mem_map.mp hname
    exact call.name_no_nul
  obtain ⟨history, count, hpush, hrows, hcount⟩ := shellPushHistory_holds h
  obtain ⟨line, printed, hexec, hsize, hprinted⟩ :=
    mshExec_interpret htable hplain hprints h.line h.no_nul hchars
  rw [← h.position] at hexec
  refine ⟨{ shell with
    cmdHistory := history
    historyCount := count
    currentHistory := count
    line := line.fill finshCmdSize 0
    linePosition := 0
    lineCurpos := 0 }, printed, ?_, hprinted, ?_⟩
  · rw [enterKey, hpush, ok_bind]
    simp only
    rw [hexec, ok_bind]
    simp only
    rw [if_pos h.echo]
    exact congrArg (fun prompt ↦ Except.ok (_, _, rtKprintf [0x0a] ++ printed ++ rtKprintf prompt))
      h.prompt
  · exact {
      stat := h.stat
      line := Padded.fill hsize (by decide)
      no_nul := List.not_mem_nil
      position := rfl
      curpos := rfl
      rows := hrows
      entered_no_nul := by
        intro line hline
        rcases List.mem_append.mp hline with hline | hline
        · exact h.entered_no_nul line hline
        · rw [List.mem_singleton.mp hline]
          exact h.no_nul
      count := hcount
      current := hcount
      current_le := le_rfl
      echo := h.echo
      prompt := h.prompt }

end K210Firmware.Shell
