import K210Firmware.Shell.Editing

/-!
# The keyboard of the terminal and lines that are too long

What the keyboard on the screen sends for its buttons edits the line button by button
(`buttons_edit`). The character that fills the array of the line leaves no room for a NUL, and the
shell reads on behind the array, at once or at the next tab (`full_line_overruns`).
-/

namespace K210Firmware.Shell

open Memory CString Terminal.Keyboard Transition LineEdit

variable {table : List FinshSyscall} {editor : Editor}

/-! ## Buttons -/

namespace Editor

/-- A press of a button, and what the shell meets outside when its last byte comes. -/
abbrev Press := Key × World

end Editor

theorem finshInput_char {ch : UInt8} (h : (Key.char ch).Readable) :
    finshInput .waitNormal ch = (.waitNormal, some (.char ch)) := by
  obtain ⟨hescape, hnull, herror⟩ := h
  simp [finshInput, plain, hescape, hnull, herror]

section Reading

variable {input : UInt8 × World} {inputs : List (UInt8 × World)} {stat : InputStat} {key : Key}

theorem read_key (h : finshInput editor.stat input.1 = (stat, some key)) :
    editor.read table input = Editor.press { editor with stat } table input.2 key := by
  rw [Editor.read, h]

theorem fitsAll_key (h : finshInput editor.stat input.1 = (stat, some key))
    (hfits : editor.Fits table input.2 key)
    (hrest : (Editor.press { editor with stat } table input.2 key).FitsAll table inputs) :
    editor.FitsAll table (input :: inputs) := by
  rw [Editor.FitsAll, read_key h, h]
  refine ⟨fun other hother ↦ ?_, hrest⟩
  cases hother
  exact hfits

end Reading

/-- A character that is put into the line. -/
def Ordinary (ch : UInt8) : Prop :=
  (Key.char ch).Readable ∧ ch ≠ 0x09 ∧ ¬(ch = 0x7f ∨ ch = 0x08) ∧ ¬(ch = 0x0d ∨ ch = 0x0a)

section Letters

variable {letters : Text} (hletters : ∀ ch ∈ letters, Ordinary ch) (world : World)
include hletters

/-- Ordinary characters are put into the line. -/
theorem readAll_letters (hstat : editor.stat = .waitNormal) :
    editor.readAll table (letters.map fun ch ↦ (ch, world)) =
      { editor with cursor := ⟨editor.cursor.before ++ letters, editor.cursor.after⟩ } := by
  induction letters generalizing editor with
  | nil =>
    rw [List.append_nil]
    rfl
  | cons ch letters ih =>
    obtain ⟨⟨hreadable, htab, hback, hend⟩, hrest⟩ := List.forall_mem_cons.mp hletters
    have hinput : finshInput editor.stat ch = (.waitNormal, some (.char ch)) := by
      rw [hstat]
      exact finshInput_char hreadable
    have hread : editor.read table (ch, world) =
        { editor with stat := .waitNormal, cursor := editor.cursor.insert ch } := by
      rw [read_key hinput, Editor.press, if_neg htab, if_neg hback, if_neg hend]
    have hothers := @ih { editor with stat := .waitNormal, cursor := editor.cursor.insert ch } hrest rfl
    rw [Editor.readAll] at hothers
    rw [List.map_cons, Editor.readAll, List.foldl_cons, hread, hothers, hstat, Cursor.insert]
    simp

theorem fitsAll_letters (hstat : editor.stat = .waitNormal)
    (hfits : editor.text.length + letters.length < finshCmdSize) :
    editor.FitsAll table (letters.map fun ch ↦ (ch, world)) := by
  induction letters generalizing editor with
  | nil => trivial
  | cons ch letters ih =>
    obtain ⟨⟨hreadable, htab, hback, hend⟩, hrest⟩ := List.forall_mem_cons.mp hletters
    have hinput : finshInput editor.stat ch = (.waitNormal, some (.char ch)) := by
      rw [hstat]
      exact finshInput_char hreadable
    rw [List.length_cons] at hfits
    have hlength : (editor.cursor.insert ch).text.length = editor.text.length + 1 := by
      rw [Editor.text, Cursor.text, Cursor.text, Cursor.insert]
      simp only [List.length_append, List.length_singleton]
      omega
    refine fitsAll_key hinput ?_ ?_
    · rw [Editor.Fits, if_neg htab, if_neg (by tauto)]
      omega
    · rw [Editor.press, if_neg htab, if_neg hback, if_neg hend]
      refine ih hrest rfl ?_
      rw [Editor.text, hlength]
      omega

end Letters

variable {shell : FinshShell} {ch : UInt8}

/-- Without a NUL in the line the tab key reads on behind it. -/
theorem tabKey_overruns (completePath : PathCompletion) (hsize : shell.line.size = finshCmdSize)
    (h : Unterminated shell.line) : tabKey table completePath shell = .error .outOfBounds := by
  have hfirst : shell.line.cell 0 ≠ 0 := h 0 (by rw [hsize]; decide)
  have hstring := @Unterminated.cString _ _ _ shell.line 0 h (by rw [hsize]; decide)
  rw [Int.natCast_zero] at hstring
  rw [tabKey, mshAutoComplete, Block.read_eq_ok le_rfl (by rw [hsize]; decide), ok_bind,
    if_neg hfirst, hstring]
  rfl

/-- The character that fills the array, behind the other characters. -/
theorem normalKey_fills (h : Shows shell editor) (hch : ch ≠ 0)
    (hfull : editor.text.length + 1 = finshCmdSize) (hafter : editor.cursor.after = []) :
    ∃ next printed, normalKey shell ch = .ok (next, printed) ∧ next.stat = shell.stat ∧
      next.line.size = finshCmdSize ∧ Unterminated next.line := by
  have hlength : editor.text.length = editor.cursor.before.length := by
    rw [Editor.text, Cursor.text, hafter, List.append_nil]
  obtain ⟨line, hwrite, hline⟩ := h.line.unterminated_of_write h.no_nul hfull hch
  have hsize : line.size = finshCmdSize := by
    rw [Block.write_eq_ok (by omega) (by rw [h.line.size]; omega)] at hwrite
    exact (Except.ok.inj hwrite ▸ h.line.size)
  have hroom : ¬finshCmdSize ≤ shell.linePosition := by
    rw [h.position]
    omega
  have hlast : finshCmdSize ≤ inc16 shell.linePosition := by
    rw [h.position, inc16_eq h.length_lt.le]
    exact hfull.ge
  rw [normalKey, if_neg hroom]
  simp only
  rw [if_neg (by rw [h.curpos, h.position]; omega)]
  rw [← h.position] at hwrite
  rw [hwrite]
  simp only [ok_bind, pure_bind]
  rw [if_pos hlast]
  exact ⟨_, _, rfl, rfl, hsize, hline⟩

/-- The same in front of other characters: the print of the line reads on behind it. -/
theorem normalKey_overruns (h : Shows shell editor) (hch : ch ≠ 0)
    (hfull : editor.text.length + 1 = finshCmdSize) (hafter : editor.cursor.after ≠ []) :
    normalKey shell ch = .error .outOfBounds := by
  have hlength : editor.text.length =
      editor.cursor.before.length + editor.cursor.after.length := List.length_append
  have hpos := List.length_pos_of_ne_nil hafter
  have hcount : shell.linePosition - shell.lineCurpos = editor.cursor.after.length := by
    rw [h.curpos, h.position]
    omega
  have hload := h.line.load_inside (k := editor.cursor.before.length) hlength.ge
  rw [Editor.text, Cursor.text, List.drop_left, List.take_length, ← h.curpos] at hload
  obtain ⟨moved, next, hstore, hwrite, hsize, hnext⟩ :=
    Padded.unterminated_of_shift h.line h.no_nul hfull hch
  have hstring := hnext.cString (k := editor.cursor.before.length) (by rw [hsize]; omega)
  rw [← h.curpos] at hstore hwrite hstring
  have hroom : ¬finshCmdSize ≤ shell.linePosition := by
    rw [h.position]
    omega
  rw [normalKey, if_neg hroom]
  simp only
  rw [if_pos (by rw [h.curpos, h.position]; omega), hcount, hload, ok_bind, hstore, ok_bind, hwrite,
    ok_bind, if_pos h.echo, hstring]
  rfl

/-- **Overrun.** After every input that leaves a line of 79 characters, the character that fills the
array makes the shell read behind it: at once if the cursor is inside of the line, and at the next
tab if it is at the end. -/
theorem full_line_overruns (inputs : List (UInt8 × World)) (hfits : initialEditor.FitsAll table inputs)
    (hstat : (initialEditor.readAll table inputs).stat = .waitNormal)
    (hfull : (initialEditor.readAll table inputs).text.length + 1 = finshCmdSize)
    (hch : Ordinary ch) (world tabWorld : World) :
    ∃ last, (finshSystem table).Run initialSession inputs last ∧
      if (initialEditor.readAll table inputs).cursor.after = [] then
        ∃ full, finshByte table last (ch, world) = .ok full ∧
          finshByte table full (0x09, tabWorld) = .error .outOfBounds
      else finshByte table last (ch, world) = .error .outOfBounds := by
  obtain ⟨hreadable, htab, hback, hend⟩ := hch
  obtain ⟨last, hrun, htracks⟩ := initial_tracks.run inputs hfits
  refine ⟨last, hrun, ?_⟩
  have hshows : Shows { last.shell with stat := .waitNormal }
      { initialEditor.readAll table inputs with stat := .waitNormal } :=
    htracks.shows.withStat .waitNormal
  have hinput : finshInput last.shell.stat ch = (.waitNormal, some (.char ch)) := by
    rw [htracks.shows.stat, hstat]
    exact finshInput_char hreadable
  have hbyte : finshByte table last (ch, world) =
      (handleKey table world { last.shell with stat := .waitNormal } (.char ch) >>=
        fun result ↦ .ok ⟨result.1, last.console ++ result.2.2,
          last.calls ++ result.2.1.toList⟩) := by
    rw [finshByte, hinput]
    rfl
  rw [hbyte, handleKey, if_neg htab, if_neg hback, if_neg hend]
  split_ifs with hafter
  · obtain ⟨next, printed, hnext, hkeep, hsize, hopen⟩ :=
      normalKey_fills hshows hreadable.2.1 hfull hafter
    rw [hnext]
    refine ⟨_, rfl, ?_⟩
    have hline : tabKey table tabWorld.completePath { next with stat := .waitNormal } =
        .error .outOfBounds := tabKey_overruns _ hsize hopen
    have hdecoded : finshInput next.stat 0x09 = (.waitNormal, some (.char 0x09)) := by
      rw [hkeep]
      rfl
    rw [finshByte, hdecoded]
    simp only
    rw [handleKey, if_pos rfl, hline]
    rfl
  · rw [normalKey_overruns hshows hreadable.2.1 hfull hafter]
    rfl

/-- 79 times `a`, and one more -/
theorem full_line_overruns_letters :
    ∃ last, (finshSystem []).Run initialSession
        ((List.replicate 79 0x61).map fun ch ↦ (ch, quietWorld)) last ∧
      if (initialEditor.readAll [] ((List.replicate 79 0x61).map fun ch ↦
          (ch, quietWorld))).cursor.after = [] then
        ∃ full, finshByte [] last (0x61, quietWorld) = .ok full ∧
          finshByte [] full (0x09, quietWorld) = .error .outOfBounds
      else finshByte [] last (0x61, quietWorld) = .error .outOfBounds := by
  have hletter : Ordinary 0x61 := ⟨by decide, by decide, by decide, by decide⟩
  have hletters : ∀ ch ∈ List.replicate 79 (0x61 : UInt8), Ordinary ch := by
    intro ch hch
    rw [List.eq_of_mem_replicate hch]
    exact hletter
  have hread := @readAll_letters [] initialEditor _ hletters quietWorld rfl
  refine full_line_overruns _ (fitsAll_letters hletters quietWorld rfl (by decide)) ?_ ?_ hletter _ _
  · rw [hread]
    rfl
  · rw [hread]
    decide

end K210Firmware.Shell
