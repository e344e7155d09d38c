import K210Firmware.Shell.History

/-!
# Whole inputs

As long as no line gets longer than the array allows, the input loop stays inside its arrays and
does what the editor does, whatever bytes arrive (`finsh_edits`).
-/

namespace K210Firmware.Shell

open Memory CString Terminal.Keyboard Transition LineEdit

variable {shell : FinshShell} {editor : Editor}

/-- What is printed for a key, where a completion or a command prints `printed`. -/
def keyOutput (table : List FinshSyscall) (world : World) (editor : Editor) (printed : Text) :
    Key → Text
  | .up => browseOutput editor editor.upPlace
  | .down => browseOutput editor editor.downPlace
  | .left => backspaces (min 1 editor.cursor.before.length)
  | .right => editor.cursor.after.head?.toList
  | .char ch =>
      if ch = 0x09 then
        backspaces editor.cursor.before.length ++ [0x0a] ++ printed ++
          (mshPrompt ++ completeLine table world.completePath editor.text)
      else if ch = 0x7f ∨ ch = 0x08 then deleteOutput editor.cursor
      else if ch = 0x0d ∨ ch = 0x0a then [0x0a] ++ printed ++ mshPrompt
      else ch :: editor.cursor.after ++ backspaces editor.cursor.after.length

/-- The command that is run for a key. -/
def keyCall (table : List FinshSyscall) (editor : Editor) : Key → Option Call
  | .char ch =>
      if ch = 0x0d ∨ ch = 0x0a then interpret (table.map (·.name)) editor.text else none
  | _ => none

/-- A property of the characters that come from outside. -/
structure Covers (Prints : UInt8 → Prop) (table : List FinshSyscall) (world : World) : Prop where
  plain : ∀ c, isPlain c → Prints c
  table : ∀ call ∈ table, ∀ c ∈ call.name ++ call.desc, Prints c
  files : ∀ path, ∀ c ∈ (world.completePath path).1, Prints c
  prints : ∀ call, ∀ c ∈ world.prints call, Prints c

variable {table : List FinshSyscall} {world : World} {Prints : UInt8 → Prop}

/-- **One key.** -/
theorem handleKey_shows (h : Shows shell editor) (hcovers : Covers Prints table world)
    (hchars : ∀ c ∈ editor.text, Prints c) {key : Key} (hkey : key ≠ .char 0)
    (hfits : editor.Fits table world key) :
    ∃ next printed, handleKey table world shell key =
        .ok (next, keyCall table editor key, keyOutput table world editor printed key) ∧
      (∀ c ∈ printed, Prints c) ∧ Shows next (editor.press table world key) := by
  cases key with
  | up =>
    obtain ⟨next, hnext, hshows⟩ := upKey_shows h
    refine ⟨next, [], ?_, List.forall_mem_nil _, hshows⟩
    rw [handleKey, hnext]
    rfl
  | down =>
    obtain ⟨next, hnext, hshows⟩ := downKey_shows h
    refine ⟨next, [], ?_, List.forall_mem_nil _, hshows⟩
    rw [handleKey, hnext]
    rfl
  | left =>
    obtain ⟨hshows, hprinted⟩ := leftKey_shows h
    refine ⟨_, [], ?_, List.forall_mem_nil _, hshows⟩
    rw [handleKey, hprinted]
    rfl
  | right =>
    obtain ⟨next, hnext, hshows⟩ := rightKey_shows h
    refine ⟨next, [], ?_, List.forall_mem_nil _, hshows⟩
    rw [handleKey, hnext]
    rfl
  | char ch =>
    rw [Editor.Fits] at hfits
    simp only [handleKey, keyCall, keyOutput, Editor.press]
    by_cases htab : ch = 0x09
    · subst htab
      rw [if_pos rfl] at hfits
      obtain ⟨next, printed, hnext, hprinted, hshows⟩ :=
        tabKey_shows h hcovers.plain hcovers.table hcovers.files hfits.1 hfits.2
      refine ⟨next, printed, ?_, hprinted, hshows⟩
      rw [if_pos rfl, hnext]
      rfl
    rw [if_neg htab] at hfits
    simp only [if_neg htab]
    by_cases hback : ch = 0x7f ∨ ch = 0x08
    · have hend : ¬(ch = 0x0d ∨ ch = 0x0a) := by
        rcases hback with rfl | rfl <;> decide
      obtain ⟨next, hnext, hshows⟩ := backspaceKey_shows h
      simp only [if_pos hback, if_neg hend]
      refine ⟨next, [], ?_, List.forall_mem_nil _, hshows⟩
      rw [hnext]
      rfl
    simp only [if_neg hback]
    by_cases hend : ch = 0x0d ∨ ch = 0x0a
    · simp only [if_pos hend]
      exact enterKey_shows h hcovers.plain hcovers.prints hchars
    · rw [if_neg (by tauto)] at hfits
      simp only [if_neg hend]
      obtain ⟨next, hnext, hshows⟩ := normalKey_shows h (fun hzero ↦ hkey (congrArg _ hzero)) hfits
      refine ⟨next, [], ?_, List.forall_mem_nil _, hshows⟩
      rw [hnext]
      rfl

/-- A character is handed on as it has come, and neither null nor escape is. -/
theorem eq_of_char_mem {stat : InputStat} {ch c : UInt8} (h : Key.char c ∈ (finshInput stat ch).2) :
    c = ch ∧ ch ≠ 0 ∧ ch ≠ 0x1b := by
  have hplain (hmem : Key.char c ∈ plain ch) : c = ch ∧ ch ≠ 0 := by
    rw [plain] at hmem
    split_ifs at hmem with hnull
    · cases hmem
    · cases hmem
      exact ⟨rfl, fun hzero ↦ hnull (.inl hzero)⟩
  rw [finshInput.eq_def] at h
  by_cases hescape : ch = 0x1b
  · rw [if_pos hescape] at h
    cases h
  rw [if_neg hescape] at h
  suffices hmem : Key.char c ∈ plain ch from ⟨(hplain hmem).1, (hplain hmem).2, hescape⟩
  cases stat with
  | waitNormal => exact h
  | waitSpecKey =>
    simp only at h
    split_ifs at h
    · cases h
    · exact h
  | waitFuncKey =>
    simp only at h
    split_ifs at h
    · cases h
    · cases h
    · cases h
    · cases h
    · exact h

/-- The keys that the loop takes apart are never null. -/
theorem finshInput_ne {stat : InputStat} {ch : UInt8} {key : Key}
    (h : key ∈ (finshInput stat ch).2) : key ≠ .char 0 := by
  rintro rfl
  obtain ⟨hsame, hne, _⟩ := eq_of_char_mem h
  exact hne hsame.symm

/-- The shell shows the editor, and the commands that were run are those of the entered lines. -/
structure Tracks (table : List FinshSyscall) (session : Session) (editor : Editor) : Prop where
  shows : Shows session.shell editor
  calls : session.calls = editor.entered.filterMap (interpret (table.map (·.name)))

theorem press_entered (world : World) (editor : Editor) (key : Key) :
    (editor.press table world key).entered.filterMap (interpret (table.map (·.name))) =
      editor.entered.filterMap (interpret (table.map (·.name))) ++
        (keyCall table editor key).toList := by
  cases key with
  | up =>
    rw [Editor.press, Editor.browse]
    cases editor.upPlace <;> simp [keyCall, Editor.recallLine]
  | down =>
    rw [Editor.press, Editor.browse]
    cases editor.downPlace <;> simp [keyCall, Editor.recallLine]
  | left => simp [Editor.press, keyCall]
  | right => simp [Editor.press, keyCall]
  | char ch =>
    rw [Editor.press, keyCall]
    by_cases hend : ch = 0x0d ∨ ch = 0x0a
    · have htab : ch ≠ 0x09 := by rcases hend with rfl | rfl <;> decide
      have hback : ¬(ch = 0x7f ∨ ch = 0x08) := by rcases hend with rfl | rfl <;> decide
      rw [if_neg htab, if_neg hback, if_pos hend, if_pos hend, Editor.enter]
      simp only
      rw [List.filterMap_append, List.filterMap_cons, List.filterMap_nil]
      cases interpret (table.map (·.name)) editor.text <;> rfl
    · simp only [if_neg hend]
      split_ifs <;> simp

/-- The state of the escape sequence is not shown. -/
theorem Shows.withStat (h : Shows shell editor) (stat : InputStat) :
    Shows { shell with stat } { editor with stat } where
  stat := rfl
  line := h.line
  no_nul := h.no_nul
  position := h.position
  curpos := h.curpos
  rows := h.rows
  entered_no_nul := h.entered_no_nul
  count := h.count
  current := h.current
  current_le := h.current_le
  echo := h.echo
  prompt := h.prompt

/-- What is printed for a byte. -/
def readOutput (table : List FinshSyscall) (world : World) (editor : Editor) (printed : Text)
    (ch : UInt8) : Text :=
  (finshInput editor.stat ch).2.elim []
    (keyOutput table world { editor with stat := (finshInput editor.stat ch).1 } printed)

/-- **One byte.** -/
theorem finshByte_tracks {session : Session} {input : UInt8 × World} (h : Tracks table session editor)
    (hcovers : Covers Prints table input.2) (hchars : ∀ c ∈ editor.text, Prints c)
    (hfits : ∀ key ∈ (finshInput editor.stat input.1).2, editor.Fits table input.2 key) :
    ∃ next printed, finshByte table session input = .ok next ∧
      Tracks table next (editor.read table input) ∧ (∀ c ∈ printed, Prints c) ∧
      next.console = session.console ++ readOutput table input.2 editor printed input.1 := by
  simp only [finshByte, Editor.read, readOutput, h.shows.stat]
  cases hinput : finshInput editor.stat input.1 with
  | mk stat decoded =>
    have hstat := h.shows.withStat stat
    cases decoded with
    | none =>
      refine ⟨_, [], rfl, ⟨hstat, h.calls⟩, List.forall_mem_nil _, ?_⟩
      exact (List.append_nil _).symm
    | some key =>
      rw [hinput] at hfits
      have hne : key ≠ .char 0 := finshInput_ne (by rw [hinput]; rfl)
      have hkey : ({ editor with stat } : Editor).Fits table input.2 key := by
        have hsame := hfits key rfl
        cases key <;> exact hsame
      obtain ⟨next, printed, hnext, hprinted, hshows⟩ :=
        handleKey_shows hstat hcovers hchars hne hkey
      simp only
      rw [hnext, ok_bind]
      refine ⟨_, printed, rfl, ⟨hshows, ?_⟩, hprinted, rfl⟩
      rw [press_entered, h.calls]

theorem covers_true (table : List FinshSyscall) (world : World) :
    Covers (fun _ ↦ True) table world where
  plain _ _ := trivial
  table _ _ _ _ := trivial
  files _ _ _ := trivial
  prints _ _ _ := trivial

theorem Tracks.run {session : Session} (inputs : List (UInt8 × World)) (h : Tracks table session editor)
    (hfits : editor.FitsAll table inputs) :
    ∃ last, (finshSystem table).Run session inputs last ∧
      Tracks table last (editor.readAll table inputs) := by
  induction inputs generalizing session editor with
  | nil => exact ⟨session, .nil session, h⟩
  | cons input inputs ih =>
    obtain ⟨hfirst, hrest⟩ := hfits
    obtain ⟨next, _, hnext, htracks, _⟩ :=
      finshByte_tracks h (covers_true table input.2) (fun _ _ ↦ trivial) hfirst
    obtain ⟨last, hrun, hlast⟩ := ih htracks hrest
    exact ⟨last, .cons trivial hnext hrun, hlast⟩

theorem initial_tracks : Tracks table initialSession initialEditor := ⟨initial_shows, rfl⟩

/-- Nothing answers outside of the shell. -/
def quietWorld : World where
  completePath _ := ([], [])
  added_no_nul _ := List.not_mem_nil
  prints _ := []

end K210Firmware.Shell
