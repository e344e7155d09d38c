import K210Firmware.Library.TerminalRow
import K210Firmware.Shell.Editing

/-!
# The line on the screen

The loop never redraws the whole screen: for every key it sends the characters that have changed and
moves the cursor with backspaces. On a character terminal the row of the cursor then always shows the
prompt and the line, with the cursor of the terminal at the cursor of the line (`finsh_displays`).
-/

namespace K210Firmware.Shell

open Terminal Terminal.Keyboard Transition LineEdit

variable {table : List FinshSyscall} {world : World} {editor : Editor} {margin : Text}

/-- The row shows what a command has left in front of the prompt, the prompt and the line, with the
cursor where it is in the line. -/
def ShowsLine {Screen : Type*} (terminal : CharTerminal Screen) (screen : Screen) (margin : Text)
    (editor : Editor) : Prop :=
  terminal.Shows screen (margin ++ mshPrompt ++ editor.text)
    ((margin ++ mshPrompt).length + editor.cursor.before.length)

/-- Only characters that a terminal shows. -/
structure Printable (editor : Editor) : Prop where
  text : ∀ c ∈ editor.text, isPrintable c
  entered : ∀ line ∈ editor.entered, ∀ c ∈ line, isPrintable c

/-- The commands and files have names that a terminal shows, and what is printed is text. -/
structure Legible (table : List FinshSyscall) (world : World) : Prop where
  covers : Covers (isPlain ·) table world
  names : ∀ call ∈ table, ∀ c ∈ call.name, isPrintable c
  added : ∀ path, ∀ c ∈ (world.completePath path).2, isPrintable c

/-- A key that edits the line or adds a character that a terminal shows. -/
def Typed : Key → Prop
  | .char ch => ch = 0x09 ∨ (ch = 0x7f ∨ ch = 0x08) ∨ (ch = 0x0d ∨ ch = 0x0a) ∨ isPrintable ch
  | _ => True

instance : DecidablePred Typed
  | .char ch =>
      inferInstanceAs (Decidable (ch = 0x09 ∨ (ch = 0x7f ∨ ch = 0x08) ∨ (ch = 0x0d ∨ ch = 0x0a) ∨
        isPrintable ch))
  | .up | .down | .left | .right => inferInstanceAs (Decidable True)

theorem printable_of_plain {c : UInt8} (h : isPlain c) : isPrintable c ∨ c = 0x0a ∨ c = 0 := by
  simpa [isPlain, isPrintable, or_assoc] using h

theorem plain_of_printable {c : UInt8} (h : isPrintable c) : isPlain c := by
  simp only [isPlain, isPrintable, Bool.or_eq_true] at h ⊢
  exact .inl (.inl h)

theorem mshPrompt_printable : ∀ c ∈ mshPrompt, isPrintable c := List.all_eq_true.mp (by decide)

theorem Printable.history (h : Printable editor) : ∀ line ∈ editor.history, ∀ c ∈ line,
    isPrintable c := fun line hline ↦
  h.entered line (List.mem_of_mem_filter (mem_of_mem_recent hline))

theorem Printable.recallLine (h : Printable editor) (current : ℕ) :
    Printable (editor.recallLine current) where
  text c hc := by
    rw [Editor.text, Editor.recallLine, Cursor.ofText_text, List.getD_eq_getElem?_getD] at hc
    cases hline : editor.history[current]? with
    | none =>
      rw [hline] at hc
      cases hc
    | some line =>
      rw [hline] at hc
      exact h.history line (List.mem_of_getElem? hline) c hc
  entered := h.entered

theorem Printable.withCursor (h : Printable editor) {cursor : Cursor UInt8}
    (htext : ∀ c ∈ cursor.text, isPrintable c) : Printable { editor with cursor } :=
  ⟨htext, h.entered⟩

theorem Printable.enter (h : Printable editor) : Printable editor.enter where
  text := List.forall_mem_nil _
  entered line hline := by
    rcases List.mem_append.mp hline with hline | hline
    · exact h.entered line hline
    · rw [List.mem_singleton.mp hline]
      exact h.text

/-- A completed line can be shown. -/
theorem Printable.complete (h : Printable editor) (hworld : Legible table world) :
    ∀ c ∈ completeLine table world.completePath editor.text, isPrintable c :=
  completeLine_chars hworld.names (hworld.added _) h.text

/-- What a key leaves can be shown. -/
theorem Printable.press (h : Printable editor) (hworld : Legible table world) {key : Key}
    (hkey : Typed key) : Printable (editor.press table world key) := by
  cases key with
  | up =>
    rw [Editor.press, Editor.browse]
    cases editor.upPlace with
    | none => exact h
    | some place => exact h.recallLine place
  | down =>
    rw [Editor.press, Editor.browse]
    cases editor.downPlace with
    | none => exact h
    | some place => exact h.recallLine place
  | left =>
    refine h.withCursor ?_
    rw [Cursor.left_text]
    exact h.text
  | right =>
    refine h.withCursor ?_
    rw [Cursor.right_text]
    exact h.text
  | char ch =>
    rw [Editor.press]
    split_ifs with htab hback hend
    · refine h.withCursor ?_
      rw [Cursor.ofText_text]
      exact h.complete hworld
    · refine h.withCursor fun c hc ↦ h.text c ?_
      rcases List.mem_append.mp hc with hc | hc
      · exact List.mem_append_left _ (List.dropLast_sublist _ |>.mem hc)
      · exact List.mem_append_right _ hc
    · exact h.enter
    · have hch : isPrintable ch := by
        rcases hkey with hkey | hkey | hkey | hkey
        · exact absurd hkey htab
        · exact absurd hkey hback
        · exact absurd hkey hend
        · exact hkey
      refine h.withCursor fun c hc ↦ ?_
      rcases List.mem_append.mp hc with hc | hc
      · rcases List.mem_append.mp hc with hc | hc
        · exact h.text c (List.mem_append_left _ hc)
        · rw [List.mem_singleton.mp hc]
          exact hch
      · exact h.text c (List.mem_append_right _ hc)

/-! ## The row after a key -/

section Rows

variable {Screen : Type*} {terminal : CharTerminal Screen} {screen : Screen}

/-- The row in terms of the parts of the line. -/
theorem showsLine_iff : ShowsLine terminal screen margin editor ↔
    terminal.Shows screen (margin ++ mshPrompt ++ editor.cursor.before ++ editor.cursor.after)
      (margin ++ mshPrompt ++ editor.cursor.before).length := by
  rw [ShowsLine, Editor.text, Cursor.text, List.append_assoc (margin ++ mshPrompt),
    @List.length_append _ _ editor.cursor.before]

theorem left_displays (hscreen : ShowsLine terminal screen margin editor) :
    ShowsLine terminal
      (terminal.receiveAll screen (backspaces (min 1 editor.cursor.before.length))) margin
      { editor with cursor := editor.cursor.left } := by
  have hlength : editor.cursor.left.before.length = editor.cursor.before.length - 1 :=
    List.length_dropLast
  have hcolumn : (margin ++ mshPrompt).length + editor.cursor.before.length -
      min 1 editor.cursor.before.length =
      (margin ++ mshPrompt).length + editor.cursor.left.before.length := by omega
  have htext : editor.cursor.left.text = editor.cursor.text := Cursor.left_text
  have hback := CharTerminal.Shows.backspaces hscreen (min 1 editor.cursor.before.length)
  rw [hcolumn] at hback
  rwa [ShowsLine, Editor.text, htext]

theorem right_displays (h : Printable editor) (hscreen : ShowsLine terminal screen margin editor) :
    ShowsLine terminal (terminal.receiveAll screen editor.cursor.after.head?.toList) margin
      { editor with cursor := editor.cursor.right } := by
  rw [showsLine_iff] at hscreen ⊢
  rw [Cursor.right]
  cases hafter : editor.cursor.after with
  | nil =>
    rw [hafter] at hscreen
    simpa using hscreen
  | cons c rest =>
    rw [hafter] at hscreen
    have hc : isPrintable c := by
      apply h.text
      rw [Editor.text, Cursor.text, hafter]
      simp
    have hover := terminal.overwrite hc hscreen
    rw [List.head?_cons, Option.toList_some, CharTerminal.receiveAll_cons,
      CharTerminal.receiveAll_nil]
    simpa [Nat.add_assoc] using hover

theorem insert_displays (h : Printable editor) {ch : UInt8} (hch : isPrintable ch)
    (hscreen : ShowsLine terminal screen margin editor) :
    ShowsLine terminal
      (terminal.receiveAll screen
        (ch :: editor.cursor.after ++ backspaces editor.cursor.after.length)) margin
      { editor with cursor := editor.cursor.insert ch } := by
  have hsent : ∀ c ∈ ch :: editor.cursor.after, isPrintable c := by
    refine List.forall_mem_cons.mpr ⟨hch, fun c hc ↦ h.text c ?_⟩
    exact List.mem_append_right _ hc
  rw [showsLine_iff] at hscreen ⊢
  -- the characters behind the cursor and one blank are overwritten
  have hblank := terminal.shows_blank.mpr hscreen
  rw [List.append_assoc _ editor.cursor.after, ← List.append_nil (editor.cursor.after ++ _),
    ← List.append_assoc] at hblank
  have hover := CharTerminal.Shows.overwrite hblank (by simp) hsent
  have hback := CharTerminal.Shows.backspaces hover editor.cursor.after.length
  have hcolumn : (margin ++ mshPrompt ++ editor.cursor.before ++
      ch :: editor.cursor.after).length - editor.cursor.after.length =
      (margin ++ mshPrompt ++ (editor.cursor.before ++ [ch])).length := by
    simp only [List.length_append, List.length_cons, List.length_nil]
    omega
  rw [hcolumn] at hback
  rw [CharTerminal.receiveAll_append, Cursor.insert, Shell.backspaces]
  simpa using hback

/-- A backspace behind a character. -/
theorem back_displays {front : Text} {last : UInt8} (hbefore : editor.cursor.before = front ++ [last])
    (hscreen : ShowsLine terminal screen margin editor) :
    terminal.Shows (terminal.receive screen 0x08)
      (margin ++ mshPrompt ++ front ++ (last :: editor.cursor.after))
      (margin ++ mshPrompt ++ front).length := by
  rw [showsLine_iff, hbefore] at hscreen
  have hback := terminal.backspace hscreen
  have hcolumn : (margin ++ mshPrompt ++ (front ++ [last])).length - 1 =
      (margin ++ mshPrompt ++ front).length := by
    simp only [List.length_append, List.length_singleton]
    omega
  rw [hcolumn] at hback
  simpa using hback

theorem delete_displays (h : Printable editor)
    (hscreen : ShowsLine terminal screen margin editor) :
    ShowsLine terminal (terminal.receiveAll screen (deleteOutput editor.cursor)) margin
      { editor with cursor := editor.cursor.delete } := by
  rw [deleteOutput]
  rcases List.eq_nil_or_concat' editor.cursor.before with hnil | ⟨front, last, hbefore⟩
  · have hsame : editor.cursor.delete = editor.cursor := by
      rw [Cursor.delete, hnil]
      exact Cursor.mk.injEq .. ▸ ⟨hnil.symm, rfl⟩
    rw [if_pos hnil, hsame]
    exact hscreen
  have hne : editor.cursor.before ≠ [] := by
    rw [hbefore]
    simp
  have hdelete : editor.cursor.delete.before = front := by
    rw [Cursor.delete, hbefore, List.dropLast_concat]
  have hback := back_displays hbefore hscreen
  have hafterDelete : editor.cursor.delete.after = editor.cursor.after := rfl
  rw [if_neg hne, showsLine_iff, hdelete, hafterDelete]
  cases hafter : editor.cursor.after with
  | nil =>
    rw [hafter] at hback
    have hblank : isPrintable 0x20 := rfl
    have hlast := terminal.backspace (terminal.overwrite hblank hback)
    rw [Nat.add_sub_cancel] at hlast
    rw [if_pos rfl, List.append_nil]
    exact terminal.shows_blank.mp hlast
  | cons c rest =>
    rw [hafter] at hback
    have hsent : ∀ d ∈ c :: rest ++ [0x20, 0x20], isPrintable d := by
      have hblanks : ∀ d ∈ ([0x20, 0x20] : Text), isPrintable d := List.all_eq_true.mp (by decide)
      refine List.forall_mem_append.mpr ⟨fun d hd ↦ h.text d ?_, hblanks⟩
      rw [Editor.text, Cursor.text, hafter]
      exact List.mem_append_right _ hd
    -- the character that is deleted, those behind it and one blank are overwritten
    have hold := terminal.shows_blank.mpr hback
    rw [List.append_assoc _ (last :: c :: rest), ← List.append_nil (last :: c :: rest ++ _),
      ← List.append_assoc] at hold
    have hover := CharTerminal.Shows.overwrite hold (by simp) hsent
    have hblanks : margin ++ mshPrompt ++ front ++ (c :: rest ++ [0x20, 0x20]) ++ [] =
        margin ++ mshPrompt ++ front ++ c :: rest ++ [blank] ++ [blank] := by
      simp [blank]
    have hsplit : 0x08 :: (c :: rest) ++ [0x20, 0x20, 0x08] ++ backspaces ((c :: rest).length + 1) =
        0x08 :: ((c :: rest ++ [0x20, 0x20]) ++ List.replicate ((c :: rest).length + 2) 0x08) := by
      simp [backspaces, List.replicate_succ]
    have hcolumn : (margin ++ mshPrompt ++ front ++ (c :: rest ++ [0x20, 0x20])).length -
        ((c :: rest).length + 2) = (margin ++ mshPrompt ++ front).length := by
      simp only [List.length_append, List.length_cons, List.length_nil]
      omega
    rw [hblanks, terminal.shows_blank, terminal.shows_blank] at hover
    have hlast := CharTerminal.Shows.backspaces hover ((c :: rest).length + 2)
    rw [hcolumn] at hlast
    rwa [if_neg (List.cons_ne_nil _ _), hsplit, CharTerminal.receiveAll_cons,
      CharTerminal.receiveAll_append]

/-- The prompt and a text that are sent to an empty place behind some text. -/
theorem prompt_displays {front text : Text} (hscreen : terminal.Shows screen front front.length)
    (htext : ∀ c ∈ text, isPrintable c) :
    terminal.Shows (terminal.receiveAll screen (mshPrompt ++ text)) (front ++ mshPrompt ++ text)
      ((front ++ mshPrompt).length + text.length) := by
  have hend := CharTerminal.Shows.write_end hscreen
    (List.forall_mem_append.mpr ⟨mshPrompt_printable, htext⟩)
  rwa [← List.append_assoc, @List.length_append _ (front ++ mshPrompt)] at hend

theorem showsLine_ofText {text : Text} (h : editor.cursor = .ofText text) :
    ShowsLine terminal screen margin editor ↔ terminal.Shows screen (margin ++ mshPrompt ++ text)
      ((margin ++ mshPrompt).length + text.length) := by
  rw [ShowsLine, Editor.text, h, Cursor.ofText_text]
  rfl

theorem browse_displays (h : Printable editor) (place : Option ℕ)
    (hscreen : ShowsLine terminal screen margin editor) :
    ∃ last, ShowsLine terminal (terminal.receiveAll screen (browseOutput editor place)) last
      (editor.browse place) := by
  cases place with
  | none => exact ⟨margin, hscreen⟩
  | some current =>
    have hempty : terminal.Shows (terminal.receiveAll screen eraseLine) [] ([] : Text).length :=
      terminal.erase hscreen
    have hcursor : (editor.recallLine current).cursor = .ofText (editor.recallLine current).text := by
      rw [Editor.text, Editor.recallLine, Cursor.ofText_text]
    refine ⟨[], ?_⟩
    rw [browseOutput, Option.elim_some, CharTerminal.receiveAll_append]
    exact (showsLine_ofText hcursor).mpr (prompt_displays hempty (h.recallLine current).text)

/-- A feed and what is printed leave the cursor behind the last characters. -/
theorem feed_displays {text printed : Text} {column : ℕ}
    (hscreen : terminal.Shows screen text column) (hprinted : ∀ c ∈ printed, isPlain c) :
    ∃ last, terminal.Shows (terminal.receiveAll screen ([0x0a] ++ printed)) last last.length := by
  have hempty : terminal.Shows (terminal.receive screen 0x0a) [] ([] : Text).length :=
    terminal.feed hscreen
  rw [CharTerminal.receiveAll_append]
  exact CharTerminal.Shows.write_plain hempty fun c hc ↦ printable_of_plain (hprinted c hc)

theorem tab_displays (h : Printable editor) (hworld : Legible table world) {printed : Text}
    (hprinted : ∀ c ∈ printed, isPlain c) (hscreen : ShowsLine terminal screen margin editor) :
    ∃ last, ShowsLine terminal
      (terminal.receiveAll screen (backspaces editor.cursor.before.length ++ [0x0a] ++ printed ++
        (mshPrompt ++ completeLine table world.completePath editor.text))) last
      { editor with cursor := .ofText (completeLine table world.completePath editor.text) } := by
  have hback := CharTerminal.Shows.backspaces hscreen editor.cursor.before.length
  obtain ⟨last, hlast⟩ := feed_displays hback hprinted
  refine ⟨last, ?_⟩
  rw [List.append_assoc (backspaces _), List.append_assoc (backspaces _),
    CharTerminal.receiveAll_append, CharTerminal.receiveAll_append]
  exact (showsLine_ofText rfl).mpr (prompt_displays hlast (h.complete hworld))

theorem enter_displays {printed : Text} (hprinted : ∀ c ∈ printed, isPlain c)
    (hscreen : ShowsLine terminal screen margin editor) :
    ∃ last, ShowsLine terminal (terminal.receiveAll screen ([0x0a] ++ printed ++ mshPrompt)) last
      editor.enter := by
  obtain ⟨last, hlast⟩ := feed_displays hscreen hprinted
  have hprompt := prompt_displays hlast (List.forall_mem_nil _)
  rw [List.append_nil] at hprompt
  refine ⟨last, ?_⟩
  rw [CharTerminal.receiveAll_append]
  exact (showsLine_ofText rfl).mpr hprompt

/-- **One key.** What is sent for a key makes the row show what the key makes of the line. -/
theorem press_displays (h : Printable editor) (hworld : Legible table world) {key : Key}
    (hkey : Typed key) {printed : Text} (hprinted : ∀ c ∈ printed, isPlain c)
    (hscreen : ShowsLine terminal screen margin editor) :
    ∃ last, ShowsLine terminal
      (terminal.receiveAll screen (keyOutput table world editor printed key)) last
      (editor.press table world key) := by
  cases key with
  | up => exact browse_displays h editor.upPlace hscreen
  | down => exact browse_displays h editor.downPlace hscreen
  | left => exact ⟨margin, left_displays hscreen⟩
  | right => exact ⟨margin, right_displays h hscreen⟩
  | char ch =>
    rw [keyOutput, Editor.press]
    by_cases htab : ch = 0x09
    · rw [if_pos htab, if_pos htab]
      exact tab_displays h hworld hprinted hscreen
    rw [if_neg htab, if_neg htab]
    by_cases hback : ch = 0x7f ∨ ch = 0x08
    · rw [if_pos hback, if_pos hback]
      exact ⟨margin, delete_displays h hscreen⟩
    rw [if_neg hback, if_neg hback]
    by_cases hend : ch = 0x0d ∨ ch = 0x0a
    · rw [if_pos hend, if_pos hend]
      exact enter_displays hprinted hscreen
    rw [if_neg hend, if_neg hend]
    have hch : isPrintable ch := by
      rw [Typed] at hkey
      tauto
    exact ⟨margin, insert_displays h hch hscreen⟩

end Rows

/-! ## Whole inputs -/

/-- Every key of an input is typed, and what it meets outside of the shell is legible. -/
def TypedAll (table : List FinshSyscall) (editor : Editor) : List (UInt8 × World) → Prop
  | [] => True
  | input :: inputs =>
      Legible table input.2 ∧ (∀ key ∈ (finshInput editor.stat input.1).2, Typed key) ∧
        TypedAll table (editor.read table input) inputs

section Screens

variable {Screen : Type*} {terminal : CharTerminal Screen} {start : Screen}

/-- The screen, which was empty at the start, shows the line of the editor. -/
structure Screens (terminal : CharTerminal Screen) (start : Screen) (table : List FinshSyscall)
    (session : Session) (editor : Editor) : Prop where
  tracks : Tracks table session editor
  printable : Printable editor
  screen : ∃ margin,
    ShowsLine terminal (terminal.receiveAll start session.console) margin editor

theorem Printable.read (h : Printable editor) {input : UInt8 × World}
    (hworld : Legible table input.2) (htyped : ∀ key ∈ (finshInput editor.stat input.1).2, Typed key) :
    Printable (editor.read table input) := by
  rw [Editor.read]
  cases hinput : finshInput editor.stat input.1 with
  | mk stat decoded =>
    rw [hinput] at htyped
    have hstat : Printable { editor with stat } := ⟨h.text, h.entered⟩
    cases decoded with
    | none => exact hstat
    | some key => exact hstat.press hworld (htyped key rfl)

theorem read_displays (h : Printable editor) {input : UInt8 × World} (hworld : Legible table input.2)
    (htyped : ∀ key ∈ (finshInput editor.stat input.1).2, Typed key) {printed : Text}
    (hprinted : ∀ c ∈ printed, isPlain c) {screen : Screen}
    (hscreen : ShowsLine terminal screen margin editor) :
    ∃ last, ShowsLine terminal
      (terminal.receiveAll screen (readOutput table input.2 editor printed input.1)) last
      (editor.read table input) := by
  rw [readOutput, Editor.read]
  cases hinput : finshInput editor.stat input.1 with
  | mk stat decoded =>
    rw [hinput] at htyped
    have hstat : Printable { editor with stat } := ⟨h.text, h.entered⟩
    cases decoded with
    | none => exact ⟨margin, hscreen⟩
    | some key => exact press_displays hstat hworld (htyped key rfl) hprinted hscreen

/-- **One byte.** -/
theorem finshByte_screens {session : Session} {input : UInt8 × World}
    (h : Screens terminal start table session editor) (hworld : Legible table input.2)
    (hfits : ∀ key ∈ (finshInput editor.stat input.1).2, editor.Fits table input.2 key)
    (htyped : ∀ key ∈ (finshInput editor.stat input.1).2, Typed key) :
    ∃ next, finshByte table session input = .ok next ∧
      Screens terminal start table next (editor.read table input) := by
  obtain ⟨margin, hscreen⟩ := h.screen
  obtain ⟨next, printed, hnext, htracks, hprinted, hconsole⟩ := finshByte_tracks h.tracks
    hworld.covers (fun c hc ↦ plain_of_printable (h.printable.text c hc)) hfits
  obtain ⟨last, hlast⟩ := read_displays h.printable hworld htyped hprinted hscreen
  refine ⟨next, hnext, htracks, h.printable.read hworld htyped, last, ?_⟩
  rwa [hconsole, CharTerminal.receiveAll_append]

theorem Screens.run {session : Session} (inputs : List (UInt8 × World))
    (h : Screens terminal start table session editor) (hfits : editor.FitsAll table inputs)
    (htyped : TypedAll table editor inputs) :
    ∃ last, (finshSystem table).Run session inputs last ∧
      Screens terminal start table last (editor.readAll table inputs) := by
  induction inputs generalizing session editor with
  | nil => exact ⟨session, .nil session, h⟩
  | cons input inputs ih =>
    obtain ⟨hfirst, hrest⟩ := hfits
    obtain ⟨hworld, hkey, hothers⟩ := htyped
    obtain ⟨next, hnext, hscreens⟩ := finshByte_screens h hworld hfirst hkey
    obtain ⟨last, hrun, hlast⟩ := ih hscreens hrest hothers
    exact ⟨last, .cons trivial hnext hrun, hlast⟩

end Screens

end K210Firmware.Shell
