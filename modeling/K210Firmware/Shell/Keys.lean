import K210Firmware.Shell.Editor

/-!
# The keys of the line

Every key takes a shell that shows an editor to one that shows the editor after the key, and what it
prints depends on the editor only.
-/

namespace K210Firmware.Shell

open Memory CString Terminal.Keyboard LineEdit

variable {shell : FinshShell} {editor : Editor}

/-! ## The keys that change the line -/

/-- What is shown behind the cursor fits into one print. -/
theorem rtKprintf_short {string : Text} (h : string.length < finshCmdSize + 4) :
    rtKprintf string = string := by
  rw [finshCmdSize] at h
  exact rtKprintf_eq (by rw [rtConsolebufSize]; omega)

section Storage

variable {text front back : Text} {line : Block UInt8} {ch : UInt8}

/-- A character is stored behind the text. -/
theorem store_behind (h : Padded finshCmdSize text line) (hfits : text.length + 1 < finshCmdSize) :
    ∃ next, line.write text.length ch = .ok next ∧ Padded finshCmdSize (text ++ [ch]) next := by
  obtain ⟨next, hnext, hpadded⟩ := h.write (c := ch) le_rfl hfits
  refine ⟨next, hnext, ?_⟩
  rwa [List.take_length, List.drop_eq_nil_of_le (Nat.le_succ _)] at hpadded

/-- The end of the text moves up by one, and the character takes the place in front of it. -/
theorem store_inside (h : Padded finshCmdSize (front ++ back) line) (hne : back ≠ [])
    (hfits : (front ++ back).length + 1 < finshCmdSize) (hnul : 0 ∉ front ++ ch :: back) :
    ∃ moved next, line.load front.length back.length = .ok back ∧
      line.store (front.length + 1 : ℕ) back = .ok moved ∧
      moved.write front.length ch = .ok next ∧ Padded finshCmdSize (front ++ ch :: back) next ∧
      cString next front.length = .ok (ch :: back) := by
  rw [List.length_append] at hfits
  have hload := h.load_inside (k := front.length) List.length_append.ge
  rw [List.drop_left, List.take_length] at hload
  have hroom : front.length + 1 + back.length < finshCmdSize := by omega
  have hpos := List.length_pos_of_ne_nil hne
  have hmoved := h.overlay (k := front.length + 1) (by rw [List.length_append]; omega) hroom
  obtain ⟨first, rest, rfl⟩ := List.exists_cons_of_ne_nil hne
  have htext : (front ++ first :: rest).take (front.length + 1) ++ first :: rest ++
      (front ++ first :: rest).drop (front.length + 1 + (first :: rest).length) =
      front ++ first :: first :: rest := by
    rw [List.drop_eq_nil_of_le (by rw [List.length_append]; omega), List.append_nil,
      List.take_length_add_append]
    simp
  rw [htext] at hmoved
  obtain ⟨next, hnext, hpadded⟩ := hmoved.replace (c := ch)
  have hstring := hpadded.cString (k := front.length) (by simp)
  have hrest : 0 ∉ ch :: first :: rest := by
    rw [List.mem_append, not_or] at hnul
    exact hnul.2
  rw [List.drop_left, takeWhile_ne_zero hrest] at hstring
  exact ⟨_, next, hload, h.store hroom, hnext, hpadded, hstring⟩

/-- The last character of the text is cut off. -/
theorem cut_behind (h : Padded finshCmdSize (front ++ [ch]) line) :
    ∃ next, line.write front.length 0 = .ok next ∧ Padded finshCmdSize front next := by
  obtain ⟨next, hnext, hpadded⟩ := h.write_last (k := front.length) List.length_append
  refine ⟨next, hnext, ?_⟩
  rwa [List.take_left] at hpadded

/-- The end of the text moves down by one, over the character in front of it. -/
theorem cut_inside (h : Padded finshCmdSize (front ++ ch :: back) line) (hnul : 0 ∉ front ++ back) :
    ∃ moved next, line.load (front.length + 1 : ℕ) back.length = .ok back ∧
      line.store front.length back = .ok moved ∧
      moved.write (front.length + back.length : ℕ) 0 = .ok next ∧
      Padded finshCmdSize (front ++ back) next ∧ cString next front.length = .ok back := by
  have hlength : (front ++ ch :: back).length = front.length + 1 + back.length := by
    rw [List.length_append, List.length_cons]
    omega
  have hfits := h.fits
  have hload := h.load_inside (k := front.length + 1) hlength.ge
  have hrest : (front ++ ch :: back).drop (front.length + 1) = back := by simp
  rw [hrest, List.take_length] at hload
  have hroom : front.length + back.length < finshCmdSize := by omega
  have hmoved := h.overlay (k := front.length) (by omega) hroom
  rw [List.take_left] at hmoved
  obtain ⟨next, hnext, hpadded⟩ := hmoved.write_last (k := front.length + back.length) (by
    rw [List.length_append, List.length_drop, List.length_append, hlength]
    omega)
  rw [← List.length_append, List.take_left] at hpadded
  have hstring := hpadded.cString (k := front.length) (by simp)
  have hback : 0 ∉ back := fun hmem ↦ hnul (List.mem_append_right _ hmem)
  rw [List.drop_left, takeWhile_ne_zero hback] at hstring
  exact ⟨_, next, hload, h.store hroom, hnext, hpadded, hstring⟩

end Storage

theorem normalKey_shows (h : Shows shell editor) {ch : UInt8} (hch : ch ≠ 0)
    (hfits : editor.text.length + 1 < finshCmdSize) :
    ∃ next, normalKey shell ch = .ok (next,
        ch :: editor.cursor.after ++ backspaces editor.cursor.after.length) ∧
      Shows next { editor with cursor := editor.cursor.insert ch } := by
  have hlength : editor.text.length =
      editor.cursor.before.length + editor.cursor.after.length := List.length_append
  have hinsert : (editor.cursor.insert ch).text =
      editor.cursor.before ++ ch :: editor.cursor.after := by
    rw [Cursor.text, Cursor.insert, List.append_assoc]
    rfl
  have hnul : 0 ∉ (editor.cursor.insert ch).text := by
    have hold := h.no_nul
    rw [hinsert]
    simp only [Editor.text, Cursor.text, List.mem_append, List.mem_cons] at hold ⊢
    tauto
  have hbefore : (editor.cursor.insert ch).before.length = editor.cursor.before.length + 1 :=
    List.length_append
  have htotal : (editor.cursor.insert ch).text.length = editor.text.length + 1 := by
    rw [Cursor.text, List.length_append, hbefore, hlength]
    exact Nat.add_right_comm ..
  have hcurpos : inc16 shell.lineCurpos = (editor.cursor.insert ch).before.length := by
    rw [h.curpos, inc16_eq h.before_lt.le, hbefore]
  have hposition : inc16 shell.linePosition = (editor.cursor.insert ch).text.length := by
    rw [h.position, inc16_eq h.length_lt.le, htotal]
  have hroom : ¬finshCmdSize ≤ shell.linePosition := by
    rw [h.position]
    omega
  have hstays : ¬finshCmdSize ≤ inc16 shell.linePosition := by
    rw [hposition, htotal]
    omega
  rw [normalKey, if_neg hroom]
  simp only
  by_cases hafter : editor.cursor.after = []
  · have hend : editor.text = editor.cursor.before := by
      rw [Editor.text, Cursor.text, hafter, List.append_nil]
    obtain ⟨next, hnext, hpadded⟩ := @store_behind _ _ ch h.line hfits
    have htext : editor.text ++ [ch] = (editor.cursor.insert ch).text := by
      rw [hend, hinsert, hafter]
    rw [htext] at hpadded
    rw [← h.position] at hnext
    rw [hafter, List.length_nil] at hlength
    rw [if_neg (by rw [h.curpos, h.position]; omega), if_pos h.echo, hnext]
    simp only [ok_bind, pure_bind]
    rw [if_neg hstays, hafter]
    exact ⟨_, rfl, h.edit _ hpadded hnul hposition hcurpos⟩
  · have hcount : shell.linePosition - shell.lineCurpos = editor.cursor.after.length := by
      rw [h.curpos, h.position]
      omega
    have hpos := List.length_pos_of_ne_nil hafter
    obtain ⟨moved, next, hload, hstore, hnext, hpadded, hstring⟩ :=
      store_inside h.line hafter hfits (hinsert ▸ hnul)
    rw [← hinsert] at hpadded
    have hshort : rtKprintf (ch :: editor.cursor.after) = ch :: editor.cursor.after := by
      apply rtKprintf_short
      rw [List.length_cons]
      omega
    rw [← h.curpos] at hload hstore hnext hstring
    rw [if_pos (by rw [h.curpos, h.position]; omega), hcount, hload, ok_bind, hstore, ok_bind, hnext,
      ok_bind, if_pos h.echo, hstring]
    simp only [ok_bind, pure_bind]
    rw [if_neg hstays, hshort]
    exact ⟨_, rfl, h.edit _ hpadded hnul hposition hcurpos⟩

/-- What is printed for the deletion of the character in front of the cursor. -/
def deleteOutput (cursor : Cursor UInt8) : Text :=
  if cursor.before = [] then []
  else if cursor.after = [] then [0x08, 0x20, 0x08]
  else 0x08 :: cursor.after ++ [0x20, 0x20, 0x08] ++ backspaces (cursor.after.length + 1)

theorem backspaceKey_shows (h : Shows shell editor) :
    ∃ next, backspaceKey shell = .ok (next, deleteOutput editor.cursor) ∧
      Shows next { editor with cursor := editor.cursor.delete } := by
  have hlength : editor.text.length =
      editor.cursor.before.length + editor.cursor.after.length := List.length_append
  rw [backspaceKey, deleteOutput]
  rcases List.eq_nil_or_concat' editor.cursor.before with hnil | ⟨front, last, hbefore⟩
  · have hsame : editor.cursor.delete = editor.cursor := by
      rw [Cursor.delete, hnil]
      exact Cursor.mk.injEq .. ▸ ⟨hnil.symm, rfl⟩
    rw [if_pos (by rw [h.curpos, hnil]; rfl), if_pos hnil, hsame]
    exact ⟨shell, rfl, h⟩
  have hne : editor.cursor.before ≠ [] := by
    rw [hbefore]
    simp
  have hsplit : editor.text = front ++ last :: editor.cursor.after := by
    rw [Editor.text, Cursor.text, hbefore, List.append_assoc]
    rfl
  have hdelete : editor.cursor.delete.text = front ++ editor.cursor.after := by
    rw [Cursor.text, Cursor.delete, hbefore]
    simp
  have hnul : 0 ∉ editor.cursor.delete.text := by
    have hold := h.no_nul
    rw [hsplit] at hold
    rw [hdelete]
    simp only [List.mem_append, List.mem_cons] at hold ⊢
    tauto
  have hfront : editor.cursor.before.length = front.length + 1 := by
    rw [hbefore, List.length_append]
    rfl
  have hcurpos : dec16 shell.lineCurpos = front.length := by
    rw [h.curpos, dec16_eq (by omega) h.before_lt.le, hfront, Nat.add_sub_cancel]
  have hposition : dec16 shell.linePosition = front.length + editor.cursor.after.length := by
    rw [h.position, dec16_eq (by omega) h.length_lt.le]
    omega
  have hnewCurpos : front.length = editor.cursor.delete.before.length := by
    rw [Cursor.delete, List.length_dropLast, hfront, Nat.add_sub_cancel]
  have hnewPosition : front.length + editor.cursor.after.length =
      editor.cursor.delete.text.length := by
    rw [hdelete, List.length_append]
  rw [if_neg (by rw [h.curpos]; omega), if_neg hne]
  simp only [hcurpos, hposition]
  have hline := h.line
  rw [hsplit] at hline
  by_cases hafter : editor.cursor.after = []
  · rw [hafter] at hline
    obtain ⟨next, hnext, hpadded⟩ := cut_behind hline
    rw [← List.append_nil front, ← hafter, ← hdelete] at hpadded
    rw [if_neg (by simp [hafter]), if_pos hafter, hafter, List.length_nil, Nat.add_zero, hnext]
    refine ⟨_, rfl, h.edit _ hpadded hnul ?_ hnewCurpos⟩
    rw [← hnewPosition, hafter]
    rfl
  · obtain ⟨moved, next, hload, hstore, hnext, hpadded, hstring⟩ := cut_inside hline (hdelete ▸ hnul)
    rw [← hdelete] at hpadded
    have hpos := List.length_pos_of_ne_nil hafter
    have hshort : rtKprintf (0x08 :: editor.cursor.after ++ [0x20, 0x20, 0x08]) =
        0x08 :: editor.cursor.after ++ [0x20, 0x20, 0x08] := by
      have hfits := h.length_lt
      apply rtKprintf_short
      rw [List.length_append, List.length_cons]
      simp only [List.length_cons, List.length_nil]
      omega
    have hbacks : front.length + editor.cursor.after.length + 1 - front.length =
        editor.cursor.after.length + 1 := by omega
    rw [if_pos (by omega), if_neg hafter, Nat.add_sub_cancel_left, hload, ok_bind, hstore, ok_bind,
      hnext, ok_bind, hstring, ok_bind, hshort, hbacks]
    exact ⟨_, rfl, h.edit _ hpadded hnul hnewPosition hnewCurpos⟩

/-! ## Lines from elsewhere -/

/-- The prompt and a line fit into one print. -/
theorem rtKprintf_prompt {text : Text} (h : text.length < finshCmdSize) :
    rtKprintf (mshPrompt ++ text) = mshPrompt ++ text := by
  rw [finshCmdSize] at h
  apply rtKprintf_eq
  rw [List.length_append, mshPrompt, rtConsolebufSize]
  simp only [List.length_cons, List.length_nil]
  omega

theorem length_mod {text : Text} (h : text.length < finshCmdSize) :
    text.length % 2 ^ 16 = text.length := by
  rw [finshCmdSize] at h
  exact Nat.mod_eq_of_lt (by omega)

/-- What is printed when a line of the history takes the place of the line. -/
def browseOutput (editor : Editor) (place : Option ℕ) : Text :=
  place.elim [] fun current ↦ eraseLine ++ (mshPrompt ++ (editor.recallLine current).text)

theorem copyHistory_shows (h : Shows shell editor) {current : ℕ}
    (hcurrent : current < editor.history.length) :
    ∃ next, copyHistory { shell with currentHistory := current } = .ok (next,
        browseOutput editor (some current)) ∧
      Shows next (editor.recallLine current) := by
  have hbound : current < finshHistoryLines := hcurrent.trans_le (length_recent_le _ _)
  have hrow := h.rows.padded current hbound
  have htext : (editor.recallLine current).text = editor.history[current] := by
    rw [Editor.text, Editor.recallLine, Cursor.ofText_text]
    simp [hcurrent]
  rw [rowsOf, List.getElem?_eq_getElem hcurrent, Option.getD_some, ← htext] at hrow
  have hnul : 0 ∉ (editor.recallLine current).text := by
    rw [htext]
    exact h.rows_no_nul _ (List.getElem_mem hcurrent)
  have hread : shell.cmdHistory.read current = .ok (shell.cmdHistory.cell current) :=
    Block.read_eq_ok (by omega) (by rw [h.rows.size]; omega)
  obtain ⟨bytes, next, hload, hstore, hpadded⟩ := h.line.copy hrow
  have hstring := hpadded.cString (k := 0) (Nat.zero_le _)
  rw [List.drop_zero, takeWhile_ne_zero hnul, Int.natCast_zero] at hstring
  have hlength := length_mod hpadded.fits
  have hprint := rtKprintf_prompt hpadded.fits
  have hnew := (h.browse hcurrent.le).edit (editor.recallLine current).cursor hpadded hnul hlength
    (hlength.trans (congrArg List.length (Cursor.ofText_text _)))
  rw [copyHistory]
  simp only
  rw [hread, ok_bind, hload, ok_bind, hstore, ok_bind, hstring, ok_bind, shellHandleHistory]
  simp only
  rw [hstring, ok_bind, hnew.prompt, hprint]
  exact ⟨_, rfl, hnew⟩

theorem upKey_shows (h : Shows shell editor) :
    ∃ next, upKey shell = .ok (next, browseOutput editor editor.upPlace) ∧
      Shows next (editor.browse editor.upPlace) := by
  have hle := h.current_le
  rw [upKey, Editor.upPlace]
  by_cases hpos : 0 < editor.current
  · rw [if_pos (by rwa [h.current]), if_pos hpos, h.current]
    exact copyHistory_shows h (by omega)
  · have hzero : shell.currentHistory = 0 := by
      rw [h.current]
      omega
    have hsame : { shell with currentHistory := 0 } = shell := by rw [← hzero]
    rw [if_neg (by rwa [h.current]), if_neg hpos, hsame]
    exact ⟨shell, rfl, h⟩

theorem downKey_shows (h : Shows shell editor) :
    ∃ next, downKey shell = .ok (next, browseOutput editor editor.downPlace) ∧
      Shows next (editor.browse editor.downPlace) := by
  have hle := h.current_le
  have hlimit : editor.history.length ≤ finshHistoryLines := length_recent_le _ _
  rw [finshHistoryLines] at hlimit
  rw [downKey, Editor.downPlace]
  by_cases hnext : editor.current + 1 < editor.history.length
  · have hinc : inc16 shell.currentHistory = editor.current + 1 := by
      rw [h.current, inc16_eq (by rw [finshCmdSize]; omega)]
    rw [if_pos (by rw [h.current, h.count]; omega), if_pos hnext, hinc]
    exact copyHistory_shows h hnext
  · rw [if_neg (by rw [h.current, h.count]; omega), if_neg hnext]
    by_cases hempty : editor.history = []
    · rw [if_neg (by rw [h.count, hempty]; simp), if_neg (not_not.mpr hempty)]
      exact ⟨shell, rfl, h⟩
    · have hpos := List.length_pos_of_ne_nil hempty
      have hlast : shell.historyCount - 1 = editor.history.length - 1 := by rw [h.count]
      have hbound : editor.history.length - 1 < editor.history.length := by omega
      rw [if_pos (by rw [h.count]; omega), if_pos hempty, hlast]
      exact copyHistory_shows h hbound

/-- The tab key; what the completion prints has every property of the characters that the texts it
is made of have. -/
theorem tabKey_shows (h : Shows shell editor) {table : List FinshSyscall} {world : World}
    {Prints : UInt8 → Prop} (hplain : ∀ c, isPlain c → Prints c)
    (htable : ∀ call ∈ table, ∀ c ∈ call.name ++ call.desc, Prints c)
    (hfiles : ∀ path, ∀ c ∈ (world.completePath path).1, Prints c)
    (hpath : (completePathOf world.completePath editor.text).length < finshCmdSize)
    (hfits : (completeLine table world.completePath editor.text).length < finshCmdSize) :
    ∃ next printed, tabKey table world.completePath shell = .ok (next,
        backspaces editor.cursor.before.length ++ [0x0a] ++ printed ++
          (mshPrompt ++ completeLine table world.completePath editor.text)) ∧
      (∀ c ∈ printed, Prints c) ∧
      Shows next { editor with
        cursor := .ofText (completeLine table world.completePath editor.text) } := by
  obtain ⟨line, printed, hcomplete, hpadded, hprinted⟩ := mshAutoComplete_completes hplain htable
    (world.added_no_nul _) (hfiles _) h.line h.no_nul hpath hfits
  set completed := completeLine table world.completePath editor.text with hcompleted
  have hchars : ∀ c ∈ completed, c ≠ 0 := by
    apply completeLine_chars
    · rintro call - c hc rfl
      exact call.name_no_nul hc
    · rintro c hc rfl
      exact world.added_no_nul _ hc
    · rintro c hc rfl
      exact h.no_nul hc
  have hnul : 0 ∉ completed := fun hmem ↦ hchars 0 hmem rfl
  have hstring := hpadded.cString (k := 0) (Nat.zero_le _)
  rw [List.drop_zero, takeWhile_ne_zero hnul, Int.natCast_zero] at hstring
  have hlength := length_mod hfits
  have hnew := h.edit (.ofText completed) (by rwa [Cursor.ofText_text])
    (by rwa [Cursor.ofText_text]) (hlength.trans (congrArg List.length (Cursor.ofText_text _).symm))
    hlength
  have hprint := rtKprintf_prompt hfits
  refine ⟨_, printed, ?_, hprinted, hnew⟩
  rw [tabKey, hcomplete, ok_bind]
  simp only
  rw [hstring, ok_bind, h.prompt, hprint, h.curpos]
  rfl

end K210Firmware.Shell
