import K210Firmware.Library.CommonPrefix
import K210Firmware.Shell.Exec
import Mathlib.Data.List.DropRight

/-!
# Completion

The tab key hands the line to `msh_auto_complete`, which writes what all the commands that begin
like the line have in common over it. Behind a space the path of a file is completed first; what
completes it is a parameter. No length is checked: when the line gets too long, it is left without
a NUL or written beyond its end (`mshAutoComplete_eq`).
-/

namespace K210Firmware.Shell

open Memory CString CommonPrefix

/-! ## The code -/

/-- `struct finsh_syscall` -/
structure FinshSyscall where
  name : Text
  desc : Text
  name_no_nul : 0 ∉ name
  deriving DecidableEq

/-- `"RT-Thread shell commands:\n"` -/
def helpTitle : Text := "RT-Thread shell commands:\n".toList.map fun c ↦ c.toNat.toUInt8

/-- `"%-16s - %s\n"` -/
def helpLine (call : FinshSyscall) : Text :=
  let name := call.name.drop 6
  name ++ List.replicate (16 - name.length) 0x20 ++ [0x20, 0x2d, 0x20] ++ call.desc ++ [0x0a]

/-- What `msh_help` prints. -/
def mshHelp (table : List FinshSyscall) : Text :=
  rtKprintf helpTitle ++
    (table.filter fun call ↦ strncmpEq call.name cmdPrefix 6).flatMap
      (fun call ↦ rtKprintf (helpLine call)) ++
    rtKprintf [0x0a]

def strCommon : Text → Text → ℕ
  | c :: str1, d :: str2 => if c = d then strCommon str1 str2 + 1 else 0
  | _, _ => 0

/-- The local variables of the loop over the commands, with what it prints. -/
structure Completion where
  namePtr : Option Text
  minLength : ℕ
  printed : Text

/-- The loop body. -/
def completeCommand (text : Text) (completion : Completion) (call : FinshSyscall) : Completion :=
  if strncmpEq call.name cmdPrefix 6 then
    let cmdName := call.name.drop 6
    if strncmpEq text cmdName text.length then
      let namePtr := if completion.minLength = 0 then some cmdName else completion.namePtr
      let minLength :=
        if completion.minLength = 0 then cmdName.length else completion.minLength
      let length := strCommon (namePtr.getD []) cmdName
      { namePtr
        minLength := if length < minLength then length else minLength
        printed := completion.printed ++ rtKprintf (cmdName ++ [0x0a]) }
    else completion
  else completion

/-- `rt_strncpy(&block[index], src, n)` -/
def rtStrncpy (block : Block UInt8) (index : ℤ) (src : Text) (n : ℕ) :
    Except Fault (Block UInt8) :=
  block.store index ((src ++ List.replicate n 0).take n)

/-- The loop that looks back for a space, from `&prefix[k]` to the beginning. -/
def lastSpace (line : Block UInt8) : ℕ → Except Fault (Option ℕ)
  | 0 => return none
  | k + 1 => do
      let c ← line.read ((k + 1 : ℕ) : ℤ)
      if c = 0x20 then return some (k + 1) else lastSpace line k

/-- A function that completes the path at an index of the line, with what it prints. -/
abbrev PathCompleter := Block UInt8 → ℕ → Except Fault (Block UInt8 × Text)

/-- The call for a path behind a space. -/
def completeFrom (completeAt : PathCompleter) (line : Block UInt8) :
    Option ℕ → Except Fault (Block UInt8 × Text)
  | none => return (line, [])
  | some k => completeAt line (k + 1)

/-- `msh_auto_complete`: the line afterwards and what was printed. -/
def mshAutoComplete (table : List FinshSyscall) (completeAt : PathCompleter)
    (line : Block UInt8) : Except Fault (Block UInt8 × Text) := do
  let c ← line.read 0
  if c = 0 then return (line, mshHelp table)
  else
    let text ← cString line 0
    let space ← lastSpace line text.length
    let (line, files) ← completeFrom completeAt line space
    let text ← cString line 0
    let completion := table.foldl (completeCommand text) ⟨none, 0, []⟩
    match completion.namePtr with
    | none => return (line, files ++ completion.printed)
    | some name =>
        let line ← rtStrncpy line 0 name completion.minLength
        return (line, files ++ completion.printed)

/-! ## The commands that begin like a text -/

/-- The names of the commands that begin with the text. -/
def candidates (table : List FinshSyscall) (text : Text) : List Text :=
  ((table.map (·.name)).filter fun name ↦ cmdPrefix ++ text <+: name).map (·.drop 6)

/-- The text, completed as far as it begins one command only. -/
def completeText (table : List FinshSyscall) (text : Text) : Text :=
  match candidates table text with
  | [] => text
  | first :: others => commonPrefix first others

theorem strCommon_eq (str1 str2 : Text) : strCommon str1 str2 = (common str1 str2).length := by
  induction str1 generalizing str2 with
  | nil => rfl
  | cons c str1 ih =>
    cases str2 with
    | nil => rfl
    | cons d str2 =>
      rw [strCommon, common]
      split_ifs with hsame
      · rw [ih, List.length_cons]
      · rfl

/-- The state of the loop, when these were the candidates. -/
def Completion.Holds (completion : Completion) : List Text → Prop
  | [] => completion.namePtr = none ∧ completion.minLength = 0
  | first :: others =>
      completion.namePtr = some first ∧
        completion.minLength = (commonPrefix first others).length

variable {text : Text}

theorem prefix_of_mem_candidates {table : List FinshSyscall} {name : Text}
    (h : name ∈ candidates table text) : text <+: name := by
  obtain ⟨symbol, hsymbol, rfl⟩ := List.mem_map.mp h
  have hbegins := of_decide_eq_true (List.mem_filter.mp hsymbol).2
  obtain ⟨rest, rfl⟩ := hbegins
  have hdrop : (cmdPrefix ++ text ++ rest).drop 6 = text ++ rest := by
    rw [List.append_assoc]
    exact List.drop_left' rfl
  rw [hdrop]
  exact List.prefix_append ..

theorem no_nul_of_mem_candidates {table : List FinshSyscall} {name : Text}
    (h : name ∈ candidates table text) : 0 ∉ name := by
  obtain ⟨symbol, hsymbol, rfl⟩ := List.mem_map.mp h
  obtain ⟨call, _, rfl⟩ := List.mem_map.mp (List.mem_filter.mp hsymbol).1
  exact fun hmem ↦ call.name_no_nul (List.mem_of_mem_drop hmem)

/-- What the two comparisons of the loop decide. -/
theorem isCandidate_iff {name : Text} (hname : 0 ∉ name) (htext : 0 ∉ text) :
    strncmpEq name cmdPrefix 6 ∧ strncmpEq text (name.drop 6) text.length ↔
      cmdPrefix ++ text <+: name := by
  have hrest : 0 ∉ name.drop 6 := fun hmem ↦ hname (List.mem_of_mem_drop hmem)
  rw [strncmpEq_iff hname (by decide) (.inr (by decide)), strncmpEq_iff htext hrest (.inl le_rfl),
    List.take_length, List.take_of_length_le (l := cmdPrefix) (by decide)]
  constructor
  · rintro ⟨hbegins, hname⟩
    have hsplit : name = cmdPrefix ++ (text ++ (name.drop 6).drop text.length) := by
      calc
        name = name.take 6 ++ name.drop 6 := (List.take_append_drop 6 name).symm
        _ = cmdPrefix ++ ((name.drop 6).take text.length ++ (name.drop 6).drop text.length) := by
          rw [hbegins, List.take_append_drop]
        _ = cmdPrefix ++ (text ++ (name.drop 6).drop text.length) := by rw [← hname]
    rw [hsplit, ← List.append_assoc]
    exact List.prefix_append ..
  · rintro ⟨rest, rfl⟩
    rw [List.append_assoc]
    have hdrop : (cmdPrefix ++ (text ++ rest)).drop 6 = text ++ rest := List.drop_left' rfl
    refine ⟨List.take_left' rfl, ?_⟩
    rw [hdrop, List.take_left]

/-- One round of the loop. -/
theorem completeCommand_holds {completion : Completion} {call : FinshSyscall} {found : List Text}
    (htext : 0 ∉ text) (hne : text ≠ []) (hfound : ∀ name ∈ found, text <+: name)
    (h : completion.Holds found) :
    (completeCommand text completion call).Holds
      (if cmdPrefix ++ text <+: call.name then found ++ [call.name.drop 6] else found) := by
  by_cases hcandidate : cmdPrefix ++ text <+: call.name
  swap
  · rw [if_neg hcandidate, completeCommand]
    rw [← isCandidate_iff call.name_no_nul htext, not_and] at hcandidate
    by_cases hsymbol : strncmpEq call.name cmdPrefix 6
    · rw [if_pos hsymbol]
      simp only
      rw [if_neg (hcandidate hsymbol)]
      exact h
    · rw [if_neg hsymbol]
      exact h
  rw [if_pos hcandidate, completeCommand]
  obtain ⟨hsymbol, hbegins⟩ := (isCandidate_iff call.name_no_nul htext).mpr hcandidate
  rw [if_pos hsymbol]
  simp only
  rw [if_pos hbegins]
  cases found with
  | nil =>
    obtain ⟨hnone, hzero⟩ := h
    simp only [Completion.Holds, List.nil_append, hzero, if_pos, Option.getD_some, strCommon_eq]
    rw [common_self, if_neg (lt_irrefl _)]
    exact ⟨trivial, rfl⟩
  | cons first others =>
    obtain ⟨hfirst, hlength⟩ := h
    -- the candidates have at least the text in common
    have hbegin : text <+: commonPrefix first others :=
      prefix_commonPrefix_iff.mpr (List.forall_mem_cons.mp hfound)
    have hpos : completion.minLength ≠ 0 := by
      rw [hlength]
      have hle := hbegin.length_le
      have htext := List.length_pos_of_ne_nil hne
      omega
    simp only [Completion.Holds, List.cons_append, if_neg hpos, hfirst, Option.getD_some,
      strCommon_eq]
    refine ⟨trivial, ?_⟩
    rw [commonPrefix_concat, length_common_of_prefix (commonPrefix_isPrefix first others), ← hlength, min_comm]
    split_ifs with hlt
    · exact (min_eq_left hlt.le).symm
    · exact (min_eq_right (by omega)).symm

/-- The whole loop. -/
theorem foldl_completeCommand (table : List FinshSyscall) (htext : 0 ∉ text) (hne : text ≠ []) :
    (table.foldl (completeCommand text) ⟨none, 0, []⟩).Holds (candidates table text) := by
  induction table using List.reverseRecOn with
  | nil => exact ⟨rfl, rfl⟩
  | append_singleton table call ih =>
    have hstep := @completeCommand_holds text _ call _ htext hne
      (fun _ hmem ↦ prefix_of_mem_candidates hmem) ih
    rw [List.foldl_append, List.foldl_cons, List.foldl_nil]
    convert hstep using 1
    rw [candidates, candidates, List.map_append, List.filter_append, List.map_append]
    by_cases hcandidate : cmdPrefix ++ text <+: call.name
    · simp [hcandidate]
    · simp [hcandidate]

/-! ## The path behind a space -/

/-- What stands behind the last space; a space that begins the line does not count. -/
def pathOf (text : Text) : Text := text.tail.rtakeWhile (· != 0x20)

/-- What is printed for a path, and what is added to it. -/
abbrev PathCompletion := Text → Text × Text

/-- The text after the completion of a path. -/
def completePathOf (completePath : PathCompletion) (text : Text) : Text :=
  if 0x20 ∈ text.tail then text ++ (completePath (pathOf text)).2 else text

/-- What the completion of the path prints, if there is one. -/
def pathListing (completePath : PathCompletion) (text : Text) : Text :=
  if 0x20 ∈ text.tail then (completePath (pathOf text)).1 else []

theorem rtakeWhile_append {test : UInt8 → Bool} {c : UInt8} {front back : Text}
    (hc : test c = false) (hback : ∀ d ∈ back, test d) :
    (front ++ c :: back).rtakeWhile test = back := by
  rw [List.rtakeWhile, List.reverse_append, List.reverse_cons, List.append_assoc,
    List.takeWhile_append_of_pos (by simpa using hback)]
  simp [hc]

/-- The loop finds the last space. -/
theorem lastSpace_eq {capacity : ℕ} {line : Block UInt8} (h : Padded capacity text line) {k : ℕ}
    (hk : k ≤ text.length) :
    (lastSpace line k = .ok none ∧ ∀ j, j < k → text[j + 1]? ≠ some 0x20) ∨
      ∃ j, lastSpace line k = .ok (some (j + 1)) ∧ text[j + 1]? = some 0x20 ∧
        ∀ i, j < i → i < k → text[i + 1]? ≠ some 0x20 := by
  have hfits := h.fits
  induction k with
  | zero => exact .inl ⟨rfl, fun j hj ↦ absurd hj (Nat.not_lt_zero j)⟩
  | succ k ih =>
    have hread := h.read (k := k + 1) (by omega)
    rw [lastSpace, hread, ok_bind]
    by_cases hspace : text[k + 1]? = some 0x20
    · rw [hspace]
      exact .inr ⟨k, rfl, hspace, fun i hlt hle ↦ absurd hle (by omega)⟩
    · have hother : text[k + 1]?.getD 0 ≠ 0x20 := by
        cases hchar : text[k + 1]? with
        | none => decide
        | some c =>
          rw [hchar] at hspace
          exact fun hc ↦ hspace (congrArg some hc)
      rw [if_neg hother]
      rcases ih (by omega) with ⟨hnone, hclear⟩ | ⟨j, hsome, hfound, hclear⟩
      · refine .inl ⟨hnone, fun j hj ↦ ?_⟩
        rcases Nat.lt_succ_iff_lt_or_eq.mp hj with hlt | rfl
        · exact hclear j hlt
        · exact hspace
      · refine .inr ⟨j, hsome, hfound, fun i hlt hle ↦ ?_⟩
        rcases Nat.lt_succ_iff_lt_or_eq.mp hle with hlt' | rfl
        · exact hclear i hlt hlt'
        · exact hspace

/-- With the loop over the whole line: no space, or the path behind it. -/
theorem lastSpace_path {capacity : ℕ} {line : Block UInt8} (h : Padded capacity text line) :
    (lastSpace line text.length = .ok none ∧ 0x20 ∉ text.tail) ∨
      ∃ j, lastSpace line text.length = .ok (some (j + 1)) ∧ j + 1 < text.length ∧
        0x20 ∈ text.tail ∧ text.drop (j + 1 + 1) = pathOf text := by
  rcases lastSpace_eq h le_rfl with ⟨hnone, hclear⟩ | ⟨j, hsome, hfound, hclear⟩
  · refine .inl ⟨hnone, fun hmem ↦ ?_⟩
    obtain ⟨j, hj, hchar⟩ := List.getElem_of_mem hmem
    rw [List.length_tail] at hj
    rw [List.getElem_tail] at hchar
    exact hclear j (by omega) (by rw [List.getElem?_eq_getElem (by omega), hchar])
  · obtain ⟨hj, hchar⟩ := List.getElem?_eq_some_iff.mp hfound
    have hsplit : text.tail = text.tail.take j ++ 0x20 :: text.drop (j + 1 + 1) := by
      calc
        text.tail = text.tail.take j ++ text.tail.drop j := (List.take_append_drop j _).symm
        _ = text.tail.take j ++ 0x20 :: text.drop (j + 1 + 1) := by
          rw [List.drop_tail, List.drop_eq_getElem_cons hj, hchar]
    refine .inr ⟨j, hsome, hj, ?_, ?_⟩
    · rw [hsplit]
      simp
    · rw [pathOf, hsplit, rtakeWhile_append rfl]
      intro c hc
      obtain ⟨i, hi, rfl⟩ := List.getElem_of_mem hc
      rw [List.length_drop] at hi
      have hother := hclear (j + 1 + i) (by omega) (by omega)
      rw [List.getElem?_eq_getElem (by omega)] at hother
      have hindex : j + 1 + i + 1 = j + 1 + 1 + i := by omega
      simp only [hindex] at hother
      simpa [List.getElem_drop] using hother

/-! ## The completed line -/

/-- The line after a tab. -/
def completeLine (table : List FinshSyscall) (completePath : PathCompletion) (text : Text) : Text :=
  if text = [] then [] else completeText table (completePathOf completePath text)

/-- The line is made of characters of the text, the names and the addition. -/
theorem completeLine_chars {Prints : UInt8 → Prop} {table : List FinshSyscall}
    {completePath : PathCompletion} (htable : ∀ call ∈ table, ∀ c ∈ call.name, Prints c)
    (hadded : ∀ c ∈ (completePath (pathOf text)).2, Prints c) (htext : ∀ c ∈ text, Prints c) :
    ∀ c ∈ completeLine table completePath text, Prints c := by
  have hpath : ∀ c ∈ completePathOf completePath text, Prints c := by
    rw [completePathOf]
    split_ifs with hmem
    · exact List.forall_mem_append.mpr ⟨htext, hadded⟩
    · exact htext
  rw [completeLine]
  split_ifs with hempty
  · exact List.forall_mem_nil _
  rw [completeText]
  cases hfound : candidates table (completePathOf completePath text) with
  | nil => exact hpath
  | cons first others =>
    intro c hc
    have hfirst : first ∈ candidates table (completePathOf completePath text) := by
      rw [hfound]
      exact List.mem_cons_self ..
    obtain ⟨name, hname, rfl⟩ := List.mem_map.mp hfirst
    obtain ⟨call, hcall, rfl⟩ := List.mem_map.mp (List.mem_filter.mp hname).1
    exact htable call hcall c
      (List.mem_of_mem_drop ((commonPrefix_isPrefix _ others).subset hc))

/-- The function does to the path of the text what the completion says, and leaves the line when
there is no room for it. -/
def Completes (completeAt : PathCompleter) (completePath : PathCompletion) (text : Text) : Prop :=
  ∀ line k, Padded finshCmdSize text line → k ≤ text.length → text.drop k = pathOf text →
    if text.length + (completePath (pathOf text)).2.length < finshCmdSize then
      ∃ next, completeAt line k = .ok (next, (completePath (pathOf text)).1) ∧
        Padded finshCmdSize (text ++ (completePath (pathOf text)).2) next
    else completeAt line k = .error .outOfBounds

/-- The path is completed where it stands. -/
theorem completeFrom_eq {completeAt : PathCompleter} {completePath : PathCompletion}
    (hcompletes : 0x20 ∈ text.tail → Completes completeAt completePath text) {line : Block UInt8}
    (h : Padded finshCmdSize text line) :
    ∃ space, lastSpace line text.length = .ok space ∧
      if (completePathOf completePath text).length < finshCmdSize then
        ∃ next, completeFrom completeAt line space = .ok (next, pathListing completePath text) ∧
          Padded finshCmdSize (completePathOf completePath text) next
      else completeFrom completeAt line space = .error .outOfBounds := by
  rcases lastSpace_path h with ⟨hnone, hclear⟩ | ⟨j, hsome, hj, hmem, hpath⟩
  · have hsame : completePathOf completePath text = text := if_neg hclear
    refine ⟨none, hnone, ?_⟩
    rw [hsame, if_pos h.fits, pathListing, if_neg hclear]
    exact ⟨line, rfl, h⟩
  · have hlong : completePathOf completePath text = text ++ (completePath (pathOf text)).2 :=
      if_pos hmem
    have hcall := hcompletes hmem line (j + 1 + 1) h (by omega) hpath
    refine ⟨some (j + 1), hsome, ?_⟩
    rw [← List.length_append] at hcall
    rw [hlong, pathListing, if_pos hmem]
    split_ifs with hfits
    · rw [if_pos hfits] at hcall
      obtain ⟨next, hnext, hpadded⟩ := hcall
      exact ⟨next, hnext, hpadded⟩
    · rwa [if_neg hfits] at hcall

/-- The simplest function of this kind. -/
def PathCompletion.completer (completePath : PathCompletion) : PathCompleter := fun line k ↦ do
  let path ← cString line k
  let line ← line.store k (path ++ (completePath path).2 ++ [0])
  return (line, (completePath path).1)

theorem completer_completes (completePath : PathCompletion) (htext : 0 ∉ text) :
    Completes completePath.completer completePath text := by
  intro line k h hk hpath
  have hfits := h.fits
  have hsize := h.size
  have hread : cString line k = .ok (pathOf text) := by
    rw [h.cString hk, takeWhile_ne_zero (fun hz ↦ htext (List.mem_of_mem_drop hz)), hpath]
  have hlength : text.length = k + (pathOf text).length := by
    rw [← hpath, List.length_drop]
    omega
  have hsplit : text.take k ++ (pathOf text ++ (completePath (pathOf text)).2) =
      text ++ (completePath (pathOf text)).2 := by
    rw [← List.append_assoc, ← hpath, List.take_append_drop]
  have hlong : (pathOf text ++ (completePath (pathOf text)).2).length =
      (pathOf text).length + (completePath (pathOf text)).2.length := List.length_append
  rw [PathCompletion.completer, hread, ok_bind]
  split_ifs with hroom
  · obtain ⟨next, hnext, hpadded⟩ := h.store_string hk
      (show text.length ≤ k + (pathOf text ++ (completePath (pathOf text)).2).length by omega)
      (by omega)
    rw [hsplit] at hpadded
    rw [hnext]
    exact ⟨next, rfl, hpadded⟩
  · rw [Block.store_eq_error (by omega) (by omega)]
    · rfl
    · rw [List.length_append, List.length_singleton]
      omega

section Printing

variable {Prints : UInt8 → Prop} {table : List FinshSyscall} (hplain : ∀ c, isPlain c → Prints c)
  (hprints : ∀ call ∈ table, ∀ c ∈ call.name ++ call.desc, Prints c)
include hplain hprints

theorem mshHelp_prints : ∀ c ∈ mshHelp table, Prints c := by
  have htitle : ∀ c ∈ helpTitle, isPlain c := List.all_eq_true.mp (by decide)
  refine List.forall_mem_append.mpr ⟨List.forall_mem_append.mpr ⟨?_, fun c hc ↦ ?_⟩, ?_⟩
  · exact rtKprintf_prints hplain fun c hc ↦ hplain c (htitle c hc)
  · obtain ⟨call, hcall, hc⟩ := List.mem_flatMap.mp hc
    have hown := hprints call (List.mem_filter.mp hcall).1
    refine rtKprintf_prints hplain (fun c hline ↦ ?_) c hc
    simp only [helpLine, List.mem_append, List.mem_replicate, List.mem_cons] at hline
    have hspace := hplain 0x20 rfl
    have hdash := hplain 0x2d rfl
    have hnewline := hplain 0x0a rfl
    have hname : c ∈ call.name.drop 6 → Prints c :=
      fun hmem ↦ hown c (List.mem_append_left _ (List.mem_of_mem_drop hmem))
    have hdesc : c ∈ call.desc → Prints c := fun hmem ↦ hown c (List.mem_append_right _ hmem)
    grind
  · exact rtKprintf_prints hplain (List.forall_mem_singleton.mpr (hplain _ rfl))

theorem completeCommand_prints :
    ∀ c ∈ (table.foldl (completeCommand text) ⟨none, 0, []⟩).printed, Prints c := by
  induction table using List.reverseRecOn with
  | nil => exact List.forall_mem_nil _
  | append_singleton table call ih =>
    have hbefore := ih fun other hother ↦ hprints other (List.mem_append_left _ hother)
    have hown := hprints call (by simp)
    rw [List.foldl_append, List.foldl_cons, List.foldl_nil, completeCommand]
    by_cases hsymbol : strncmpEq call.name cmdPrefix 6
    swap
    · rwa [if_neg hsymbol]
    rw [if_pos hsymbol]
    simp only
    by_cases hbegins : strncmpEq text (call.name.drop 6) text.length
    swap
    · rwa [if_neg hbegins]
    rw [if_pos hbegins]
    refine List.forall_mem_append.mpr ⟨hbefore, rtKprintf_prints hplain ?_⟩
    refine List.forall_mem_append.mpr ⟨fun c hc ↦ ?_, ?_⟩
    · exact hown c (List.mem_append_left _ (List.mem_of_mem_drop hc))
    · exact List.forall_mem_singleton.mpr (hplain _ rfl)

end Printing

/-- A longer text is copied over the text of the line, without a NUL of its own. -/
theorem store_over {completed : Text} {line : Block UInt8} (h : Padded finshCmdSize text line)
    (hlong : text.length ≤ completed.length) (hnul : 0 ∉ completed) :
    if completed.length < finshCmdSize then
      ∃ next, line.store 0 completed = .ok next ∧ Padded finshCmdSize completed next
    else line.store 0 completed = .error .outOfBounds ∨
      ∃ next, line.store 0 completed = .ok next ∧ Unterminated next := by
  have hsize := h.size
  split_ifs with hfits
  · have hstore := h.store (k := 0) (show 0 + completed.length < finshCmdSize by omega)
    have hlast := h.overlay (k := 0) (Nat.zero_le _)
      (show 0 + completed.length < finshCmdSize by omega)
    rw [List.take_zero, List.nil_append, List.drop_eq_nil_of_le (by omega), List.append_nil] at hlast
    exact ⟨_, hstore, hlast⟩
  · rcases (not_lt.mp hfits).lt_or_eq with hlonger | hfull
    · exact .inl (Block.store_eq_error le_rfl (by omega) (by omega))
    · exact .inr (unterminated_of_store hnul (by omega))

/-- A string is cut to its beginning. -/
theorem rtStrncpy_eq {front name : Text} (h : front <+: name) (block : Block UInt8) :
    rtStrncpy block 0 name front.length = block.store 0 front := by
  rw [rtStrncpy, List.take_append_of_le_length h.length_le, ← List.prefix_iff_eq_take.mp h]

/-- **Completion.** Where there is room for the path and for the result, the line becomes what the
commands that begin like it have in common. -/
theorem mshAutoComplete_eq {table : List FinshSyscall} {completeAt : PathCompleter}
    {completePath : PathCompletion}
    (hcompletes : 0x20 ∈ text.tail → Completes completeAt completePath text)
    (hadded : 0 ∉ (completePath (pathOf text)).2) {line : Block UInt8}
    (h : Padded finshCmdSize text line) (htext : 0 ∉ text) (hne : text ≠ []) :
    if (completePathOf completePath text).length < finshCmdSize ∧
        (completeLine table completePath text).length < finshCmdSize then
      ∃ next, mshAutoComplete table completeAt line = .ok (next, pathListing completePath text ++
          (table.foldl (completeCommand (completePathOf completePath text)) ⟨none, 0, []⟩).printed) ∧
        Padded finshCmdSize (completeLine table completePath text) next
    else mshAutoComplete table completeAt line = .error .outOfBounds ∨
      ∃ next printed, mshAutoComplete table completeAt line = .ok (next, printed) ∧
        Unterminated next := by
  have hread := h.read (k := 0) (by decide)
  rw [Int.natCast_zero] at hread
  have hfirst : text[0]?.getD 0 ≠ 0 := by
    intro hzero
    rw [List.getElem?_eq_getElem (List.length_pos_of_ne_nil hne), Option.getD_some] at hzero
    exact htext (hzero ▸ List.getElem_mem _)
  have hstring := h.cString (k := 0) (Nat.zero_le _)
  rw [List.drop_zero, takeWhile_ne_zero htext, Int.natCast_zero] at hstring
  obtain ⟨space, hspace, hfrom⟩ := completeFrom_eq hcompletes h
  rw [mshAutoComplete, hread, ok_bind, if_neg hfirst, hstring, ok_bind, hspace, ok_bind]
  by_cases hpath : (completePathOf completePath text).length < finshCmdSize
  swap
  · rw [if_neg hpath] at hfrom
    rw [if_neg fun hboth ↦ hpath hboth.1, hfrom]
    exact .inl rfl
  rw [if_pos hpath] at hfrom
  obtain ⟨middle, hmiddle, hpadded⟩ := hfrom
  have hnul : 0 ∉ completePathOf completePath text := by
    rw [completePathOf]
    split_ifs with hmem
    · rw [List.mem_append, not_or]
      exact ⟨htext, hadded⟩
    · exact htext
  have hnonempty : completePathOf completePath text ≠ [] := by
    rw [completePathOf]
    split_ifs with hmem
    · exact List.append_ne_nil_of_left_ne_nil hne _
    · exact hne
  have hagain := hpadded.cString (k := 0) (Nat.zero_le _)
  rw [List.drop_zero, takeWhile_ne_zero hnul, Int.natCast_zero] at hagain
  have hholds := foldl_completeCommand table hnul hnonempty
  rw [hmiddle, ok_bind]
  simp only
  rw [hagain, ok_bind, completeLine, if_neg hne, completeText]
  cases hfound : candidates table (completePathOf completePath text) with
  | nil =>
    rw [hfound] at hholds
    simp only
    rw [hholds.1, if_pos ⟨hpath, hpath⟩]
    exact ⟨middle, rfl, hpadded⟩
  | cons first others =>
    rw [hfound] at hholds
    simp only
    have hmember : first ∈ candidates table (completePathOf completePath text) := by
      rw [hfound]
      exact List.mem_cons_self ..
    have hshared : 0 ∉ commonPrefix first others := fun hmem ↦
      no_nul_of_mem_candidates hmember ((commonPrefix_isPrefix first others).subset hmem)
    have hlong : (completePathOf completePath text).length ≤ (commonPrefix first others).length := by
      apply List.IsPrefix.length_le
      rw [prefix_commonPrefix_iff, ← List.forall_mem_cons, ← hfound]
      exact fun name hname ↦ prefix_of_mem_candidates hname
    have hstore := store_over hpadded hlong hshared
    rw [hholds.1]
    simp only
    rw [hholds.2, rtStrncpy_eq (commonPrefix_isPrefix first others)]
    by_cases hfits : (commonPrefix first others).length < finshCmdSize
    · rw [if_pos hfits] at hstore
      obtain ⟨next, hnext, hlast⟩ := hstore
      rw [if_pos ⟨hpath, hfits⟩, hnext]
      exact ⟨next, rfl, hlast⟩
    · rw [if_neg hfits] at hstore
      rw [if_neg fun hboth ↦ hfits hboth.2]
      rcases hstore with herror | ⟨next, hnext, hlast⟩
      · rw [herror]
        exact .inl rfl
      · rw [hnext]
        exact .inr ⟨next, _, rfl, hlast⟩

section Printing

variable {Prints : UInt8 → Prop} {table : List FinshSyscall} (hplain : ∀ c, isPlain c → Prints c)
  (hprints : ∀ call ∈ table, ∀ c ∈ call.name ++ call.desc, Prints c)
include hplain hprints

/-- The completion of a line that does not get too long, with what is printed. -/
theorem mshAutoComplete_completes {completePath : PathCompletion}
    {line : Block UInt8} (hadded : 0 ∉ (completePath (pathOf text)).2)
    (hfiles : ∀ c ∈ (completePath (pathOf text)).1, Prints c) (h : Padded finshCmdSize text line)
    (htext : 0 ∉ text) (hpath : (completePathOf completePath text).length < finshCmdSize)
    (hfits : (completeLine table completePath text).length < finshCmdSize) :
    ∃ next printed, mshAutoComplete table completePath.completer line = .ok (next, printed) ∧
      Padded finshCmdSize (completeLine table completePath text) next ∧ ∀ c ∈ printed, Prints c := by
  by_cases hempty : text = []
  · subst hempty
    have hread := h.read (k := 0) (by decide)
    rw [Int.natCast_zero] at hread
    rw [mshAutoComplete, hread, ok_bind]
    exact ⟨line, mshHelp table, rfl, h, mshHelp_prints hplain hprints⟩
  have hrun := @mshAutoComplete_eq text table _ _ (fun _ ↦ completer_completes completePath htext)
    hadded line h htext hempty
  rw [if_pos ⟨hpath, hfits⟩] at hrun
  obtain ⟨next, hnext, hpadded⟩ := hrun
  refine ⟨next, _, hnext, hpadded,
    List.forall_mem_append.mpr ⟨?_, completeCommand_prints hplain hprints⟩⟩
  rw [pathListing]
  split_ifs
  · exact hfiles
  · exact List.forall_mem_nil _

end Printing

/-- `"list_mem"` -/
def listMem : Text := "list_mem".toList.map fun c ↦ c.toNat.toUInt8

/-- `list_mem` and `list_timer` -/
def listCommands : List FinshSyscall :=
  [⟨cmdPrefix ++ listMem, [], by decide⟩,
    ⟨cmdPrefix ++ "list_timer".toList.map fun c ↦ c.toNat.toUInt8, [], by decide⟩]

end K210Firmware.Shell
