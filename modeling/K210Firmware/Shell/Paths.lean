import K210Firmware.Shell.Complete

/-!
# Completing a path

`msh_auto_complete_path` completes the name behind the last slash of a path with what the names in
the directory that begin like it have in common. There is no working directory: for a path that
does not begin with a slash the function goes on from whatever the block of `rt_malloc` holds. For
every other path it does what `FileSystem.completion` says (`mshAutoCompletePath_completes`).
-/

namespace K210Firmware.Shell

open Memory CString CommonPrefix

def dfsPathMax : ℕ := 256
def slash : UInt8 := 0x2f

/-- The names that `readdir` finds in a directory until it finds no more, and those it finds after
`rewinddir`. -/
structure Directory where
  entries : List Text
  rewound : List Text
  no_nul : ∀ entry ∈ entries ++ rewound, 0 ∉ entry
  short : ∀ entry ∈ entries, entry.length < dfsPathMax

/-- `opendir` -/
abbrev FileSystem := Text → Option Directory

/-! ## The code -/

/-- `NO_WORKING_DIR` -/
def noWorkingDir : Text :=
  "system does not support working directory\n".toList.map fun c ↦ c.toNat.toUInt8

/-- `rt_kprintf("%s\n", dirent->d_name)` for some names -/
def printNames (names : List Text) : Text := names.flatMap fun name ↦ rtKprintf (name ++ [0x0a])

/-- A slash behind what stands in `full_path`, which `getcwd` leaves as it is. -/
def workingPath (fullPath : Block UInt8) : Except Fault (Block UInt8) := do
  let text ← cString fullPath 0
  let last ← fullPath.read (text.length - 1)
  if last ≠ slash then fullPath.store text.length [slash, 0] else return fullPath

/-- The loop that looks for the last slash: the index behind it. -/
def behindSlash (index : Option ℕ) (ptr : ℕ) : Text → Option ℕ
  | [] => index
  | c :: rest => behindSlash (if c = slash then some (ptr + 1) else index) (ptr + 1) rest

/-- `min_length` and `full_path` -/
structure EntryMatch where
  minLength : ℕ
  fullPath : Block UInt8

/-- One round of the loop over the directory. -/
def matchEntry (name : Text) (found : EntryMatch) (entry : Text) : Except Fault EntryMatch := do
  if strncmpEq name entry name.length then
    let fullPath ←
      if found.minLength = 0 then found.fullPath.store 0 (entry ++ [0]) else pure found.fullPath
    let minLength := if found.minLength = 0 then entry.length else found.minLength
    let saved ← cString fullPath 0
    let length := strCommon entry saved
    return { minLength := if length < minLength then length else minLength, fullPath }
  else return found

/-- The completion of the name at `index`. -/
def completeName (directory : Directory) (fullPath line : Block UInt8) (index : ℕ) :
    Except Fault (Block UInt8 × Text) := do
  let name ← cString line index
  if name = [] then return (line, printNames directory.entries)
  else
    let found ← directory.entries.foldlM (matchEntry name) ⟨0, fullPath⟩
    if found.minLength = 0 then return (line, [])
    else
      let saved ← cString found.fullPath 0
      let printed :=
        if found.minLength < saved.length then
          printNames (directory.rewound.filter fun entry ↦ strncmpEq name entry name.length)
        else []
      let bytes ← found.fullPath.load 0 found.minLength
      let line ← line.store index bytes
      let line ← line.write (index + found.minLength : ℕ) 0
      return (line, printed)

/-- `msh_auto_complete_path`; `memory` is the block that `rt_malloc(256)` returns. -/
def mshAutoCompletePath (files : FileSystem) (memory : Option (Block UInt8)) : PathCompleter :=
  fun line path ↦
    match memory with
    | none => return (line, [])
    | some fullPath => do
        let first ← line.read path
        let fullPath ← if first ≠ slash then workingPath fullPath else fullPath.write 0 0
        let printed := if first ≠ slash then rtKprintf noWorkingDir else []
        let text ← cString line path
        let index := (behindSlash none path text).getD path
        let parent ← line.load path (index - path)
        let working ← cString fullPath 0
        let fullPath ← fullPath.store working.length (parent ++ [0])
        let directory ← cString fullPath 0
        match files directory with
        | none => return (line, printed)
        | some directory =>
            let (line, names) ← completeName directory fullPath line index
            return (line, printed ++ names)

/-! ## What is added to a path -/

/-- The directory of a path, with the slash behind it. -/
def parentOf (path : Text) : Text := path.rdropWhile (· != slash)

/-- What stands behind the last slash. -/
def nameOf (path : Text) : Text := path.rtakeWhile (· != slash)

namespace Directory

variable (directory : Directory)

/-- The entries that begin with the name. -/
def candidates (name : Text) : List Text := directory.entries.filter (name <+: ·)

/-- What the name becomes. -/
def completed (name : Text) : Text :=
  match directory.candidates name with
  | [] => name
  | first :: others => commonPrefix first others

/-- What is printed for a name: the entries that begin with it, when they have more in common than
their names. -/
def listing (name : Text) : Text :=
  if name = [] then printNames directory.entries
  else if (directory.candidates name).head?.any fun first ↦ directory.completed name ≠ first then
    printNames (directory.rewound.filter (name <+: ·))
  else []

/-- Without a name there is nothing to complete. -/
def added (name : Text) : Text := if name = [] then [] else (directory.completed name).drop name.length

end Directory

/-- What `msh_auto_complete_path` prints and adds, if there is memory. -/
def FileSystem.completion (files : FileSystem) (memory : Bool) : PathCompletion := fun path ↦
  if memory then
    (files (parentOf path)).elim ([], []) fun directory ↦
      (directory.listing (nameOf path), directory.added (nameOf path))
  else ([], [])

/-! ## The directory of a path -/

variable {text name : Text}

theorem behindSlash_none (h : slash ∉ text) (index : Option ℕ) (ptr : ℕ) :
    behindSlash index ptr text = index := by
  induction text generalizing ptr with
  | nil => rfl
  | cons c text ih =>
    rw [List.mem_cons, not_or] at h
    rw [behindSlash, if_neg (Ne.symm h.1), ih h.2]

theorem behindSlash_append (front : Text) (h : slash ∉ name) (index : Option ℕ) (ptr : ℕ) :
    behindSlash index ptr (front ++ slash :: name) = some (ptr + (front.length + 1)) := by
  induction front generalizing index ptr with
  | nil => rw [List.nil_append, behindSlash, if_pos rfl, behindSlash_none h, List.length_nil]
  | cons c front ih =>
    rw [List.cons_append, behindSlash, ih, List.length_cons]
    congr 1
    omega

theorem parentOf_append_nameOf (path : Text) : parentOf path ++ nameOf path = path :=
  List.rdropWhile_append_rtakeWhile

theorem take_parentOf (path : Text) : path.take (parentOf path).length = parentOf path := by
  have hsplit := congrArg (List.take (parentOf path).length) (parentOf_append_nameOf path)
  rw [List.take_left] at hsplit
  exact hsplit.symm

theorem drop_parentOf (path : Text) : path.drop (parentOf path).length = nameOf path := by
  have hsplit := congrArg (List.drop (parentOf path).length) (parentOf_append_nameOf path)
  rw [List.drop_left] at hsplit
  exact hsplit.symm

/-- The directory of a path that begins with a slash ends with one. -/
theorem parentOf_eq {path : Text} (h : path.head? = some slash) :
    ∃ front, parentOf path = front ++ [slash] := by
  have hne : parentOf path ≠ [] := by
    intro hnil
    have hslash : slash ∈ path := List.mem_of_mem_head? h
    have hother := List.rdropWhile_eq_nil_iff.mp hnil slash hslash
    simp at hother
  have hlast := List.rdropWhile_last_not _ _ hne
  refine ⟨(parentOf path).dropLast, ?_⟩
  rw [bne_iff_ne, not_not] at hlast
  rw [← hlast]
  exact (List.dropLast_append_getLast hne).symm

theorem slash_not_mem_nameOf (path : Text) : slash ∉ nameOf path := by
  intro hmem
  have hother := List.mem_rtakeWhile_imp hmem
  simp at hother

/-- The loop finds the end of the directory. -/
theorem behindSlash_eq {path : Text} (h : path.head? = some slash) (ptr : ℕ) :
    behindSlash none ptr path = some (ptr + (parentOf path).length) := by
  obtain ⟨front, hfront⟩ := parentOf_eq h
  have hsplit : path = front ++ slash :: nameOf path := by
    conv_lhs => rw [← parentOf_append_nameOf path, hfront]
    rw [List.append_assoc, List.singleton_append]
  rw [hfront, List.length_append, List.length_singleton]
  conv_lhs => rw [hsplit]
  exact behindSlash_append front (slash_not_mem_nameOf path) none ptr

/-! ## The entries that begin like a name -/

theorem strncmpEq_iff_isPrefix {entry : Text} (hname : 0 ∉ name) (hentry : 0 ∉ entry) :
    strncmpEq name entry name.length ↔ name <+: entry := by
  rw [strncmpEq_iff hname hentry (.inl le_rfl), List.take_length, List.prefix_iff_eq_take]

/-- The state of the loop, when these were the entries that begin with the name. -/
def EntryMatch.Holds (found : EntryMatch) : List Text → Prop
  | [] => found.fullPath.size = dfsPathMax ∧ found.minLength = 0
  | first :: others =>
      found.fullPath.size = dfsPathMax ∧ HoldsString first found.fullPath ∧
        found.minLength = (commonPrefix first others).length

/-- One round of the loop. -/
theorem matchEntry_holds {found : EntryMatch} {entry : Text} {matched : List Text} (hname : 0 ∉ name)
    (hne : name ≠ []) (hentry : 0 ∉ entry) (hshort : entry.length < dfsPathMax)
    (hmatched : ∀ other ∈ matched, name <+: other) (h : found.Holds matched) :
    ∃ next, matchEntry name found entry = .ok next ∧
      next.Holds (if name <+: entry then matched ++ [entry] else matched) := by
  by_cases hbegins : name <+: entry
  swap
  · rw [matchEntry, if_neg (by rwa [strncmpEq_iff_isPrefix hname hentry]), if_neg hbegins]
    exact ⟨found, rfl, h⟩
  rw [if_pos hbegins]
  rw [matchEntry, if_pos ((strncmpEq_iff_isPrefix hname hentry).mpr hbegins)]
  cases matched with
  | nil =>
    obtain ⟨hsize, hzero⟩ := h
    obtain ⟨next, hstore, hnext, hholds⟩ := HoldsString.of_store hentry
      (show (entry.length : ℤ) < found.fullPath.size by omega)
    rw [if_pos hzero, if_pos hzero, hstore, ok_bind]
    simp only
    rw [hholds.cString, ok_bind, strCommon_eq, common_self, if_neg (lt_irrefl _)]
    exact ⟨_, rfl, hnext.trans hsize, hholds, rfl⟩
  | cons first others =>
    obtain ⟨hsize, hholds, hlength⟩ := h
    -- the entries have at least the name in common
    have hbegin : name <+: commonPrefix first others :=
      prefix_commonPrefix_iff.mpr (List.forall_mem_cons.mp hmatched)
    have hpos : found.minLength ≠ 0 := by
      have hle := hbegin.length_le
      have hname := List.length_pos_of_ne_nil hne
      omega
    rw [if_neg hpos, if_neg hpos]
    simp only [pure, Except.pure, ok_bind]
    rw [hholds.cString, ok_bind, strCommon_eq, common_comm]
    refine ⟨_, rfl, hsize, hholds, ?_⟩
    change (if _ < found.minLength then _ else found.minLength) =
      (commonPrefix first (others ++ [entry])).length
    rw [commonPrefix_concat, length_common_of_prefix (commonPrefix_isPrefix first others), ← hlength,
      min_comm]
    split_ifs with hlt
    · exact (min_eq_left hlt.le).symm
    · exact (min_eq_right (by omega)).symm

/-- The whole loop. -/
theorem foldlM_matchEntry {directory : Directory} {fullPath : Block UInt8} (hname : 0 ∉ name)
    (hne : name ≠ []) (hsize : fullPath.size = dfsPathMax) :
    ∃ last, directory.entries.foldlM (matchEntry name) ⟨0, fullPath⟩ = .ok last ∧
      last.Holds (directory.candidates name) := by
  have hentries : ∀ entry ∈ directory.entries, 0 ∉ entry ∧ entry.length < dfsPathMax :=
    fun entry hentry ↦ ⟨directory.no_nul entry (List.mem_append_left _ hentry),
      directory.short entry hentry⟩
  rw [Directory.candidates]
  generalize directory.entries = entries at hentries ⊢
  induction entries using List.reverseRecOn with
  | nil => exact ⟨_, rfl, hsize, rfl⟩
  | append_singleton entries entry ih =>
    obtain ⟨hbefore, hentry⟩ := List.forall_mem_append.mp hentries
    obtain ⟨hnul, hshort⟩ := List.forall_mem_singleton.mp hentry
    obtain ⟨found, hfound, hholds⟩ := ih hbefore
    obtain ⟨next, hnext, hlast⟩ := matchEntry_holds hname hne hnul hshort
      (fun other hother ↦ of_decide_eq_true (List.mem_filter.mp hother).2) hholds
    refine ⟨next, ?_, ?_⟩
    · rw [List.foldlM_append, hfound, ok_bind, List.foldlM_cons, hnext, ok_bind]
      rfl
    · rw [List.filter_append]
      by_cases hbegins : name <+: entry
      · rw [if_pos hbegins] at hlast
        simpa [hbegins] using hlast
      · rw [if_neg hbegins] at hlast
        simpa [hbegins] using hlast

/-! ## What the function does -/

namespace Directory

variable (directory : Directory)

/-- The name becomes the longest text that all the entries that begin like it begin with. -/
theorem completed_isLongest (h : directory.candidates name ≠ []) :
    IsLongestPrefix (directory.completed name) (directory.candidates name) := by
  rw [completed]
  cases hfound : directory.candidates name with
  | nil => exact absurd hfound h
  | cons first others => exact commonPrefix_isLongest first others

theorem name_prefix_completed : name <+: directory.completed name := by
  by_cases hnone : directory.candidates name = []
  · rw [completed, hnone]
  · rw [directory.completed_isLongest hnone]
    exact fun entry hentry ↦ of_decide_eq_true (List.mem_filter.mp hentry).2

theorem added_no_nul : 0 ∉ directory.added name := by
  rw [added]
  split_ifs
  · exact List.not_mem_nil
  rw [completed]
  cases hfound : directory.candidates name with
  | nil =>
    simp only
    rw [List.drop_length]
    exact List.not_mem_nil
  | cons first others =>
    have hfirst : first ∈ directory.candidates name := by
      rw [hfound]
      exact List.mem_cons_self ..
    have hnul := directory.no_nul first (List.mem_append_left _ (List.mem_filter.mp hfirst).1)
    exact fun hmem ↦
      hnul ((commonPrefix_isPrefix first others).subset (List.mem_of_mem_drop hmem))

theorem append_added (h : name ≠ []) : name ++ directory.added name = directory.completed name := by
  obtain ⟨rest, hrest⟩ := @name_prefix_completed name directory
  rw [added, if_neg h, ← hrest, List.drop_left]

end Directory

variable {line : Block UInt8}

/-- The name at the end of a line is written again, with what is added to it. -/
theorem copy_completed {index : ℕ} (h : Padded finshCmdSize text line) (hindex : index ≤ text.length)
    (hname : text.drop index = name) (added : Text) :
    if text.length + added.length < finshCmdSize then
      ∃ next, (line.store index (name ++ added) >>= fun next ↦
          next.write (index + (name ++ added).length : ℕ) 0) = .ok next ∧
        Padded finshCmdSize (text ++ added) next
    else (line.store index (name ++ added) >>= fun next ↦
      next.write (index + (name ++ added).length : ℕ) 0) = .error .outOfBounds := by
  have hfits := h.fits
  have hsize := h.size
  have hlength : text.length = index + name.length := by
    rw [← hname, List.length_drop]
    omega
  have hlong : (name ++ added).length = name.length + added.length := List.length_append
  have hsplit : text.take index ++ (name ++ added) = text ++ added := by
    rw [← List.append_assoc, ← hname, List.take_append_drop]
  rw [Int.natCast_add, ← Block.store_concat]
  split_ifs with hroom
  · obtain ⟨next, hnext, hpadded⟩ := h.store_string hindex
      (show text.length ≤ index + (name ++ added).length by omega) (by omega)
    rw [hsplit] at hpadded
    exact ⟨next, hnext, hpadded⟩
  · apply Block.store_eq_error (by omega) (by omega)
    rw [List.length_append, List.length_singleton]
    omega

/-- The name at the end of a line. -/
theorem completeName_eq {directory : Directory} {fullPath : Block UInt8} {index : ℕ}
    (hsize : fullPath.size = dfsPathMax) (h : Padded finshCmdSize text line) (htext : 0 ∉ text)
    (hindex : index ≤ text.length) (hname : text.drop index = name) :
    if text.length + (directory.added name).length < finshCmdSize then
      ∃ next, completeName directory fullPath line index = .ok (next, directory.listing name) ∧
        Padded finshCmdSize (text ++ directory.added name) next
    else completeName directory fullPath line index = .error .outOfBounds := by
  have hfits := h.fits
  have hnul : 0 ∉ name := fun hmem ↦ htext (List.mem_of_mem_drop (hname ▸ hmem))
  have hlength : text.length = index + name.length := by
    rw [← hname, List.length_drop]
    omega
  have hread : cString line index = .ok name := by
    rw [h.cString hindex, hname, takeWhile_ne_zero hnul]
  rw [completeName, hread, ok_bind]
  by_cases hne : name = []
  · rw [if_pos hne, Directory.added, if_pos hne, Directory.listing, if_pos hne, List.append_nil,
      List.length_nil, Nat.add_zero, if_pos hfits]
    exact ⟨line, rfl, h⟩
  obtain ⟨found, hfound, hholds⟩ := @foldlM_matchEntry name directory _ hnul hne hsize
  have hadded := directory.append_added hne
  rw [if_neg hne, hfound, ok_bind, Directory.listing, if_neg hne]
  cases hmatched : directory.candidates name with
  | nil =>
    rw [hmatched] at hholds
    have hsame : directory.added name = [] := by
      rw [Directory.completed, hmatched] at hadded
      simpa using hadded
    rw [if_pos hholds.2, hsame, List.append_nil, List.length_nil, Nat.add_zero, if_pos hfits]
    exact ⟨line, rfl, h⟩
  | cons first others =>
    rw [hmatched] at hholds
    obtain ⟨hblock, hstring, hmin⟩ := hholds
    have hbegins := commonPrefix_isPrefix first others
    have hcompleted : directory.completed name = commonPrefix first others := by
      rw [Directory.completed, hmatched]
    rw [hcompleted] at hadded
    have hlong := congrArg List.length hadded
    rw [List.length_append] at hlong
    have hpos := List.length_pos_of_ne_nil hne
    have hfilter : directory.rewound.filter (fun entry ↦ strncmpEq name entry name.length) =
        directory.rewound.filter (name <+: ·) := by
      refine List.filter_congr fun entry hentry ↦ ?_
      rw [Bool.eq_iff_iff, strncmpEq_iff_isPrefix hnul
        (directory.no_nul entry (List.mem_append_right _ hentry)), decide_eq_true_iff]
    -- a beginning of the first entry is shorter unless it is the entry
    have hlists : found.minLength < first.length ↔ directory.completed name ≠ first := by
      rw [hmin, hcompleted]
      constructor
      · intro hlt hsame
        rw [hsame] at hlt
        exact lt_irrefl _ hlt
      · intro hother
        exact hbegins.length_le.lt_of_ne fun hlength ↦ hother (hbegins.eq_of_length hlength)
    have hmore : ¬found.minLength = 0 := by omega
    have hlisted : (directory.candidates name).head?.any (directory.completed name ≠ ·) =
        decide (found.minLength < first.length) := by
      rw [hmatched, List.head?_cons, Option.any_some, decide_eq_decide, hlists]
    have hcopy := copy_completed h hindex hname (directory.added name)
    rw [hmatched] at hlisted
    rw [hadded] at hcopy
    rw [if_neg hmore, hstring.cString, ok_bind, hfilter, hlisted, hmin, hstring.load hbegins.length_le,
      ← List.prefix_iff_eq_take.mp hbegins]
    simp only [decide_eq_true_eq, ok_bind]
    by_cases hroom : text.length + (directory.added name).length < finshCmdSize
    · rw [if_pos hroom] at hcopy ⊢
      obtain ⟨next, hnext, hpadded⟩ := hcopy
      rw [← bind_assoc, hnext]
      exact ⟨next, rfl, hpadded⟩
    · rw [if_neg hroom] at hcopy ⊢
      rw [← bind_assoc, hcopy]
      rfl

/-- **A path that begins with a slash.** -/
theorem mshAutoCompletePath_completes (files : FileSystem) {memory : Option (Block UInt8)}
    (hmemory : ∀ fullPath ∈ memory, fullPath.size = dfsPathMax) (htext : 0 ∉ text)
    (hpath : (pathOf text).head? = some slash) :
    Completes (mshAutoCompletePath files memory) (files.completion memory.isSome) text := by
  intro line k h hk hdrop
  have hfits := h.fits
  cases memory with
  | none =>
    have hsame : files.completion (none : Option (Block UInt8)).isSome (pathOf text) = ([], []) := rfl
    rw [hsame, List.length_nil, Nat.add_zero, if_pos hfits, List.append_nil]
    exact ⟨line, rfl, h⟩
  | some fullPath =>
    have hsize : fullPath.size = dfsPathMax := hmemory fullPath rfl
    set path := pathOf text with hpathOf
    have hlength : text.length = k + path.length := by
      rw [← hdrop, List.length_drop]
      omega
    have hparent : (parentOf path).length + (nameOf path).length = path.length := by
      rw [← List.length_append, parentOf_append_nameOf]
    have hpos : 0 < path.length := by
      rw [List.length_pos_iff]
      rintro hnil
      rw [hnil] at hpath
      cases hpath
    have hnul : 0 ∉ path := fun hmem ↦ htext (List.mem_of_mem_drop (hdrop ▸ hmem))
    have hfirst : line.read k = .ok slash := by
      have hchar : text[k] = slash := by
        rw [← hdrop, List.head?_drop, List.getElem?_eq_getElem (by omega)] at hpath
        exact Option.some.inj hpath
      rw [h.read_inside (by omega), hchar]
    have hread : cString line k = .ok path := by
      rw [h.cString hk, hdrop, takeWhile_ne_zero hnul]
    have hindex : (behindSlash none k path).getD k = k + (parentOf path).length := by
      rw [behindSlash_eq hpath, Option.getD_some]
    have hload : line.load k (k + (parentOf path).length - k) = .ok (parentOf path) := by
      rw [Nat.add_sub_cancel_left, h.load_inside (by omega), hdrop, take_parentOf]
    have hdirectory : 0 ∉ parentOf path := fun hmem ↦
      hnul ((parentOf_append_nameOf path) ▸ List.mem_append_left _ hmem)
    have hname : text.drop (k + (parentOf path).length) = nameOf path := by
      rw [← List.drop_drop, hdrop, drop_parentOf]
    obtain ⟨empty, hempty, hemptySize, hnothing⟩ :=
      @HoldsString.of_write _ _ fullPath (by rw [hsize]; decide)
    obtain ⟨full, hfull, hfullSize, hholds⟩ := HoldsString.of_store hdirectory
      (show ((parentOf path).length : ℤ) < empty.size by
        rw [hemptySize, hsize]
        have hcmd : finshCmdSize ≤ dfsPathMax := by decide
        omega)
    rw [mshAutoCompletePath]
    simp only
    rw [hfirst, ok_bind, if_neg (not_not.mpr rfl), if_neg (not_not.mpr rfl), hempty, ok_bind, hread,
      ok_bind, hindex, hload, ok_bind, hnothing.cString, ok_bind, List.length_nil, Int.natCast_zero,
      hfull, ok_bind, hholds.cString, ok_bind, FileSystem.completion, Option.isSome_some, if_pos rfl]
    cases files (parentOf path) with
    | none =>
      rw [Option.elim_none, List.length_nil, Nat.add_zero, if_pos hfits, List.append_nil]
      exact ⟨line, rfl, h⟩
    | some directory =>
      have hcall := @completeName_eq text _ line directory full _
        (hfullSize.trans (hemptySize.trans hsize)) h htext (by omega) hname
      rw [Option.elim_some]
      simp only
      by_cases hroom : text.length + (directory.added (nameOf path)).length < finshCmdSize
      · rw [if_pos hroom] at hcall ⊢
        obtain ⟨next, hnext, hpadded⟩ := hcall
        rw [hnext]
        exact ⟨next, rfl, hpadded⟩
      · rw [if_neg hroom] at hcall ⊢
        rw [hcall]
        rfl

/-- **Any other path.** The block of `rt_malloc` is read as it is. Where it holds no string, or an
empty one, it is read outside of its bounds. -/
theorem mshAutoCompletePath_relative (files : FileSystem) {fullPath : Block UInt8}
    (hsize : fullPath.size = dfsPathMax) (hfresh : fullPath.cell 0 = 0 ∨ Unterminated fullPath)
    (h : Padded finshCmdSize text line) {k : ℕ} (hk : k < text.length) (hfirst : text[k] ≠ slash) :
    mshAutoCompletePath files (some fullPath) line k = .error .outOfBounds := by
  have hworking : workingPath fullPath = .error .outOfBounds := by
    rw [workingPath]
    rcases hfresh with hempty | hendless
    · have hstring : HoldsString [] fullPath := .nil (by rw [hsize]; decide) hempty
      rw [hstring.cString, ok_bind, Block.read, if_neg fun hboth ↦ absurd hboth.1 (by decide)]
      rfl
    · have hstring := @Unterminated.cString _ _ _ fullPath 0 hendless (by rw [hsize]; decide)
      rw [Int.natCast_zero] at hstring
      rw [hstring]
      rfl
  rw [mshAutoCompletePath]
  simp only
  rw [h.read_inside hk, ok_bind, if_pos hfirst, hworking]
  rfl

theorem completion_no_nul (files : FileSystem) (memory : Bool) (path : Text) :
    0 ∉ (files.completion memory path).2 := by
  rw [FileSystem.completion]
  split_ifs
  · cases files (parentOf path) with
    | none => exact List.not_mem_nil
    | some directory => exact directory.added_no_nul
  · exact List.not_mem_nil

/-! ## The whole line -/

/-- The line in front of the name that is completed. -/
def lineBefore (text : Text) : Text := text.take (text.length - (nameOf (pathOf text)).length)

theorem lineBefore_append (text : Text) : lineBefore text ++ nameOf (pathOf text) = text := by
  have hsuffix : nameOf (pathOf text) <:+ text :=
    (List.rtakeWhile_suffix _ _).trans
      ((List.rtakeWhile_suffix _ _).trans (List.tail_suffix text))
  rw [lineBefore]
  generalize nameOf (pathOf text) = name at hsuffix ⊢
  obtain ⟨front, rfl⟩ := hsuffix
  rw [List.length_append, Nat.add_sub_cancel, List.take_left]

/-- With a path to complete, the line becomes the longest that all the lines begin with in which an
entry of the directory stands for the name. -/
theorem completePathOf_isLongest {files : FileSystem} {directory : Directory}
    (hspace : 0x20 ∈ text.tail) (hfiles : files (parentOf (pathOf text)) = some directory)
    (hname : nameOf (pathOf text) ≠ [])
    (hentries : directory.candidates (nameOf (pathOf text)) ≠ []) :
    IsLongestPrefix (completePathOf (files.completion true) text)
      ((directory.candidates (nameOf (pathOf text))).map (lineBefore text ++ ·)) := by
  have hadded : (files.completion true (pathOf text)).2 = directory.added (nameOf (pathOf text)) := by
    rw [FileSystem.completion, if_pos rfl, hfiles, Option.elim_some]
  have hline : completePathOf (files.completion true) text =
      lineBefore text ++ directory.completed (nameOf (pathOf text)) := by
    calc
      completePathOf (files.completion true) text =
          text ++ directory.added (nameOf (pathOf text)) := by
        rw [completePathOf, if_pos hspace, hadded]
      _ = lineBefore text ++ (nameOf (pathOf text) ++ directory.added (nameOf (pathOf text))) := by
        rw [← List.append_assoc, lineBefore_append]
      _ = lineBefore text ++ directory.completed (nameOf (pathOf text)) := by
        rw [directory.append_added hname]
  rw [hline]
  exact (directory.completed_isLongest hentries).append_left hentries _

/-- Without a path, memory, a directory, a name or an entry for it the line stays as it is. -/
theorem completePathOf_eq_self {files : FileSystem} {memory : Bool}
    (h : ∀ directory, memory → 0x20 ∈ text.tail → files (parentOf (pathOf text)) = some directory →
      nameOf (pathOf text) ≠ [] → directory.candidates (nameOf (pathOf text)) = []) :
    completePathOf (files.completion memory) text = text := by
  rw [completePathOf]
  split_ifs with hspace
  · rw [FileSystem.completion]
    split_ifs with hmemory
    · cases hfiles : files (parentOf (pathOf text)) with
      | none => exact List.append_nil text
      | some directory =>
        rw [Option.elim_some]
        simp only
        rw [Directory.added]
        split_ifs with hname
        · exact List.append_nil text
        · rw [Directory.completed, h directory hmemory hspace hfiles hname]
          simp only
          rw [List.drop_length, List.append_nil]
    · exact List.append_nil text
  · rfl

theorem completeLine_isLongest {table : List FinshSyscall} {completePath : PathCompletion}
    (hne : text ≠ []) (h : candidates table (completePathOf completePath text) ≠ []) :
    IsLongestPrefix (completeLine table completePath text)
      (candidates table (completePathOf completePath text)) := by
  rw [completeLine, if_neg hne, completeText]
  cases hfound : candidates table (completePathOf completePath text) with
  | nil => exact absurd hfound h
  | cons first others => exact commonPrefix_isLongest first others

/-- **The tab key.** For a line without a path, or with one that begins with a slash. Where the line
with its path and the result have room, the path becomes the longest that the entries of its
directory allow, and the line then the longest text that all the commands which begin like it begin
with; without an entry or a command that fits they stay as they are. In every other case the
function writes behind the line or leaves it without a NUL. -/
theorem mshAutoComplete_longest {table : List FinshSyscall} (files : FileSystem)
    {memory : Option (Block UInt8)} (hmemory : ∀ fullPath ∈ memory, fullPath.size = dfsPathMax)
    (h : Padded finshCmdSize text line) (htext : 0 ∉ text) (hne : text ≠ [])
    (hpath : 0x20 ∈ text.tail → (pathOf text).head? = some slash) :
    let path := completePathOf (files.completion memory.isSome) text
    let completed := completeLine table (files.completion memory.isSome) text
    (if path.length < finshCmdSize ∧ completed.length < finshCmdSize then
      ∃ next printed, mshAutoComplete table (mshAutoCompletePath files memory) line =
        .ok (next, printed) ∧ Padded finshCmdSize completed next
    else mshAutoComplete table (mshAutoCompletePath files memory) line = .error .outOfBounds ∨
      ∃ next printed, mshAutoComplete table (mshAutoCompletePath files memory) line =
        .ok (next, printed) ∧ Unterminated next) ∧
    (∀ directory, memory.isSome → 0x20 ∈ text.tail →
      files (parentOf (pathOf text)) = some directory → nameOf (pathOf text) ≠ [] →
      directory.candidates (nameOf (pathOf text)) ≠ [] →
      IsLongestPrefix path
        ((directory.candidates (nameOf (pathOf text))).map (lineBefore text ++ ·))) ∧
    ((∀ directory, memory.isSome → 0x20 ∈ text.tail →
      files (parentOf (pathOf text)) = some directory → nameOf (pathOf text) ≠ [] →
      directory.candidates (nameOf (pathOf text)) = []) → path = text) ∧
    (candidates table path = [] → completed = path) ∧
    (candidates table path ≠ [] → IsLongestPrefix completed (candidates table path)) := by
  have hrun := @mshAutoComplete_eq text table _ _
    (fun hspace ↦ mshAutoCompletePath_completes files hmemory htext (hpath hspace))
    (completion_no_nul files memory.isSome _) line h htext hne
  refine ⟨?_, ?_, completePathOf_eq_self, ?_, completeLine_isLongest hne⟩
  · split_ifs with hroom
    · rw [if_pos hroom] at hrun
      obtain ⟨next, hnext, hpadded⟩ := hrun
      exact ⟨next, _, hnext, hpadded⟩
    · rwa [if_neg hroom] at hrun
  · intro directory hsome hspace hfiles hname hentries
    rw [hsome]
    exact completePathOf_isLongest hspace hfiles hname hentries
  · intro hnone
    rw [completeLine, if_neg hne, completeText, hnone]

/-- Where there is room, the loop of `finsh` may work with what the completion says: the line and
everything that is printed are the same. -/
theorem mshAutoComplete_completer {table : List FinshSyscall} (files : FileSystem)
    {memory : Option (Block UInt8)} (hmemory : ∀ fullPath ∈ memory, fullPath.size = dfsPathMax)
    (h : Padded finshCmdSize text line) (htext : 0 ∉ text) (hne : text ≠ [])
    (hpath : 0x20 ∈ text.tail → (pathOf text).head? = some slash)
    (hroom : (completePathOf (files.completion memory.isSome) text).length < finshCmdSize ∧
      (completeLine table (files.completion memory.isSome) text).length < finshCmdSize) :
    ∃ next other printed,
      mshAutoComplete table (mshAutoCompletePath files memory) line = .ok (next, printed) ∧
      mshAutoComplete table (files.completion memory.isSome).completer line =
        .ok (other, printed) ∧
      Padded finshCmdSize (completeLine table (files.completion memory.isSome) text) next ∧
      Padded finshCmdSize (completeLine table (files.completion memory.isSome) text) other := by
  have hcode := @mshAutoComplete_eq text table _ _
    (fun hspace ↦ mshAutoCompletePath_completes files hmemory htext (hpath hspace))
    (completion_no_nul files memory.isSome _) line h htext hne
  have hloop := @mshAutoComplete_eq text table _ _
    (fun _ ↦ completer_completes (files.completion memory.isSome) htext)
    (completion_no_nul files memory.isSome _) line h htext hne
  rw [if_pos hroom] at hcode hloop
  obtain ⟨next, hnext, hpadded⟩ := hcode
  obtain ⟨other, hother, hpadded'⟩ := hloop
  exact ⟨next, other, _, hnext, hother, hpadded, hpadded'⟩

/-- `"/dev/"` -/
def devPath : Text := [0x2f, 0x64, 0x65, 0x76, 0x2f]

/-- `/dev/` with the entries `uarths` and `uart1`. -/
def devDirectory : Directory where
  entries := [[0x75, 0x61, 0x72, 0x74, 0x68, 0x73], [0x75, 0x61, 0x72, 0x74, 0x31]]
  rewound := []
  no_nul := by decide
  short := by decide

def devFiles : FileSystem := fun path ↦ if path = devPath then some devDirectory else none

/-- `cat`, and a name in `/dev/`. -/
def catLine (name : Text) : Text := [0x63, 0x61, 0x74, 0x20] ++ devPath ++ name

/-- `cat /dev/u` becomes `cat /dev/uart`. -/
theorem mshAutoComplete_longest_uart :
    ∃ next printed, mshAutoComplete listCommands
        (mshAutoCompletePath devFiles (some ⟨dfsPathMax, fun _ ↦ 0xff⟩))
        ⟨finshCmdSize, fun k ↦ (catLine [0x75])[k.toNat]?.getD 0⟩ = .ok (next, printed) ∧
      Padded finshCmdSize (catLine [0x75, 0x61, 0x72, 0x74]) next := by
  have hrun := (@mshAutoComplete_longest (catLine [0x75])
    ⟨finshCmdSize, fun k ↦ (catLine [0x75])[k.toNat]?.getD 0⟩ listCommands devFiles
    (some ⟨dfsPathMax, fun _ ↦ 0xff⟩) (fun _ hmemory ↦ by cases hmemory; rfl)
    ⟨rfl, by decide, fun _ _ ↦ rfl⟩ (by decide) (by decide) (by decide +kernel)).1
  have hcompleted : completeLine listCommands (devFiles.completion true) (catLine [0x75]) =
      catLine [0x75, 0x61, 0x72, 0x74] := by decide +kernel
  have hroom : (completePathOf (devFiles.completion true) (catLine [0x75])).length <
      finshCmdSize := by decide +kernel
  simp only [Option.isSome_some, hcompleted] at hrun
  rwa [if_pos ⟨hroom, by decide⟩] at hrun

end K210Firmware.Shell
