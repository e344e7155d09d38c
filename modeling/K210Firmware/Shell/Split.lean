import K210Firmware.Library.Padded
import K210Firmware.Shell.Words

/-!
# Splitting a command line in place

`msh_split` takes a command line apart where it stands: the blanks behind the words and the closing
quotes become NULs, and the arguments are pointers into the line. Read back as C strings they are
the first ten words of the line (`mshSplit_words`).
-/

namespace K210Firmware.Shell

open Memory CString

def finshCmdSize : ℕ := 80
def finshArgMax : ℕ := 10

/-- `RT_CONSOLEBUF_SIZE` -/
def rtConsolebufSize : ℕ := 128

/-- What `rt_kprintf` writes to the console for a formatted string. `rt_vsnprintf` is given one byte
less than the buffer has, and the NUL behind a string that it cuts is written too. -/
def rtKprintf (string : Text) : Text :=
  if string.length < rtConsolebufSize - 1 then string
  else string.take (rtConsolebufSize - 2) ++ [0]

theorem rtKprintf_eq {string : Text} (h : string.length < rtConsolebufSize - 1) :
    rtKprintf string = string :=
  if_pos h

theorem rtKprintf_prints {Prints : UInt8 → Prop} (hplain : ∀ c, isPlain c → Prints c)
    {string : Text} (hstring : ∀ c ∈ string, Prints c) : ∀ c ∈ rtKprintf string, Prints c := by
  rw [rtKprintf]
  split_ifs
  · exact hstring
  · refine List.forall_mem_append.mpr ⟨fun c hc ↦ hstring c (List.mem_of_mem_take hc), ?_⟩
    exact List.forall_mem_singleton.mpr (hplain 0 rfl)

/-- The first loop of `msh_split`. -/
def stripBlanks (cmd : Block UInt8) (stop ptr : ℕ) : Except Fault (Block UInt8 × ℕ) := do
  let c ← cmd.read ptr
  if _h : isBlank c ∧ ptr < stop then
    let cmd ← cmd.write ptr 0
    stripBlanks cmd stop (ptr + 1)
  else return (cmd, ptr)
termination_by stop - ptr

/-- The loop that skips a string. -/
def skipString (cmd : Block UInt8) (stop ptr : ℕ) : Except Fault ℕ := do
  let c ← cmd.read ptr
  if _h : c ≠ quote ∧ ptr < stop then
    if c = backslash then
      let next ← cmd.read (ptr + 1)
      if next = quote then skipString cmd stop (ptr + 2) else skipString cmd stop (ptr + 1)
    else skipString cmd stop (ptr + 1)
  else return ptr
termination_by stop - ptr

/-- `"Too many args ! We only Use:\n"` -/
def tooManyArgs : Text :=
  "Too many args ! We only Use:\n".toList.map fun c ↦ c.toNat.toUInt8

/-- What is printed when there are more words than `FINSH_ARG_MAX`. -/
def tooManyReport (strings : List Text) : Text :=
  rtKprintf tooManyArgs ++ strings.flatMap (fun string ↦ rtKprintf (string ++ [0x20])) ++
    rtKprintf [0x0a]

/-- The handling of one word: the line, the argument and where the next word is looked for, if the
line does not end here. -/
def handleWord (cmd : Block UInt8) (stop ptr : ℕ) : Except Fault (Block UInt8 × ℕ × Option ℕ) := do
  let c ← cmd.read ptr
  if c = quote then
    let close ← skipString cmd stop (ptr + 1)
    if stop ≤ close then return (cmd, ptr + 1, none)
    else
      let cmd ← cmd.write close 0
      return (cmd, ptr + 1, some (close + 1))
  else
    let next ← skipWhile (fun c ↦ !isBlank c) cmd stop ptr
    if stop ≤ next then return (cmd, ptr, none)
    else return (cmd, ptr, some next)

/-- The outer loop of `msh_split`. The pointer and the position advance together, so the position
is below the length as long as the pointer is in front of `stop`. -/
def mshSplitLoop : ℕ → Block UInt8 → ℕ → ℕ → List ℕ → Except Fault (Block UInt8 × List ℕ × Text)
  | 0, _, _, _, _ => .error .divergence
  | fuel + 1, cmd, stop, ptr, argv =>
      if ptr < stop then do
        let (cmd, ptr) ← stripBlanks cmd stop ptr
        if finshArgMax ≤ argv.length then
          let strings ← argv.mapM fun arg : ℕ ↦ cString cmd arg
          return (cmd, argv, tooManyReport strings)
        else if stop ≤ ptr then return (cmd, argv, [])
        else
          let (cmd, arg, next) ← handleWord cmd stop ptr
          match next with
          | none => return (cmd, argv ++ [arg], [])
          | some ptr => mshSplitLoop fuel cmd stop ptr (argv ++ [arg])
      else return (cmd, argv, [])

/-- The line after `msh_split`, the arguments and what was printed. -/
def mshSplit (cmd : Block UInt8) (start length : ℕ) : Except Fault (Block UInt8 × List ℕ × Text) :=
  mshSplitLoop (length + 1) cmd (start + length) start []

/-! ## Splitting -/

variable {done rest : Text} {cmd : Block UInt8} {capacity stop : ℕ}

/-- A character of the line. -/
theorem read_head {c : UInt8} (h : Padded capacity (done ++ c :: rest) cmd) :
    cmd.read done.length = .ok c := by
  have hread := h.read_inside (k := done.length) (by simp)
  rw [List.getElem_append_right le_rfl] at hread
  simpa using hread

/-- The blanks are zeroed. -/
theorem stripBlanks_eq (h : Padded capacity (done ++ rest) cmd) (hstop : stop = (done ++ rest).length) :
    ∃ next, stripBlanks cmd stop done.length =
        .ok (next, done.length + (rest.takeWhile isBlank).length) ∧
      Padded capacity (done ++ List.replicate (rest.takeWhile isBlank).length 0 ++
        rest.dropWhile isBlank) next := by
  induction rest generalizing done cmd with
  | nil =>
    rw [List.append_nil] at h hstop
    refine ⟨cmd, ?_, by simpa using h⟩
    rw [stripBlanks, h.read_end, ok_bind, dif_neg (by omega)]
    rfl
  | cons c rest ih =>
    have hlength : (done ++ c :: rest).length = done.length + (rest.length + 1) := by simp
    have hfits := h.fits
    rw [stripBlanks, read_head h, ok_bind]
    by_cases hblank : isBlank c = true
    · obtain ⟨zeroed, hzeroed, hpadded⟩ := h.replace (c := 0)
      have htext : done ++ 0 :: rest = (done ++ [0]) ++ rest := by simp
      rw [htext] at hpadded
      obtain ⟨next, hnext, hlast⟩ := ih hpadded (by rw [hstop]; simp)
      rw [List.length_append, List.length_singleton] at hnext
      refine ⟨next, ?_, ?_⟩
      · rw [dif_pos ⟨hblank, by omega⟩, hzeroed, ok_bind, hnext,
          List.takeWhile_cons_of_pos hblank, List.length_cons]
        congr 2
        omega
      · rw [List.takeWhile_cons_of_pos hblank, List.dropWhile_cons_of_pos hblank, List.length_cons,
          List.replicate_succ]
        simpa using hlast
    · refine ⟨cmd, ?_, ?_⟩
      · rw [dif_neg (by tauto), List.takeWhile_cons_of_neg hblank]
        rfl
      · rw [List.takeWhile_cons_of_neg hblank, List.dropWhile_cons_of_neg hblank]
        simpa using h

/-- The loop stops at the closing quote, or at the end of the line. -/
theorem skipString_eq (h : Padded capacity (done ++ rest) cmd) (hstop : stop = (done ++ rest).length) :
    skipString cmd stop done.length = .ok (done.length + stringLength rest) := by
  fun_induction stringLength rest generalizing done with
  | case1 =>
    rw [List.append_nil] at h hstop
    rw [skipString, h.read_end, ok_bind, dif_neg (by omega)]
    rfl
  | case2 =>
    rw [skipString, read_head h, ok_bind, dif_neg (by tauto)]
    rfl
  | case3 c hc =>
    have hend := h.read_end
    rw [List.length_append, List.length_singleton, Int.natCast_add] at hend
    have hlast : skipString cmd stop (done.length + 1) = .ok (done.length + 1) := by
      rw [skipString]
      have hcast : ((done.length + 1 : ℕ) : ℤ) = done.length + (1 : ℕ) := by omega
      rw [hcast, hend, ok_bind, dif_neg (by simp [hstop])]
      rfl
    rw [skipString, read_head h, ok_bind, dif_pos ⟨hc, by simp [hstop]⟩]
    split_ifs with hescape
    · have hcast : (done.length : ℤ) + 1 = done.length + (1 : ℕ) := by omega
      rw [hcast, hend, ok_bind, if_neg (by decide), hlast]
    · exact hlast
  | case4 d rest =>
    rw [skipString, read_head h, ok_bind, dif_neg (by tauto)]
    rfl
  | case5 c d rest hc hescape ih =>
    obtain ⟨rfl, rfl⟩ := hescape
    have hnext : done ++ backslash :: quote :: rest = (done ++ [backslash, quote]) ++ rest := by simp
    have hmiddle : done ++ backslash :: quote :: rest = (done ++ [backslash]) ++ quote :: rest := by
      simp
    have hquote := read_head (hmiddle ▸ h)
    rw [List.length_append, List.length_singleton] at hquote
    have hrest := ih (hnext ▸ h) (hnext ▸ hstop)
    rw [List.length_append] at hrest
    rw [skipString, read_head h, ok_bind, dif_pos ⟨hc, by simp [hstop]⟩, if_pos rfl]
    have hcast : (done.length : ℤ) + 1 = ((done.length + 1 : ℕ) : ℤ) := by omega
    rw [hcast, hquote, ok_bind, if_pos rfl]
    refine hrest.trans ?_
    congr 1
    simp only [List.length_cons, List.length_nil]
    omega
  | case6 c d rest hc hescape ih =>
    have hnext : done ++ c :: d :: rest = (done ++ [c]) ++ d :: rest := by simp
    have hread := read_head (hnext ▸ h)
    have hrest := ih (hnext ▸ h) (hnext ▸ hstop)
    rw [List.length_append, List.length_singleton] at hread hrest
    have hsum : done.length + 1 + stringLength (d :: rest) =
        done.length + (stringLength (d :: rest) + 1) := by omega
    rw [skipString, read_head h, ok_bind, dif_pos ⟨hc, by simp [hstop]⟩]
    split_ifs with hback
    · have hcast : (done.length : ℤ) + 1 = ((done.length + 1 : ℕ) : ℤ) := by omega
      rw [hcast, hread, ok_bind, if_neg (by tauto), hrest, hsum]
    · rw [hrest, hsum]

/-- A string that ends at a NUL or with the line. -/
theorem cString_eq {text : Text} (h : Padded capacity (done ++ text ++ rest) cmd) (htext : 0 ∉ text)
    (hend : ∀ c ∈ rest.head?, c = 0) : cString cmd done.length = .ok text := by
  have hstring := h.cString (k := done.length) (by simp)
  rw [List.append_assoc, List.drop_left] at hstring
  rw [hstring]
  congr 1
  cases rest with
  | nil => rw [List.append_nil, takeWhile_ne_zero htext]
  | cons c rest =>
    obtain rfl : c = 0 := hend c rfl
    rw [List.takeWhile_append_of_pos, List.takeWhile_cons_of_neg (by simp), List.append_nil]
    intro c hc
    have hne : c ≠ 0 := by
      rintro rfl
      exact htext hc
    simpa using hne

/-- What the handling of a word has found: where it stands, and either the end of the line or the
rest, with a NUL or a blank in front of it. -/
structure WordAt (capacity : ℕ) (done rest : Text) (next : Block UInt8) (arg : ℕ)
    (place : Option ℕ) (front word mark later : Text) : Prop where
  arg_eq : arg = (done ++ front).length
  words_eq : words rest = word :: words later
  no_nul : 0 ∉ word
  padded : Padded capacity (done ++ (front ++ word ++ mark) ++ later) next
  later_mem : ∀ c ∈ later, c ∈ rest
  front_mem : ∀ c ∈ front ++ word, c ∈ rest
  mark_zero : ∀ c ∈ mark, c = 0
  length_eq : (front ++ word ++ mark ++ later).length = rest.length
  ends : place = none ∧ mark = [] ∧ later = [] ∨
    place = some (done ++ (front ++ word ++ mark)).length ∧ later.length < rest.length ∧
      (mark = [0] ∨ mark = [] ∧ ∃ c ∈ later.head?, isBlank c)

theorem handleWord_string {text : Text} (h : Padded capacity (done ++ quote :: text) cmd)
    (htext : 0 ∉ text) (hstop : stop = (done ++ quote :: text).length) :
    ∃ next arg place mark later, handleWord cmd stop done.length = .ok (next, arg, place) ∧
      WordAt capacity done (quote :: text) next arg place [quote]
        (text.take (stringLength text)) mark later := by
  have hline : done ++ quote :: text = (done ++ [quote]) ++ text := by simp
  have hskip := skipString_eq (hline ▸ h) (hline ▸ hstop)
  rw [List.length_append, List.length_singleton] at hskip
  have hle := stringLength_le text
  have hlength : stop = done.length + (text.length + 1) := by rw [hstop]; simp
  have hword : 0 ∉ text.take (stringLength text) := fun hmem ↦ htext (List.mem_of_mem_take hmem)
  have hfront : ∀ c ∈ [quote] ++ text.take (stringLength text), c ∈ quote :: text :=
    ((List.take_sublist _ _).cons_cons quote).subset
  rw [handleWord, read_head h, ok_bind, if_pos rfl, hskip, ok_bind]
  rcases Nat.eq_or_lt_of_le hle with hall | hclosed
  · -- the line ends in the string
    rw [if_pos (by omega)]
    refine ⟨_, _, _, [], [], rfl, ?_, ?_, hword, ?_, List.forall_mem_nil _, hfront,
      List.forall_mem_nil _, ?_, .inl ⟨rfl, rfl, rfl⟩⟩
    · rw [List.length_append, List.length_singleton]
    · rw [words_string, List.drop_eq_nil_of_le (by omega)]
    · rw [List.take_of_length_le (by omega)]
      simpa using h
    · rw [List.take_of_length_le (by omega)]
      simp
  · have hsplit : done ++ quote :: text = (done ++ ([quote] ++ text.take (stringLength text))) ++
        text[stringLength text] :: text.drop (stringLength text + 1) := by simp
    have hclose : done.length + 1 + stringLength text =
        (done ++ ([quote] ++ text.take (stringLength text))).length := by
      simp only [List.length_append, List.length_singleton, List.length_take]
      omega
    obtain ⟨next, hnext, hpadded⟩ := (hsplit ▸ h).replace (c := 0)
    rw [if_neg (by omega), hclose, hnext, ok_bind]
    refine ⟨next, _, _, [0], text.drop (stringLength text + 1), rfl, ?_, words_string text,
      hword, ?_, ?_, hfront, List.forall_mem_singleton.mpr rfl, ?_, .inr ⟨?_, ?_, .inl rfl⟩⟩
    · rw [List.length_append, List.length_singleton]
    · simpa using hpadded
    · exact fun c hc ↦ List.mem_cons_of_mem _ (List.mem_of_mem_drop hc)
    · simp only [List.length_append, List.length_take, List.length_drop, List.length_cons,
        List.length_nil]
      omega
    · simp only [List.length_append, List.length_singleton]
      rfl
    · rw [List.length_drop, List.length_cons]
      omega

theorem handleWord_word {c : UInt8} {text : Text} (h : Padded capacity (done ++ c :: text) cmd)
    (htext : 0 ∉ c :: text) (hblank : isBlank c = false) (hquote : c ≠ quote)
    (hstop : stop = (done ++ c :: text).length) :
    ∃ next arg place mark later, handleWord cmd stop done.length = .ok (next, arg, place) ∧
      WordAt capacity done (c :: text) next arg place [] (c :: text.takeWhile fun c ↦ !isBlank c)
        mark later := by
  have hskip := h.skipWhile (fun c ↦ !isBlank c) (.inl hstop)
  rw [List.takeWhile_cons_of_pos (by simp [hblank]), List.length_cons] at hskip
  have hlength := length_dropWhile (fun c ↦ !isBlank c) text
  have htotal : stop = done.length + (text.length + 1) := by rw [hstop]; simp
  have hfront : ∀ d ∈ [] ++ c :: text.takeWhile fun c ↦ !isBlank c, d ∈ c :: text :=
    ((List.takeWhile_sublist _).cons_cons c).subset
  have hword : 0 ∉ c :: text.takeWhile fun c ↦ !isBlank c := fun hmem ↦ htext (hfront 0 hmem)
  have hline : done ++ ([] ++ (c :: text.takeWhile fun c ↦ !isBlank c) ++ []) ++
      (text.dropWhile fun c ↦ !isBlank c) = done ++ c :: text := by simp
  have htotal' : ([] ++ (c :: text.takeWhile fun c ↦ !isBlank c) ++ [] ++
      text.dropWhile fun c ↦ !isBlank c).length = (c :: text).length := by simp
  rw [handleWord, read_head h, ok_bind, if_neg hquote, hskip, ok_bind]
  cases hlater : text.dropWhile fun c ↦ !isBlank c with
  | nil =>
    rw [hlater, List.length_nil] at hlength
    rw [hlater] at hline htotal'
    rw [if_pos (by omega)]
    refine ⟨_, _, _, [], [], rfl, ?_, ?_, hword, ?_, List.forall_mem_nil _, hfront,
      List.forall_mem_nil _, htotal', .inl ⟨rfl, rfl, rfl⟩⟩
    · rw [List.append_nil]
    · rw [words_word hblank hquote, hlater]
    · rw [hline]
      exact h
  | cons d later =>
    rw [hlater, List.length_cons] at hlength
    rw [hlater] at hline htotal'
    rw [if_neg (by omega)]
    refine ⟨_, _, _, [], d :: later, rfl, ?_, ?_, hword, ?_, ?_, hfront,
      List.forall_mem_nil _, htotal', .inr ⟨?_, ?_, .inr ⟨rfl, d, rfl, ?_⟩⟩⟩
    · rw [List.append_nil]
    · rw [words_word hblank hquote, hlater]
    · rw [hline]
      exact h
    · intro e he
      rw [← hlater] at he
      exact List.mem_cons_of_mem _ ((List.dropWhile_sublist _).mem he)
    · simp
    · rw [List.length_cons, List.length_cons]
      omega
    · simpa using head_dropWhile hlater

/-- **One word.** -/
theorem handleWord_at {c : UInt8} {text : Text} (h : Padded capacity (done ++ c :: text) cmd)
    (htext : 0 ∉ c :: text) (hblank : isBlank c = false)
    (hstop : stop = (done ++ c :: text).length) :
    ∃ next arg place front word mark later,
      handleWord cmd stop done.length = .ok (next, arg, place) ∧
        WordAt capacity done (c :: text) next arg place front word mark later := by
  rcases eq_or_ne c quote with rfl | hquote
  · have hstring : 0 ∉ text := fun hmem ↦ htext (List.mem_cons_of_mem _ hmem)
    obtain ⟨next, arg, place, mark, later, hat⟩ := handleWord_string h hstring hstop
    exact ⟨next, arg, place, _, _, mark, later, hat⟩
  · obtain ⟨next, arg, place, mark, later, hat⟩ := handleWord_word h htext hblank hquote hstop
    exact ⟨next, arg, place, _, _, mark, later, hat⟩

/-- The characters of the line behind the word are characters of the line. -/
theorem WordAt.chars {Prints : UInt8 → Prop} {next : Block UInt8} {arg : ℕ} {place : Option ℕ}
    {front word mark later : Text}
    (h : WordAt capacity done rest next arg place front word mark later)
    (hprints : ∀ c ∈ done ++ rest, c ≠ 0 → Prints c) :
    ∀ c ∈ done ++ (front ++ word ++ mark) ++ later, c ≠ 0 → Prints c := by
  intro c hc hne
  rcases List.mem_append.mp hc with hc | hc
  · rcases List.mem_append.mp hc with hc | hc
    · exact hprints c (List.mem_append_left _ hc) hne
    · rcases List.mem_append.mp hc with hc | hc
      · exact hprints c (List.mem_append_right _ (h.front_mem c hc)) hne
      · exact absurd (h.mark_zero c hc) hne
  · exact hprints c (List.mem_append_right _ (h.later_mem c hc)) hne

/-- What splitting the rest of a line leads to: the arguments read back as its next words, a blank
in front of it has become a NUL, and what was printed has a property of the characters. -/
structure SplitsTo (capacity : ℕ) (Prints : UInt8 → Prop) (done rest : Text) (argv : List ℕ)
    (next : Block UInt8) (tail : Text) (args : List ℕ) (printed : Text) : Prop where
  padded : Padded capacity (done ++ tail) next
  strings : args.mapM (fun arg : ℕ ↦ cString next arg) =
    .ok ((words rest).take (finshArgMax - argv.length))
  head : ∀ c ∈ rest.head?, isBlank c → tail.head? = some 0
  prints : ∀ c ∈ printed, Prints c

/-- The message about too many words. -/
theorem prints_tooMany {Prints : UInt8 → Prop} (hplain : ∀ c, isPlain c → Prints c)
    {strings : List Text}
    (hstrings : ∀ string ∈ strings, ∀ c ∈ string, Prints c) :
    ∀ c ∈ tooManyReport strings, Prints c := by
  have htitle : ∀ c ∈ tooManyArgs, isPlain c := List.all_eq_true.mp (by decide)
  refine List.forall_mem_append.mpr ⟨List.forall_mem_append.mpr ⟨?_, fun c hc ↦ ?_⟩, ?_⟩
  · exact rtKprintf_prints hplain fun c hc ↦ hplain c (htitle c hc)
  · obtain ⟨string, hstring, hc⟩ := List.mem_flatMap.mp hc
    refine rtKprintf_prints hplain (List.forall_mem_append.mpr ⟨hstrings string hstring, ?_⟩) c hc
    exact List.forall_mem_singleton.mpr (hplain _ rfl)
  · exact rtKprintf_prints hplain (List.forall_mem_singleton.mpr (hplain _ rfl))

theorem take_args {word : Text} {rest : List Text} {argv : List ℕ} (arg : ℕ)
    (hroom : argv.length < finshArgMax) :
    (word :: rest).take (finshArgMax - argv.length) =
      word :: rest.take (finshArgMax - (argv ++ [arg]).length) := by
  obtain ⟨room, hsplit⟩ : ∃ room, finshArgMax - argv.length = room + 1 :=
    ⟨finshArgMax - argv.length - 1, by omega⟩
  rw [hsplit, List.take_succ_cons, List.length_append, List.length_singleton]
  congr 2
  omega

namespace SplitsTo

variable {Prints : UInt8 → Prop} {argv args : List ℕ} {next : Block UInt8} {tail printed : Text}

/-- Blanks in front of the words. -/
theorem strip
    (h : SplitsTo capacity Prints (done ++ List.replicate (rest.takeWhile isBlank).length 0)
      (rest.dropWhile isBlank) argv next tail args printed) :
    SplitsTo capacity Prints done rest argv next
      (List.replicate (rest.takeWhile isBlank).length 0 ++ tail) args printed where
  padded := by
    rw [← List.append_assoc]
    exact h.padded
  strings := by
    rw [h.strings, words_dropWhile]
  head c hc hblank := by
    cases rest with
    | nil => cases hc
    | cons first rest =>
      obtain rfl : first = c := Option.some.inj hc
      rw [List.takeWhile_cons_of_pos hblank]
      rfl
  prints := h.prints

/-- One more argument in front of the others: its characters are followed by a NUL or by the end of
the line. -/
theorem cons {place : Option ℕ} {cmd : Block UInt8} {front word mark later : Text} {arg : ℕ}
    (hat : WordAt capacity done rest cmd arg place front word mark later)
    (hroom : argv.length < finshArgMax) (hhead : ∀ c ∈ rest.head?, isBlank c = false)
    (h : SplitsTo capacity Prints (done ++ (front ++ word ++ mark)) later (argv ++ [arg]) next tail
      args printed)
    (hend : ∀ c ∈ (mark ++ tail).head?, c = 0) :
    SplitsTo capacity Prints done rest argv next (front ++ word ++ (mark ++ tail)) (arg :: args)
      printed where
  padded := by simpa using h.padded
  strings := by
    have hline : done ++ (front ++ word ++ mark) ++ tail = (done ++ front) ++ word ++ (mark ++ tail) :=
      by simp
    have hfirst := cString_eq (hline ▸ h.padded) hat.no_nul hend
    rw [← hat.arg_eq] at hfirst
    rw [List.mapM_cons, hfirst, ok_bind, h.strings, ok_bind, hat.words_eq, take_args arg hroom]
    rfl
  head c hc hblank := by
    rw [hhead c hc] at hblank
    cases hblank
  prints := h.prints

/-- Nothing is left to split. -/
theorem last (h : Padded capacity done next) :
    SplitsTo capacity Prints done [] argv next [] [] [] where
  padded := by rwa [List.append_nil]
  strings := by
    rw [words_of_nil rfl, List.take_nil]
    rfl
  head c hc _ := by cases hc
  prints := List.forall_mem_nil _

/-- There is room for no more arguments. -/
theorem full (h : Padded capacity (done ++ rest) next) (hroom : finshArgMax ≤ argv.length)
    (hhead : ∀ c ∈ rest.head?, isBlank c = false) (hprinted : ∀ c ∈ printed, Prints c) :
    SplitsTo capacity Prints done rest argv next rest [] printed where
  padded := h
  strings := by
    rw [Nat.sub_eq_zero_of_le hroom, List.take_zero]
    rfl
  head c hc hblank := by
    rw [hhead c hc] at hblank
    cases hblank
  prints := hprinted

end SplitsTo

theorem head_not_blank (text : Text) :
    ∀ c ∈ (text.dropWhile isBlank).head?, isBlank c = false := by
  intro c hc
  have hhead := List.head?_dropWhile_not isBlank text
  rw [Option.mem_def.mp hc] at hhead
  simpa using hhead

/-- The characters of the line when the blanks in front are NULs. -/
theorem chars_strip {Prints : UInt8 → Prop} (count : ℕ)
    (hprints : ∀ c ∈ done ++ rest, c ≠ 0 → Prints c) :
    ∀ c ∈ done ++ List.replicate count 0 ++ rest.dropWhile isBlank, c ≠ 0 → Prints c := by
  intro c hc hne
  rw [List.append_assoc, List.mem_append, List.mem_append] at hc
  rcases hc with hc | hc | hc
  · exact hprints c (List.mem_append_left _ hc) hne
  · exact absurd (List.eq_of_mem_replicate hc) hne
  · exact hprints c (List.mem_append_right _ ((List.dropWhile_sublist _).mem hc)) hne

/-- The arguments stand in front of what is left. -/
theorem WordAt.args_le {next : Block UInt8} {arg : ℕ} {place : Option ℕ}
    {front word mark later : Text} {argv : List ℕ}
    (h : WordAt capacity done rest next arg place front word mark later)
    (hargv : ∀ a ∈ argv, a ≤ done.length) :
    ∀ a ∈ argv ++ [arg], a ≤ (done ++ (front ++ word ++ mark)).length := by
  intro a ha
  rw [List.length_append]
  rcases List.mem_append.mp ha with ha | ha
  · exact (hargv a ha).trans (Nat.le_add_right ..)
  · rw [List.mem_singleton.mp ha, h.arg_eq, List.length_append]
    simp only [List.length_append]
    omega

/-- The arguments read back as strings of characters of the line. -/
theorem exists_strings {Prints : UInt8 → Prop} {line : Text} {argv : List ℕ}
    (h : Padded capacity line cmd) (hargv : ∀ arg ∈ argv, arg ≤ line.length)
    (hprints : ∀ c ∈ line, c ≠ 0 → Prints c) :
    ∃ strings, argv.mapM (fun arg : ℕ ↦ cString cmd arg) = .ok strings ∧
      ∀ string ∈ strings, ∀ c ∈ string, Prints c := by
  refine ⟨_, mapM_eq_ok fun arg harg ↦ h.cString (hargv arg harg), fun string hstring c hc ↦ ?_⟩
  obtain ⟨arg, _, rfl⟩ := List.mem_map.mp hstring
  have hne : c ≠ 0 := by simpa using List.mem_takeWhile_imp hc
  exact hprints c (List.mem_of_mem_drop ((List.takeWhile_sublist _).mem hc)) hne

section Splitting

variable {Prints : UInt8 → Prop} (hplain : ∀ c, isPlain c → Prints c)
include hplain

/-- The loop splits the rest of the line, whatever was split before. -/
theorem mshSplitLoop_splits {fuel : ℕ} {argv : List ℕ} (h : Padded capacity (done ++ rest) cmd)
    (hrest : 0 ∉ rest) (hstop : stop = (done ++ rest).length) (hfuel : rest.length < fuel)
    (hargv : ∀ arg ∈ argv, arg ≤ done.length) (hprints : ∀ c ∈ done ++ rest, c ≠ 0 → Prints c) :
    ∃ next tail args printed,
      mshSplitLoop fuel cmd stop done.length argv = .ok (next, argv ++ args, printed) ∧
      SplitsTo capacity Prints done rest argv next tail args printed := by
  induction fuel generalizing cmd done rest argv with
  | zero => omega
  | succ fuel ih =>
    rw [mshSplitLoop]
    by_cases hinside : done.length < stop
    swap
    · -- the line is used up
      obtain rfl : rest = [] := by
        rw [hstop, List.length_append] at hinside
        exact List.eq_nil_of_length_eq_zero (by omega)
      rw [List.append_nil] at h
      refine ⟨cmd, [], [], [], ?_, SplitsTo.last h⟩
      rw [if_neg hinside, List.append_nil]
      rfl
    rw [if_pos hinside]
    obtain ⟨stripped, hstripped, hpadded⟩ := stripBlanks_eq h hstop
    rw [hstripped, ok_bind]
    simp only
    set zeros := List.replicate (rest.takeWhile isBlank).length (0 : UInt8) with hzeros
    have hlength := length_dropWhile isBlank rest
    have hptr : done.length + (rest.takeWhile isBlank).length = (done ++ zeros).length := by
      rw [List.length_append, hzeros, List.length_replicate]
    have hcore : 0 ∉ rest.dropWhile isBlank :=
      fun hmem ↦ hrest ((List.dropWhile_sublist _).mem hmem)
    have hlong : (done ++ zeros ++ rest.dropWhile isBlank).length = stop := by
      rw [List.length_append, ← hptr, hstop, List.length_append]
      omega
    have hchars := chars_strip (rest.takeWhile isBlank).length hprints
    rw [← hzeros] at hchars
    have hhead := head_not_blank rest
    have hargs : ∀ arg ∈ argv, arg ≤ (done ++ zeros).length := by
      intro arg harg
      rw [← hptr]
      exact (hargv arg harg).trans (Nat.le_add_right ..)
    by_cases hroom : finshArgMax ≤ argv.length
    · -- too many words: the first ten are read back and printed
      obtain ⟨strings, hread, hstrings⟩ := exists_strings hpadded
        (fun arg harg ↦ (hargs arg harg).trans (by simp)) hchars
      refine ⟨stripped, zeros ++ rest.dropWhile isBlank, [], tooManyReport strings, ?_,
        SplitsTo.strip (SplitsTo.full hpadded hroom hhead (prints_tooMany hplain hstrings))⟩
      rw [if_pos hroom, hread, ok_bind, List.append_nil]
      rfl
    rw [if_neg hroom, hptr]
    cases hwords : rest.dropWhile isBlank with
    | nil =>
      rw [hwords, List.append_nil] at hlong hpadded
      refine ⟨stripped, zeros ++ [], [], [], ?_, SplitsTo.strip ?_⟩
      · rw [if_pos (by omega), List.append_nil]
        rfl
      · rw [hwords]
        exact SplitsTo.last hpadded
    | cons c core =>
      rw [hwords] at hlong hpadded hcore hchars hlength hhead
      have hblank := head_dropWhile hwords
      obtain ⟨next, arg, place, front, word, mark, later, hhandle, hat⟩ :=
        handleWord_at hpadded hcore hblank hlong.symm
      have hroom' : argv.length < finshArgMax := by omega
      have hsum : (done ++ zeros ++ c :: core).length =
          (done ++ zeros).length + (core.length + 1) := by
        rw [List.length_append, List.length_cons]
      rw [if_neg (by omega), hhandle, ok_bind]
      have hlater : 0 ∉ later := fun hmem ↦ hcore (hat.later_mem 0 hmem)
      rcases hat.ends with ⟨rfl, rfl, rfl⟩ | ⟨rfl, hshort, hmark⟩
      · -- the line ends with the word
        have hlast : SplitsTo capacity Prints (done ++ zeros ++ (front ++ word ++ [])) []
            (argv ++ [arg]) next [] [] [] := SplitsTo.last (by simpa using hat.padded)
        refine ⟨next, zeros ++ (front ++ word ++ []), [arg], [], rfl, SplitsTo.strip ?_⟩
        rw [hwords]
        exact SplitsTo.cons hat hroom' hhead hlast fun d hd ↦ by cases hd
      · -- the rest of the line is split behind the word
        have hcut : stop = (done ++ zeros ++ (front ++ word ++ mark) ++ later).length := by
          rw [List.append_assoc, List.length_append, hat.length_eq, ← hlong, List.length_append]
        rw [List.length_cons] at hshort hlength
        obtain ⟨last, tail, args, printed, hloop, hsplits⟩ :=
          @ih _ _ _ (argv ++ [arg]) hat.padded hlater hcut (by omega) (hat.args_le hargs)
            (hat.chars hchars)
        have hend : ∀ d ∈ (mark ++ tail).head?, d = 0 := by
          intro d hd
          rcases hmark with rfl | ⟨rfl, e, he, hblank⟩
          · exact (Option.some.inj hd).symm
          · rw [List.nil_append, hsplits.head e he hblank] at hd
            exact (Option.some.inj hd).symm
        refine ⟨last, zeros ++ (front ++ word ++ (mark ++ tail)), arg :: args, printed, ?_,
          SplitsTo.strip ?_⟩
        · simpa using hloop
        · rw [hwords]
          exact SplitsTo.cons hat hroom' hhead hsplits hend

/-- **Splitting.** The arguments of a line read back as its first words. -/
theorem mshSplit_words (h : Padded capacity (done ++ rest) cmd) (hrest : 0 ∉ rest)
    (hprints : ∀ c ∈ done ++ rest, c ≠ 0 → Prints c) :
    ∃ next tail args printed, mshSplit cmd done.length rest.length = .ok (next, args, printed) ∧
      Padded capacity (done ++ tail) next ∧
      args.mapM (fun arg : ℕ ↦ cString next arg) = .ok ((words rest).take finshArgMax) ∧
      ∀ c ∈ printed, Prints c := by
  have hstop : done.length + rest.length = (done ++ rest).length := List.length_append.symm
  obtain ⟨next, tail, args, printed, hloop, hsplits⟩ :=
    @mshSplitLoop_splits done rest cmd capacity _ Prints hplain
      (rest.length + 1) [] h hrest hstop (Nat.lt_succ_self _) (List.forall_mem_nil _) hprints
  exact ⟨next, tail, args, printed, hloop, hsplits.padded, hsplits.strings, hsplits.prints⟩

end Splitting

end K210Firmware.Shell
