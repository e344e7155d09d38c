import Mathlib.Data.List.TakeWhile
import Mathlib.Data.UInt
import Mathlib.Tactic.SplitIfs

/-!
# The words of a command line

A command line is made of words with blanks between them; a word in quotes may have blanks in it.
Arguments that are put in quotes are the words of the line they make (`words_quoteArgs`).
-/

namespace K210Firmware.Shell

/-- A C string without its NUL. -/
abbrev Text := List UInt8

/-- A character that a terminal shows as such, the end of a line, or the NUL of a text that is cut. -/
def isPlain (c : UInt8) : Bool := 0x20 ≤ c && c ≤ 0x7e || c == 0x0a || c == 0

def isBlank (c : UInt8) : Bool := c == 0x20 || c == 0x09
def quote : UInt8 := 0x22
def backslash : UInt8 := 0x5c

/-- The number of characters in front of the quote that closes a string. -/
def stringLength : Text → ℕ
  | [] => 0
  | [c] => if c = quote then 0 else 1
  | c :: d :: rest =>
      if c = quote then 0
      else if c = backslash ∧ d = quote then stringLength rest + 2
      else stringLength (d :: rest) + 1

theorem stringLength_le (text : Text) : stringLength text ≤ text.length := by
  fun_induction stringLength text with
  | case1 => exact le_rfl
  | case2 => exact Nat.zero_le _
  | case3 c h => exact le_rfl
  | case4 => exact Nat.zero_le _
  | case5 c d rest _ _ ih => simpa using ih
  | case6 c d rest _ _ ih => simpa using ih

theorem length_dropWhile_le (test : UInt8 → Bool) (text : Text) :
    (text.dropWhile test).length ≤ text.length :=
  (List.dropWhile_sublist test).length_le

/-- The words of a line: strings in quotes, and everything else up to the next blank. -/
def words (text : Text) : List Text :=
  match _h : text.dropWhile isBlank with
  | [] => []
  | c :: rest =>
      if c = quote then
        rest.take (stringLength rest) :: words (rest.drop (stringLength rest + 1))
      else
        (c :: rest.takeWhile fun c ↦ !isBlank c) :: words (rest.dropWhile fun c ↦ !isBlank c)
termination_by text.length
decreasing_by
  all_goals
    have hlength := length_dropWhile_le isBlank text
    rw [_h, List.length_cons] at hlength
  · rw [List.length_drop]
    omega
  · exact (length_dropWhile_le _ rest).trans_lt hlength

variable {rest : Text}

theorem length_dropWhile (test : UInt8 → Bool) (text : Text) :
    (text.takeWhile test).length + (text.dropWhile test).length = text.length := by
  rw [← List.length_append, List.takeWhile_append_dropWhile]

theorem words_of_nil {text : Text} (h : text.dropWhile isBlank = []) : words text = [] := by
  rw [words]
  split
  · rfl
  · next hcons =>
    rw [h] at hcons
    cases hcons

theorem words_of_cons {text : Text} {c : UInt8} (h : text.dropWhile isBlank = c :: rest) :
    words text = if c = quote then
        rest.take (stringLength rest) :: words (rest.drop (stringLength rest + 1))
      else
        (c :: rest.takeWhile fun c ↦ !isBlank c) ::
          words (rest.dropWhile fun c ↦ !isBlank c) := by
  rw [words]
  split
  · next hnil =>
    rw [h] at hnil
    cases hnil
  · next hcons =>
    rw [h] at hcons
    obtain ⟨rfl, rfl⟩ := List.cons.inj hcons
    rfl

theorem head_dropWhile {test : UInt8 → Bool} {text : Text} {c : UInt8}
    (h : text.dropWhile test = c :: rest) : test c = false := by
  have hhead := List.head?_dropWhile_not test text
  rw [h] at hhead
  simpa using hhead

theorem words_dropWhile (text : Text) : words (text.dropWhile isBlank) = words text := by
  cases hcore : text.dropWhile isBlank with
  | nil => rw [words_of_nil hcore, words_of_nil rfl]
  | cons c rest =>
    have hblank := head_dropWhile hcore
    rw [words_of_cons hcore, words_of_cons (List.dropWhile_cons_of_neg (by simp [hblank]))]

theorem words_string (text : Text) :
    words (quote :: text) =
      text.take (stringLength text) :: words (text.drop (stringLength text + 1)) := by
  rw [words_of_cons (List.dropWhile_cons_of_neg (by decide)), if_pos rfl]

theorem words_word {c : UInt8} (hblank : isBlank c = false) (hquote : c ≠ quote) (text : Text) :
    words (c :: text) = (c :: text.takeWhile fun c ↦ !isBlank c) ::
      words (text.dropWhile fun c ↦ !isBlank c) := by
  rw [words_of_cons (List.dropWhile_cons_of_neg (by simp [hblank])), if_neg hquote]

/-! ## Quoting -/

/-- A line on which every argument stands in quotes. -/
def quoteArgs (args : List Text) : Text :=
  args.flatMap fun arg ↦ quote :: (arg ++ [quote, 0x20])

/-- A text that can stand in quotes: the quote behind it closes the string. -/
def Quotable (arg : Text) : Prop := quote ∉ arg ∧ arg.getLast? ≠ some backslash

theorem stringLength_quoted {arg : Text} (harg : Quotable arg) (later : Text) :
    stringLength (arg ++ quote :: later) = arg.length := by
  induction arg with
  | nil =>
    cases later with
    | nil => rfl
    | cons d later => exact if_pos rfl
  | cons c arg ih =>
    obtain ⟨hquote, hlast⟩ := harg
    rw [List.mem_cons, not_or] at hquote
    have hfirst : c ≠ quote := Ne.symm hquote.1
    cases arg with
    | nil =>
      have hback : c ≠ backslash := by
        rintro rfl
        exact hlast rfl
      have hclose : stringLength (quote :: later) = 0 := by
        cases later with
        | nil => rfl
        | cons d later => exact if_pos rfl
      rw [List.singleton_append, stringLength, if_neg hfirst, if_neg (by tauto), hclose]
      rfl
    | cons d arg =>
      have hsecond : d ≠ quote := by
        rintro rfl
        exact hquote.2 (List.mem_cons_self ..)
      have hrest := ih ⟨hquote.2, by rwa [List.getLast?_cons_cons] at hlast⟩
      rw [List.cons_append, List.cons_append, stringLength, if_neg hfirst, if_neg (by tauto)]
      rw [List.cons_append] at hrest
      rw [hrest]
      rfl

/-- **Round trip.** Arguments in quotes are the words of their line. -/
theorem words_quoteArgs {args : List Text} (hargs : ∀ arg ∈ args, Quotable arg) :
    words (quoteArgs args) = args := by
  induction args with
  | nil => exact words_of_nil rfl
  | cons arg args ih =>
    obtain ⟨harg, hrest⟩ := List.forall_mem_cons.mp hargs
    have hline : quoteArgs (arg :: args) =
        quote :: (arg ++ quote :: (0x20 :: quoteArgs args)) := by simp [quoteArgs]
    have hblank : words (0x20 :: quoteArgs args) = words (quoteArgs args) := by
      rw [← words_dropWhile (0x20 :: _), List.dropWhile_cons_of_pos (by decide), words_dropWhile]
    have hlater : (arg ++ quote :: (0x20 :: quoteArgs args)).drop (arg.length + 1) =
        0x20 :: quoteArgs args := by simp [List.drop_append]
    rw [hline, words_string, stringLength_quoted harg, List.take_left, hlater, hblank, ih hrest]

/-- A text that stands alone as the first word of a line. -/
structure Word (text : Text) : Prop where
  no_blank : ∀ c ∈ text, isBlank c = false
  head : ∃ c, text.head? = some c ∧ c ≠ quote

/-- A word and arguments in quotes behind it. -/
def commandLine (name : Text) (args : List Text) : Text := name ++ 0x20 :: quoteArgs args

theorem words_commandLine {name : Text} {args : List Text} (hname : Word name)
    (hargs : ∀ arg ∈ args, Quotable arg) : words (commandLine name args) = name :: args := by
  obtain ⟨c, hhead, hquote⟩ := hname.head
  obtain ⟨rest, rfl⟩ := List.head?_eq_some_iff.mp hhead
  obtain ⟨hblank, hrest⟩ := List.forall_mem_cons.mp hname.no_blank
  have hall : ∀ d ∈ rest, (!isBlank d) = true := fun d hd ↦ by rw [hrest d hd]; rfl
  have htake : (rest ++ 0x20 :: quoteArgs args).takeWhile (fun c ↦ !isBlank c) = rest := by
    rw [List.takeWhile_append_of_pos hall, List.takeWhile_cons_of_neg (by decide), List.append_nil]
  have hdrop : (rest ++ 0x20 :: quoteArgs args).dropWhile (fun c ↦ !isBlank c) =
      0x20 :: quoteArgs args := by
    rw [List.dropWhile_append_of_pos hall, List.dropWhile_cons_of_neg (by decide)]
  calc
    words (c :: rest ++ 0x20 :: quoteArgs args) =
        (c :: rest) :: words (0x20 :: quoteArgs args) := by
      rw [List.cons_append, words_word hblank hquote, htake, hdrop]
    _ = (c :: rest) :: words (quoteArgs args) := by
      rw [← words_dropWhile (0x20 :: _), List.dropWhile_cons_of_pos (by decide), words_dropWhile]
    _ = (c :: rest) :: args := by rw [words_quoteArgs hargs]

end K210Firmware.Shell
