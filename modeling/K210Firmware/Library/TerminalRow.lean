import Mathlib.Data.List.Basic
import Mathlib.Data.UInt
import Mathlib.Logic.Function.Basic
import Mathlib.Tactic.SplitIfs

/-!
# The row of a terminal

What the firmware may assume of the terminal behind its console is a parameter here
(`CharTerminal`): printable characters overwrite the cell of the cursor, a NUL does nothing, a
backspace moves the cursor only, a line feed starts an empty row, and one escape sequence erases the
row. Rows are as long as what is sent to them. The lemmas follow what the row shows through the
characters that are sent.
`Row` is the simplest terminal of this kind.
-/

namespace K210Firmware.Terminal

def blank : UInt8 := 0x20

def isPrintable (c : UInt8) : Bool := 0x20 ≤ c && c ≤ 0x7e

/-- Erases the row and leaves the cursor where it is. -/
def eraseSequence : List UInt8 := [0x1b, 0x5b, 0x32, 0x4b]

/-- A character terminal. `Shows screen text column` says that the row of the cursor shows the text
and nothing behind it, and that the cursor is at the column. -/
structure CharTerminal (Screen : Type*) where
  receive : Screen → UInt8 → Screen
  Shows : Screen → List UInt8 → ℕ → Prop
  /-- Blanks at the end cannot be seen. -/
  shows_blank {screen : Screen} {text : List UInt8} {column : ℕ} :
    Shows screen (text ++ [blank]) column ↔ Shows screen text column
  /-- A printable character on the cell of the cursor. -/
  overwrite {screen : Screen} {front back : List UInt8} {old c : UInt8} (hc : isPrintable c) :
    Shows screen (front ++ old :: back) front.length →
      Shows (receive screen c) (front ++ c :: back) (front.length + 1)
  null {screen : Screen} {text : List UInt8} {column : ℕ} :
    Shows screen text column → Shows (receive screen 0) text column
  backspace {screen : Screen} {text : List UInt8} {column : ℕ} :
    Shows screen text column → Shows (receive screen 0x08) text (column - 1)
  feed {screen : Screen} {text : List UInt8} {column : ℕ} :
    Shows screen text column → Shows (receive screen 0x0a) [] 0
  /-- The row is erased and the cursor taken to its beginning. -/
  erase {screen : Screen} {text : List UInt8} {column : ℕ} :
    Shows screen text column → Shows ((eraseSequence ++ [0x0d]).foldl receive screen) [] 0

namespace CharTerminal

variable {Screen : Type*} (terminal : CharTerminal Screen) {screen : Screen}
  {text sent : List UInt8} {column : ℕ} {c : UInt8}

def receiveAll (screen : Screen) (sent : List UInt8) : Screen := sent.foldl terminal.receive screen

@[simp]
theorem receiveAll_nil : terminal.receiveAll screen [] = screen := rfl

theorem receiveAll_cons :
    terminal.receiveAll screen (c :: sent) =
      terminal.receiveAll (terminal.receive screen c) sent := rfl

theorem receiveAll_append (others : List UInt8) :
    terminal.receiveAll screen (sent ++ others) =
      terminal.receiveAll (terminal.receiveAll screen sent) others :=
  List.foldl_append

variable {terminal}

/-- A character behind the text. -/
theorem Shows.put_end (h : terminal.Shows screen text text.length) (hc : isPrintable c) :
    terminal.Shows (terminal.receive screen c) (text ++ [c]) (text ++ [c]).length := by
  have hover := terminal.overwrite hc (terminal.shows_blank.mpr h)
  rwa [List.length_append]

/-- Printable characters over those of the text. -/
theorem Shows.overwrite {front old back : List UInt8}
    (h : terminal.Shows screen (front ++ old ++ back) front.length)
    (hlength : old.length = sent.length) (hsent : ∀ c ∈ sent, isPrintable c) :
    terminal.Shows (terminal.receiveAll screen sent) (front ++ sent ++ back)
      (front ++ sent).length := by
  induction sent generalizing screen front old with
  | nil =>
    rw [List.eq_nil_of_length_eq_zero hlength, List.append_nil] at h
    rwa [List.append_nil]
  | cons c sent ih =>
    obtain ⟨hc, hrest⟩ := List.forall_mem_cons.mp hsent
    cases old with
    | nil => cases hlength
    | cons d old =>
      rw [List.append_assoc, List.cons_append] at h
      have hover := terminal.overwrite hc h
      have hnext := @ih (terminal.receive screen c) (front ++ [c]) old
        (by simpa using hover) (by simpa using hlength) hrest
      rw [receiveAll_cons]
      simpa using hnext

/-- Printable characters behind the text. -/
theorem Shows.write_end (h : terminal.Shows screen text text.length)
    (hsent : ∀ c ∈ sent, isPrintable c) :
    terminal.Shows (terminal.receiveAll screen sent) (text ++ sent) (text ++ sent).length := by
  induction sent generalizing screen text with
  | nil => rwa [List.append_nil]
  | cons c sent ih =>
    obtain ⟨hc, hrest⟩ := List.forall_mem_cons.mp hsent
    have hnext := ih (Shows.put_end h hc) hrest
    rw [receiveAll_cons]
    simpa using hnext

theorem Shows.backspaces (h : terminal.Shows screen text column) (count : ℕ) :
    terminal.Shows (terminal.receiveAll screen (List.replicate count 0x08)) text
      (column - count) := by
  induction count generalizing screen column with
  | zero => exact h
  | succ count ih =>
    have hnext := ih (terminal.backspace h)
    rwa [Nat.sub_sub, Nat.add_comm] at hnext

/-- Text with line feeds and NULs leaves the cursor behind the last characters. -/
theorem Shows.write_plain (h : terminal.Shows screen text text.length)
    (hsent : ∀ c ∈ sent, isPrintable c ∨ c = 0x0a ∨ c = 0) :
    ∃ last, terminal.Shows (terminal.receiveAll screen sent) last last.length := by
  induction sent generalizing screen text with
  | nil => exact ⟨text, h⟩
  | cons c sent ih =>
    obtain ⟨hc, hrest⟩ := List.forall_mem_cons.mp hsent
    rw [receiveAll_cons]
    rcases hc with hc | rfl | rfl
    · exact ih (Shows.put_end h hc) hrest
    · exact @ih _ [] (terminal.feed h) hrest
    · exact ih (terminal.null h) hrest

end CharTerminal

/-! ## A row without an end -/

@[ext]
structure Row where
  cells : ℕ → UInt8
  column : ℕ
  /-- What has come of an escape sequence. -/
  escape : List UInt8

namespace Row

/-- A character outside of an escape sequence. -/
def put (row : Row) (c : UInt8) : Row :=
  if c = 0 then row
  else if c = 0x1b then { row with escape := [c] }
  else if c = 0x08 then { row with column := row.column - 1 }
  else if c = 0x0d then { row with column := 0 }
  else if c = 0x0a then { row with cells := fun _ ↦ blank, column := 0 }
  else { row with cells := Function.update row.cells row.column c, column := row.column + 1 }

def receive (row : Row) (c : UInt8) : Row :=
  if row.escape = [] then row.put c
  else
    let escape := row.escape ++ [c]
    if escape = eraseSequence then { row with cells := fun _ ↦ blank, escape := [] }
    else if escape <+: eraseSequence then { row with escape }
    else { row with escape := [] }

/-- The text, with nothing behind it, and the cursor. -/
def shows (text : List UInt8) (column : ℕ) : Row := ⟨fun k ↦ text[k]?.getD blank, column, []⟩

variable {row : Row} {text : List UInt8} {column : ℕ} {c : UInt8}

/-- Blanks at the end cannot be seen. -/
theorem shows_blank : shows (text ++ [blank]) column = shows text column := by
  ext k
  · simp only [shows]
    rcases Nat.lt_trichotomy k text.length with hlt | rfl | hgt
    · rw [List.getElem?_append_left hlt]
    · simp
    · rw [List.getElem?_eq_none (by simp; omega), List.getElem?_eq_none hgt.le]
  · rfl
  · rfl

/-- A printable character is no control character. -/
theorem put_printable (hc : isPrintable c) :
    row.put c = { row with
      cells := Function.update row.cells row.column c, column := row.column + 1 } := by
  have hnull : c ≠ 0 := by rintro rfl; cases hc
  have hescape : c ≠ 0x1b := by rintro rfl; cases hc
  have hback : c ≠ 0x08 := by rintro rfl; cases hc
  have hreturn : c ≠ 0x0d := by rintro rfl; cases hc
  have hfeed : c ≠ 0x0a := by rintro rfl; cases hc
  rw [put, if_neg hnull, if_neg hescape, if_neg hback, if_neg hreturn, if_neg hfeed]

/-- A character on the cell of the cursor. -/
theorem receive_over {front back : List UInt8} {old : UInt8} (hc : isPrintable c) :
    (shows (front ++ old :: back) front.length).receive c =
      shows (front ++ c :: back) (front.length + 1) := by
  rw [receive, if_pos (show (shows _ _).escape = [] from rfl), put_printable hc]
  ext k
  · simp only [shows]
    rcases eq_or_ne k front.length with rfl | hne
    · rw [Function.update_self, List.getElem?_append_right le_rfl, Nat.sub_self]
      rfl
    · rw [Function.update_of_ne hne]
      rcases Nat.lt_or_gt_of_ne hne with hlt | hgt
      · rw [List.getElem?_append_left hlt, List.getElem?_append_left hlt]
      · obtain ⟨j, hj⟩ : ∃ j, k - front.length = j + 1 := ⟨k - front.length - 1, by omega⟩
        rw [List.getElem?_append_right hgt.le, List.getElem?_append_right hgt.le, hj]
        rfl
  · rfl
  · rfl

def terminal : CharTerminal Row where
  receive := receive
  Shows row text column := row = shows text column
  shows_blank := by
    intro row text column
    rw [shows_blank]
  overwrite hc h := h ▸ receive_over hc
  null := by
    rintro _ text column rfl
    rfl
  backspace h := h ▸ rfl
  feed h := h ▸ rfl
  erase h := h ▸ rfl

end Row

end K210Firmware.Terminal
