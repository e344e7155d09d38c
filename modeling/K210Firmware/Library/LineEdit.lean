import Mathlib.Data.List.Destutter
import Mathlib.Data.List.DropRight

/-!
# Line editing

A line of symbols with a cursor in it, and the lines a user has entered before. What an editor
remembers of these is `recent`: the last few of them, a line that repeats the one before counted
once. `recent_concat` gives the same lines to an editor that keeps nothing but its memory.
-/

namespace K210Firmware.LineEdit

variable {Symbol : Type*}

/-- A line, parted where the cursor stands. -/
structure Cursor (Symbol : Type*) where
  before : List Symbol
  after : List Symbol
  deriving DecidableEq, Repr

namespace Cursor

variable (cursor : Cursor Symbol)

def text : List Symbol := cursor.before ++ cursor.after

/-- The cursor behind the text. -/
def ofText (text : List Symbol) : Cursor Symbol := ⟨text, []⟩

def insert (symbol : Symbol) : Cursor Symbol := ⟨cursor.before ++ [symbol], cursor.after⟩

/-- Deletes the symbol in front of the cursor. -/
def delete : Cursor Symbol := ⟨cursor.before.dropLast, cursor.after⟩

def left : Cursor Symbol :=
  ⟨cursor.before.dropLast, cursor.before.getLast?.toList ++ cursor.after⟩

def right : Cursor Symbol :=
  ⟨cursor.before ++ cursor.after.head?.toList, cursor.after.tail⟩

variable {cursor}

@[simp]
theorem ofText_text (text : List Symbol) : (ofText text).text = text := List.append_nil text

@[simp]
theorem ofText_before (text : List Symbol) : (ofText text).before = text := rfl

@[simp]
theorem ofText_after (text : List Symbol) : (ofText text).after = [] := rfl

theorem left_text : cursor.left.text = cursor.text := by
  obtain ⟨before, after⟩ := cursor
  rcases List.eq_nil_or_concat before with rfl | ⟨front, last, rfl⟩
  · rfl
  · simp [left, text]

theorem right_text : cursor.right.text = cursor.text := by
  obtain ⟨before, after⟩ := cursor
  cases after with
  | nil => simp [right, text]
  | cons head tail => simp [right, text]

end Cursor

/-! ## What was entered before -/

section Recent

theorem getLast?_rtake {limit : ℕ} (hlimit : 0 < limit) (lines : List Symbol) :
    (lines.rtake limit).getLast? = lines.getLast? := by
  rw [List.rtake_eq_reverse_take_reverse, List.getLast?_reverse, List.getLast?_eq_head?_reverse,
    List.head?_take, if_neg (by omega)]

theorem rtake_rtake_concat {limit : ℕ} (lines : List Symbol) (line : Symbol) :
    (lines.rtake limit ++ [line]).rtake limit = (lines ++ [line]).rtake limit := by
  cases limit with
  | zero => simp
  | succ limit =>
    rw [List.rtake_concat_succ, List.rtake_concat_succ, List.rtake_eq_reverse_take_reverse,
      List.rtake_eq_reverse_take_reverse, List.rtake_eq_reverse_take_reverse, List.reverse_reverse,
      List.take_take, min_eq_left (Nat.le_succ limit)]

variable [DecidableEq Symbol]

/-- A line is remembered behind the others unless it repeats the last one; only the last `limit`
lines are kept. -/
def remember (limit : ℕ) (lines : List Symbol) (line : Symbol) : List Symbol :=
  if lines.getLast? = some line then lines else (lines ++ [line]).rtake limit

/-- The last `limit` of the entered lines, without repetitions. -/
def recent (limit : ℕ) (entered : List Symbol) : List Symbol :=
  (entered.destutter (· ≠ ·)).rtake limit

theorem destutter'_concat (first line : Symbol) (lines : List Symbol) :
    (lines ++ [line]).destutter' (· ≠ ·) first =
      if (lines.destutter' (· ≠ ·) first).getLast? = some line then
        lines.destutter' (· ≠ ·) first
      else lines.destutter' (· ≠ ·) first ++ [line] := by
  induction lines generalizing first with
  | nil =>
    rcases eq_or_ne first line with rfl | hne
    · simp
    · simp [hne]
  | cons head tail ih =>
    rw [List.cons_append, List.destutter'_cons, List.destutter'_cons, ih, ih]
    rcases eq_or_ne first head with rfl | hne
    · simp
    · rw [if_pos hne, if_pos hne, List.getLast?_cons_of_ne_nil (List.destutter'_ne_nil _ _)]
      split_ifs with hlast
      · rfl
      · rfl

/-- Entering one more line. -/
theorem destutter_concat (entered : List Symbol) (line : Symbol) :
    (entered ++ [line]).destutter (· ≠ ·) =
      if (entered.destutter (· ≠ ·)).getLast? = some line then entered.destutter (· ≠ ·)
      else entered.destutter (· ≠ ·) ++ [line] := by
  cases entered with
  | nil => simp
  | cons head tail =>
    rw [List.cons_append, List.destutter_cons', List.destutter_cons']
    exact destutter'_concat head line tail

/-- **Memory.** The lines to remember follow from those that are remembered. -/
theorem recent_concat {limit : ℕ} (hlimit : 0 < limit) (entered : List Symbol) (line : Symbol) :
    recent limit (entered ++ [line]) = remember limit (recent limit entered) line := by
  rw [recent, remember, recent, destutter_concat, getLast?_rtake hlimit, rtake_rtake_concat]
  exact apply_ite (List.rtake · limit) _ _ _

theorem length_recent_le (limit : ℕ) (entered : List Symbol) :
    (recent limit entered).length ≤ limit := by
  rw [recent, List.rtake_eq_reverse_take_reverse, List.length_reverse]
  exact List.length_take_le _ _

theorem mem_of_mem_recent {limit : ℕ} {entered : List Symbol} {line : Symbol}
    (h : line ∈ recent limit entered) : line ∈ entered := by
  have hmem := List.mem_of_mem_drop h
  exact (List.destutter_sublist _ entered).mem hmem

end Recent

end K210Firmware.LineEdit
