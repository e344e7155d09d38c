import K210Firmware.Library.Decoder
import Mathlib.Tactic.SplitIfs

/-!
# The keys of the terminal and the shell's reading of them

`on_kb_value_changed` acts on the text of a button. Most texts are sent as one byte; the arrows
are sent as escape sequences of three bytes, which the input loop of the shell takes apart with a
state of its own. Every key of the three keyboard maps reads back (`inverts_of_mem_texts`).
-/

namespace K210Firmware.Terminal.Keyboard

open Decoding

/-- What the user means by a key. -/
inductive Key
  | char (c : UInt8)
  | up
  | down
  | right
  | left
  deriving DecidableEq, Repr

/-- The bytes that are sent for a key. -/
def Key.bytes : Key → List UInt8
  | char c => [c]
  | up => [0x1b, 0x5b, 0x41]
  | down => [0x1b, 0x5b, 0x42]
  | right => [0x1b, 0x5b, 0x43]
  | left => [0x1b, 0x5b, 0x44]

/-! ## The buttons -/

/-- The text of a button, a C string. -/
abbrev Text := List UInt8

def ascii (characters : List Char) : Text := characters.map fun c ↦ c.toNat.toUInt8

def lvSymbolClose : Text := [0xef, 0x80, 0x8d]
def lvSymbolLeft : Text := [0xef, 0x81, 0x93]
def lvSymbolRight : Text := [0xef, 0x81, 0x94]
def lvSymbolUp : Text := [0xef, 0x81, 0xb7]
def lvSymbolDown : Text := [0xef, 0x81, 0xb8]
def lvSymbolBackspace : Text := [0xef, 0x95, 0x9a]
def lvSymbolNewLine : Text := [0xef, 0xa2, 0xa2]

/-- A row of buttons with one character each. -/
def row (characters : List Char) : List Text := characters.map fun c ↦ ascii [c]

/-- The last row of every map. -/
def bottomRow : List Text :=
  [lvSymbolClose, lvSymbolLeft, lvSymbolUp, ascii [' '], lvSymbolDown, lvSymbolRight,
    ascii ['T', 'a', 'b']]

/-- `kb_map_lc`, `kb_map_uc` and `kb_map_spec`. -/
inductive KbMap
  | lc
  | uc
  | spec
  deriving DecidableEq, Repr

/-- The texts of the buttons of a map, row by row. -/
def KbMap.texts : KbMap → List Text
  | lc =>
      ascii ['1', '#'] :: row ['q', 'w', 'e', 'r', 't', 'y', 'u', 'i', 'o', 'p'] ++
        [lvSymbolBackspace] ++
      ascii ['A', 'B', 'C'] :: row ['a', 's', 'd', 'f', 'g', 'h', 'j', 'k', 'l'] ++
        [lvSymbolNewLine] ++
      row ['_', '-', 'z', 'x', 'c', 'v', 'b', 'n', 'm', '.', ',', ':'] ++ bottomRow
  | uc =>
      ascii ['1', '#'] :: row ['Q', 'W', 'E', 'R', 'T', 'Y', 'U', 'I', 'O', 'P'] ++
        [lvSymbolBackspace] ++
      ascii ['a', 'b', 'c'] :: row ['A', 'S', 'D', 'F', 'G', 'H', 'J', 'K', 'L'] ++
        [lvSymbolNewLine] ++
      row ['_', '-', 'Z', 'X', 'C', 'V', 'B', 'N', 'M', '.', ',', ':'] ++ bottomRow
  | spec =>
      row ['0', '1', '2', '3', '4', '5', '6', '7', '8', '9'] ++ [lvSymbolBackspace] ++
      ascii ['a', 'b', 'c'] :: row ['+', '-', '/', '*', '=', '%', '!', '?', '#', '<', '>'] ++
      row ['\\', '@', '$', '(', ')', '{', '}', '[', ']', ';', '"', '\''] ++ bottomRow

/-- What `on_kb_value_changed` does with a text. -/
inductive Reaction
  | setMap (map : KbMap)
  | cancel
  | send (key : Key)
  deriving DecidableEq, Repr

def reaction (txt : Text) : Reaction :=
  if txt = ascii ['a', 'b', 'c'] then .setMap .lc
  else if txt = ascii ['A', 'B', 'C'] then .setMap .uc
  else if txt = ascii ['1', '#'] then .setMap .spec
  else if txt = lvSymbolClose then .cancel
  else if txt = ascii ['T', 'a', 'b'] then .send (.char 0x09)
  else if txt = ascii ['E', 'n', 't', 'e', 'r'] ∨ txt = lvSymbolNewLine then .send (.char 0x0a)
  else if txt = lvSymbolLeft then .send .left
  else if txt = lvSymbolRight then .send .right
  else if txt = lvSymbolUp then .send .up
  else if txt = lvSymbolDown then .send .down
  else if txt = lvSymbolBackspace then .send (.char 0x08)
  else .send (.char (txt.headD 0))

/-! ## The shell -/

/-- `enum input_stat`. -/
inductive InputStat
  | waitNormal
  | waitSpecKey
  | waitFuncKey
  deriving DecidableEq, Repr

/-- A character that is no part of an escape sequence; the loop ignores null and error. -/
def plain (ch : UInt8) : Option Key :=
  if ch = 0 ∨ ch = 0xff then none else some (.char ch)

/-- The loop body of `finsh_thread_entry` up to the handling of single characters. -/
def finshInput (stat : InputStat) (ch : UInt8) : InputStat × Option Key :=
  if ch = 0x1b then (.waitSpecKey, none)
  else match stat with
    | .waitNormal => (.waitNormal, plain ch)
    | .waitSpecKey => if ch = 0x5b then (.waitFuncKey, none) else (.waitNormal, plain ch)
    | .waitFuncKey =>
        if ch = 0x41 then (.waitNormal, some .up)
        else if ch = 0x42 then (.waitNormal, some .down)
        else if ch = 0x44 then (.waitNormal, some .left)
        else if ch = 0x43 then (.waitNormal, some .right)
        else (.waitNormal, plain ch)

def finsh : Decoder InputStat UInt8 Key := ⟨.waitNormal, finshInput⟩

/-- The character is not escape, null or error. -/
def Key.Readable : Key → Prop
  | char c => c ≠ 0x1b ∧ c ≠ 0 ∧ c ≠ 0xff
  | _ => True

instance : DecidablePred Key.Readable := fun key ↦ by
  cases key <;> unfold Key.Readable <;> infer_instance

theorem inverts_of_readable {key : Key} (h : key.Readable) : finsh.Inverts Key.bytes key := by
  cases key with
  | char c =>
    obtain ⟨hescape, hnull, herror⟩ := h
    have hinput : finshInput .waitNormal c = (.waitNormal, some (.char c)) := by
      simp [finshInput, plain, hescape, hnull, herror]
    simp [Decoder.Inverts, Decoder.feed, finsh, Key.bytes, hinput]
  | up => rfl
  | down => rfl
  | right => rfl
  | left => rfl

/-- The buttons of every map send readable keys. -/
theorem readable_of_mem_texts {map : KbMap} {txt : Text} (htxt : txt ∈ map.texts) {key : Key}
    (hkey : reaction txt = .send key) : key.Readable := by
  have hall : ∀ txt ∈ map.texts, ∀ key ∈ (match reaction txt with
      | .send key => some key
      | _ => none), Key.Readable key := by
    cases map <;> decide
  refine hall txt htxt key ?_
  rw [hkey]
  rfl

end K210Firmware.Terminal.Keyboard
