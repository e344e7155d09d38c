import K210Firmware.Library.Memory
import Mathlib.Algebra.Notation.Defs
import Mathlib.Data.List.Basic

/-!
# Counted buffers and C strings

A pointer to bytes is followed by whatever the memory holds there. A function that takes a length
uses the first bytes only; a function that takes a C string goes on to the first NUL, or leaves
the memory if there is none. `Buffer` is a pointer with a length, and `scan_buffer` relates the
two ways of reading it.
-/

namespace K210Firmware.CString

open Memory

/-- The bytes from a pointer to the end of the accessible memory, and the length that goes with
the pointer. -/
structure Buffer (Byte : Type) where
  memory : List Byte
  size : ℕ
  size_le : size ≤ memory.length

namespace Buffer

variable {Byte : Type} (buffer : Buffer Byte)

/-- What the length says. -/
def bytes : List Byte := buffer.memory.take buffer.size

/-- What happens to lie behind. -/
def following : List Byte := buffer.memory.drop buffer.size

theorem memory_eq : buffer.memory = buffer.bytes ++ buffer.following :=
  (List.take_append_drop ..).symm

end Buffer

variable {Byte : Type} [Zero Byte] [DecidableEq Byte]

/-- The characters up to the first NUL. -/
def scan : List Byte → Except Fault (List Byte)
  | [] => .error .outOfBounds
  | c :: rest => if c = 0 then .ok [] else (c :: ·) <$> scan rest

theorem scan_cons {c : Byte} (hc : c ≠ 0) (rest : List Byte) :
    scan (c :: rest) = (c :: ·) <$> scan rest :=
  if_neg hc

/-- Characters other than NUL are read through. -/
theorem scan_append {text : List Byte} (htext : 0 ∉ text) (rest : List Byte) :
    scan (text ++ rest) = (text ++ ·) <$> scan rest := by
  induction text with
  | nil => exact (id_map _).symm
  | cons c text ih =>
    rw [List.mem_cons, not_or] at htext
    rw [List.cons_append, scan_cons (Ne.symm htext.1), ih htext.2]
    exact (comp_map ..).symm

/-- Only a NUL ends a string at once. -/
theorem scan_eq_nil_iff {memory : List Byte} : scan memory = .ok [] ↔ memory.head? = some 0 := by
  cases memory with
  | nil => simp [scan]
  | cons c rest =>
    by_cases hc : c = 0
    · simp [scan, hc]
    · rw [scan_cons hc]
      cases hrest : scan rest with
      | error fault => simp [Functor.map, Except.map, hc]
      | ok text => simp [Functor.map, Except.map, hc]

/-- **Agreement.** As a C string, a counted buffer without NUL goes on with the characters that
lie behind it. -/
theorem scan_buffer {buffer : Buffer Byte} (hbytes : 0 ∉ buffer.bytes) :
    scan buffer.memory = (buffer.bytes ++ ·) <$> scan buffer.following := by
  rw [buffer.memory_eq]
  exact scan_append hbytes _

end K210Firmware.CString
