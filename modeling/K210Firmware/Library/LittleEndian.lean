import Mathlib.Data.List.Basic
import Mathlib.Data.UInt
import Mathlib.Tactic.Ring

/-!
# Little-endian records

Unsigned integers as bytes, least significant byte first, and records of such integers one behind
the other. What is stored is read back, whatever bytes follow.
-/

namespace K210Firmware.LittleEndian

/-- The lowest `width` bytes of a number. -/
def bytes : ℕ → ℕ → List UInt8
  | 0, _ => []
  | width + 1, number => UInt8.ofNat (number % 256) :: bytes width (number / 256)

def value : List UInt8 → ℕ
  | [] => 0
  | byte :: rest => byte.toNat + 256 * value rest

@[simp]
theorem length_bytes (width number : ℕ) : (bytes width number).length = width := by
  induction width generalizing number with
  | zero => rfl
  | succ width ih => rw [bytes, List.length_cons, ih]

theorem value_bytes {width number : ℕ} (h : number < 256 ^ width) :
    value (bytes width number) = number := by
  induction width generalizing number with
  | zero =>
    obtain rfl : number = 0 := by omega
    rfl
  | succ width ih =>
    have hquotient : number / 256 < 256 ^ width := by
      rw [pow_succ] at h
      omega
    have hdigit : (UInt8.ofNat (number % 256)).toNat = number % 256 := by
      rw [UInt8.toNat_ofNat']
      omega
    rw [bytes, value, ih hquotient, hdigit]
    omega

/-- A record of fields, each given by its width and its value. -/
def encode (fields : List (ℕ × ℕ)) : List UInt8 :=
  fields.flatMap fun field ↦ bytes field.1 field.2

def decode : List ℕ → List UInt8 → List ℕ
  | [], _ => []
  | width :: widths, data => value (data.take width) :: decode widths (data.drop width)

theorem length_encode (fields : List (ℕ × ℕ)) :
    (encode fields).length = (fields.map Prod.fst).sum := by
  simp [encode, List.length_flatMap]

/-- **Round trip.** -/
theorem decode_encode {fields : List (ℕ × ℕ)} (h : ∀ field ∈ fields, field.2 < 256 ^ field.1)
    (rest : List UInt8) :
    decode (fields.map Prod.fst) (encode fields ++ rest) = fields.map Prod.snd := by
  induction fields with
  | nil => rfl
  | cons field fields ih =>
    have hfield := h field (List.mem_cons_self ..)
    have hencode : encode (field :: fields) ++ rest =
        bytes field.1 field.2 ++ (encode fields ++ rest) := List.append_assoc ..
    have hlength : (bytes field.1 field.2).length = field.1 := length_bytes _ _
    rw [List.map_cons, List.map_cons, hencode, decode, List.take_left' hlength,
      List.drop_left' hlength, value_bytes hfield,
      ih fun other hother ↦ h other (List.mem_cons_of_mem _ hother)]

end K210Firmware.LittleEndian
