import K210Firmware.Library.Memory
import Mathlib.Algebra.Group.Int.Defs

/-!
# Arithmetic on `int`

A result outside the 32 bits of an `int` and a division by zero are faults.
-/

namespace K210Firmware.Memory

/-- The result of an `int` operation. -/
def int32 (value : ℤ) : Except Fault ℤ :=
  if -2 ^ 31 ≤ value ∧ value < 2 ^ 31 then .ok value else .error .overflow

/-- `dividend / divisor`, rounded towards zero. -/
def divide32 (dividend divisor : ℤ) : Except Fault ℤ :=
  if divisor = 0 then .error .divisionByZero else int32 (dividend.tdiv divisor)

/-- `dividend % divisor`. -/
def modulo32 (dividend divisor : ℤ) : Except Fault ℤ :=
  if divisor = 0 then .error .divisionByZero else int32 (dividend.tmod divisor)

/-- The arithmetic a computation on `int` uses: its operations, each of which may fault. -/
structure Arithmetic where
  int : ℤ → Except Fault ℤ
  divide : ℤ → ℤ → Except Fault ℤ
  modulo : ℤ → ℤ → Except Fault ℤ

namespace Arithmetic

/-- The arithmetic of the code. -/
def checked : Arithmetic where
  int := int32
  divide := divide32
  modulo := modulo32

/-- Integers without a bound. -/
def unbounded : Arithmetic where
  int := .ok
  divide dividend divisor := .ok (dividend.tdiv divisor)
  modulo dividend divisor := .ok (dividend.tmod divisor)

@[simp]
theorem checked_int (value : ℤ) : checked.int value = int32 value := rfl

@[simp]
theorem checked_divide (dividend divisor : ℤ) :
    checked.divide dividend divisor = divide32 dividend divisor := rfl

@[simp]
theorem checked_modulo (dividend divisor : ℤ) :
    checked.modulo dividend divisor = modulo32 dividend divisor := rfl

@[simp]
theorem unbounded_int (value : ℤ) : unbounded.int value = .ok value := rfl

@[simp]
theorem unbounded_divide (dividend divisor : ℤ) :
    unbounded.divide dividend divisor = .ok (dividend.tdiv divisor) := rfl

@[simp]
theorem unbounded_modulo (dividend divisor : ℤ) :
    unbounded.modulo dividend divisor = .ok (dividend.tmod divisor) := rfl

end Arithmetic

theorem int32_eq_ok {value : ℤ} (hlower : -2 ^ 31 ≤ value) (hupper : value < 2 ^ 31) :
    int32 value = .ok value := by
  rw [int32, if_pos ⟨hlower, hupper⟩]

theorem int32_cases (value : ℤ) : int32 value = .error .overflow ∨ int32 value = .ok value := by
  rw [int32]
  split
  · exact .inr rfl
  · exact .inl rfl

theorem range_of_int32 {value result : ℤ} (h : int32 value = .ok result) :
    -2 ^ 31 ≤ value ∧ value < 2 ^ 31 := by
  rw [int32] at h
  split at h
  · assumption
  · cases h

theorem eq_of_int32 {value result : ℤ} (h : int32 value = .ok result) : result = value := by
  rcases int32_cases value with hfault | hvalue
  · cases hfault.symm.trans h
  · exact Except.ok.inj (h.symm.trans hvalue)

theorem divide32_eq_ok {dividend divisor : ℤ} (hdivisor : divisor ≠ 0)
    (hlower : -2 ^ 31 ≤ dividend.tdiv divisor) (hupper : dividend.tdiv divisor < 2 ^ 31) :
    divide32 dividend divisor = .ok (dividend.tdiv divisor) := by
  rw [divide32, if_neg hdivisor, int32_eq_ok hlower hupper]

theorem modulo32_eq_ok {dividend divisor : ℤ} (hnonneg : 0 ≤ dividend) (hpos : 0 < divisor)
    (hupper : divisor < 2 ^ 31) : modulo32 dividend divisor = .ok (dividend.tmod divisor) := by
  have hlower := Int.tmod_nonneg divisor hnonneg
  have hlt := Int.tmod_lt_of_pos dividend hpos
  rw [modulo32, if_neg (by omega), int32_eq_ok (by omega) (by omega)]

/-- A computation on `int` that leaves its defined behaviour by an overflow or not at all. -/
def OnlyOverflows {Value : Type} (outcome : Except Fault Value) : Prop :=
  ∀ fault, outcome = .error fault → fault = .overflow

theorem onlyOverflows_ok {Value : Type} (value : Value) : OnlyOverflows (.ok value) := by
  intro fault h
  cases h

theorem onlyOverflows_int32 (value : ℤ) : OnlyOverflows (int32 value) := by
  intro fault h
  rcases int32_cases value with hfault | hvalue
  · exact (Except.error.inj (hfault.symm.trans h)).symm
  · cases hvalue.symm.trans h

theorem OnlyOverflows.bind {Value Result : Type} {first : Except Fault Value}
    {next : Value → Except Fault Result} (hfirst : OnlyOverflows first)
    (hnext : ∀ value, OnlyOverflows (next value)) : OnlyOverflows (first >>= next) := by
  cases first with
  | error fault =>
    intro other h
    exact hfirst other (congrArg Except.error (Except.error.inj h))
  | ok value => exact hnext value

end K210Firmware.Memory
