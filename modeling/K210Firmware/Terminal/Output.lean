import K210Firmware.Library.CString
import Mathlib.Data.UInt

/-!
# The output of the terminal

The shell, `rt_kprintf` and the log write to the device with a length. `LvglTerminal::write` hands
the pointer to `lv_ta_add_text`, which takes a C string, and returns the length. `exact_iff` says
for which sequences of writes the text area shows the bytes that were written.
-/

namespace K210Firmware.Terminal.Output

open Memory CString

/-- `lv_ta_add_text` with the cursor at the end of the text. -/
def lvTaAddText (text txt : List UInt8) : Except Fault (List UInt8) := do
  let string ← scan txt
  return text ++ string

/-- `lv_ta_del_char` with the cursor at the end of the text. -/
def lvTaDelChar (text : List UInt8) : List UInt8 := text.dropLast

/-- The return value and the text. -/
def write (text : List UInt8) (buffer : Buffer UInt8) : Except Fault (ℕ × List UInt8) := do
  let text ← lvTaAddText text buffer.memory
  return (buffer.size, text)

/-- `put_char`, whose argument is a local variable with other memory behind it. -/
def putChar (text : List UInt8) (c : UInt8) (behind : List UInt8) : Except Fault (List UInt8) :=
  if c = 0x7F ∨ c = 0x08 then return lvTaDelChar text
  else do
    let (_, text) ← write text ⟨c :: behind, 1, by simp⟩
    return text

/-- The return values of a sequence of writes, and the text. -/
def writeAll (text : List UInt8) : List (Buffer UInt8) → Except Fault (List ℕ × List UInt8)
  | [] => return ([], text)
  | buffer :: buffers => do
    let (size, text) ← write text buffer
    let (sizes, text) ← writeAll text buffers
    return (size :: sizes, text)

/-- A device write whose bytes contain no NUL. -/
structure DeviceWrite extends Buffer UInt8 where
  no_nul : 0 ∉ toBuffer.bytes

/-- Every write returns its length, and the bytes of all writes are added to the text. -/
def Exact (text : List UInt8) (writes : List DeviceWrite) : Prop :=
  writeAll text (writes.map (·.toBuffer)) =
    .ok (writes.map (·.size), text ++ writes.flatMap (·.bytes))

variable {text : List UInt8}

/-- A write adds its bytes and the string that lies behind them. -/
theorem write_eq (text : List UInt8) (request : DeviceWrite) :
    write text request.toBuffer = do
      let string ← scan request.following
      return (request.size, text ++ request.bytes ++ string) := by
  rw [write, lvTaAddText, scan_buffer request.no_nul]
  cases scan request.following with
  | error fault => rfl
  | ok string => simp [Functor.map, Except.map]

/-- What a sequence that succeeds has done first. -/
theorem writeAll_cons_eq_ok {request : DeviceWrite} {buffers : List (Buffer UInt8)}
    {sizes : List ℕ} {last : List UInt8} :
    writeAll text (request.toBuffer :: buffers) = .ok (sizes, last) ↔
      ∃ string rest, scan request.following = .ok string ∧
        writeAll (text ++ request.bytes ++ string) buffers = .ok (rest, last) ∧
        sizes = request.size :: rest := by
  rw [writeAll, write_eq]
  cases scan request.following with
  | error fault => exact ⟨fun h ↦ (by cases h), fun ⟨_, _, h, _⟩ ↦ (by cases h)⟩
  | ok string =>
    simp only [ok_bind, pure_bind]
    constructor
    · intro h
      obtain ⟨⟨rest, final⟩, hrest, hlast⟩ := bind_eq_ok.mp h
      obtain ⟨rfl, rfl⟩ := Prod.mk.inj (Except.ok.inj hlast)
      exact ⟨string, rest, rfl, hrest, rfl⟩
    · rintro ⟨_, rest, ⟨⟩, hrest, rfl⟩
      rw [hrest]
      rfl

/-- A sequence that succeeds has added at least its bytes. -/
theorem length_le_of_writeAll {writes : List DeviceWrite} {sizes : List ℕ} {last : List UInt8}
    (h : writeAll text (writes.map (·.toBuffer)) = .ok (sizes, last)) :
    text.length + (writes.flatMap (·.bytes)).length ≤ last.length := by
  induction writes generalizing text sizes last with
  | nil =>
    cases h
    simp
  | cons request writes ih =>
    obtain ⟨string, rest, _, hrest, _⟩ := writeAll_cons_eq_ok.mp h
    have hlength := ih hrest
    rw [List.flatMap_cons]
    simp only [List.length_append] at hlength ⊢
    omega

/-- Writes that are terminated in memory come out as they are. -/
theorem exact_of_terminated (text : List UInt8) {writes : List DeviceWrite}
    (h : ∀ request ∈ writes, request.following.head? = some 0) : Exact text writes := by
  unfold Exact
  induction writes generalizing text with
  | nil => simp [writeAll, pure, Except.pure]
  | cons request writes ih =>
    obtain ⟨hhead, hrest⟩ := List.forall_mem_cons.mp h
    refine writeAll_cons_eq_ok.mpr ⟨[], _, scan_eq_nil_iff.mpr hhead, ?_, rfl⟩
    rw [List.append_nil, List.flatMap_cons, ← List.append_assoc]
    exact ih (text ++ request.bytes) hrest

/-- **Exact condition.** A sequence of writes shows its bytes and nothing else if and only if a NUL
follows the bytes of each of them in memory. -/
theorem exact_iff (text : List UInt8) (writes : List DeviceWrite) :
    Exact text writes ↔ ∀ request ∈ writes, request.following.head? = some 0 := by
  refine ⟨fun h ↦ ?_, exact_of_terminated text⟩
  unfold Exact at h
  induction writes generalizing text with
  | nil => simp
  | cons request writes ih =>
    obtain ⟨string, rest, hbehind, hrest, hsizes⟩ := writeAll_cons_eq_ok.mp h
    obtain rfl : writes.map (·.size) = rest := (List.cons.inj hsizes).2
    rw [List.flatMap_cons] at hrest
    have hlength := length_le_of_writeAll hrest
    -- the rest has added its own bytes, so the text has no room for anything else
    have hnone : string = [] := by
      simp only [List.length_append] at hlength
      exact List.eq_nil_of_length_eq_zero (by omega)
    subst hnone
    refine List.forall_mem_cons.mpr ⟨scan_eq_nil_iff.mp hbehind, ih (text ++ request.bytes) ?_⟩
    rwa [List.append_nil, ← List.append_assoc] at hrest

/-- One character, with another behind it in memory. -/
def oneChar : DeviceWrite where
  memory := [0x41, 0x42, 0]
  size := 1
  size_le := by decide
  no_nul := by decide

/-- Writing `A` shows `AB`. -/
theorem char_behind_is_shown :
    writeAll [] [oneChar.toBuffer] = .ok ([1], [0x41, 0x42]) ∧ ¬ Exact [] [oneChar] := by
  refine ⟨rfl, fun hexact ↦ ?_⟩
  cases hexact

/-! ## The callers -/

/-- `rt_kprintf` writes `rt_log_buf` with the length of the string it has formatted there. This is so
for fewer than 127 characters; a longer string is cut, and written with its NUL. -/
def rtKprintf (string behind : List UInt8) (hstring : 0 ∉ string) : DeviceWrite where
  memory := string ++ 0 :: behind
  size := string.length
  size_le := by simp
  no_nul := by simpa [Buffer.bytes] using hstring

/-- Console prints come out as they are, one after the other. -/
theorem rtKprintf_exact (text : List UInt8) (prints : List (List UInt8 × List UInt8))
    (hprints : ∀ print ∈ prints, 0 ∉ print.1) :
    Exact text (prints.attach.map fun print ↦
      rtKprintf print.1.1 print.1.2 (hprints print.1 print.2)) := by
  apply exact_of_terminated
  intro request hrequest
  obtain ⟨print, _, rfl⟩ := List.mem_map.mp hrequest
  simp [rtKprintf, Buffer.following]

/-- A single character comes out with what lies behind it on the stack. -/
theorem putChar_eq (text : List UInt8) {c : UInt8} (hc : c ≠ 0) (hdel : c ≠ 0x7F ∧ c ≠ 0x08)
    (behind : List UInt8) :
    putChar text c behind = do
      let string ← scan behind
      return text ++ [c] ++ string := by
  have hwrite := write_eq text
    ⟨⟨c :: behind, 1, by simp⟩, by simpa [Buffer.bytes] using Ne.symm hc⟩
  rw [putChar, if_neg (not_or.mpr hdel), hwrite]
  have hfollowing : Buffer.following ⟨c :: behind, 1, by simp⟩ = behind := rfl
  rw [hfollowing]
  cases scan behind with
  | error fault => rfl
  | ok string => rfl

end K210Firmware.Terminal.Output
