import K210Firmware.Library.CInt
import K210Firmware.Library.Slide
import Mathlib.Tactic.Linarith

/-!
# The sliding median of the touch filter

`median.c` keeps the last `length` samples in a ring `buffer` and, in `index`, the slots of that
ring in the order of their samples. An update overwrites the oldest sample and moves its slot to
its new place by adjacent exchanges. The arrays come from an allocator that does not clear them,
so nothing is assumed about a cell outside the first `count`.

The arithmetic of `int` is a parameter of the update; the results of this module are about integers
without a bound. The invariant `Valid` says that `index` enumerates the filled slots in the order of
their samples; `medianUpdate_spec` shows that every update returns, touches only its arrays and keeps
it.
-/

namespace K210Firmware.Touch.Median

open Memory Slide

/-- The sentinel of an unfilled slot. -/
def intMax : ℤ := 0x7fffffff

/-- `struct median_filter_t`. -/
structure MedianFilter where
  buffer : Block ℤ
  index : Block ℤ
  length : ℤ
  position : ℤ
  count : ℤ

/-- A successful `median_alloc`; both arrays keep what the allocator left in them. -/
def medianAlloc (length : ℤ) (buffer index : ℤ → ℤ) : MedianFilter where
  buffer := ⟨length, buffer⟩
  index := ⟨length, index⟩
  length := length
  position := 0
  count := 0

section Update

variable (arith : Arithmetic)

/-- `while (filter->index[oidx] != pos) ++oidx`, with a bound on the number of tests. -/
def searchLoop (index : Block ℤ) (pos : ℤ) : ℕ → ℤ → Except Fault ℤ
  | 0, _ => .error .divergence
  | fuel + 1, oidx => do
    if (← index.read oidx) ≠ pos then searchLoop index pos fuel (← arith.int (oidx + 1))
    else return oidx

/-- The loop for a sample above the one it replaces; `idx` is the offset of the C pointer. -/
def raiseLoop (buffer : Block ℤ) (value cnt : ℤ) : ℕ → Block ℤ → ℤ → ℤ → Except Fault (Block ℤ)
  | 0, _, _, _ => .error .divergence
  | fuel + 1, index, oidx, idx => do
    let oidx ← arith.int (oidx + 1)
    if oidx ≠ cnt then
      let idx := idx + 1
      let cidx ← index.read idx
      if (← buffer.read cidx) < value then
        let index ← index.write idx (← index.read (idx - 1))
        let index ← index.write (idx - 1) cidx
        raiseLoop buffer value cnt fuel index oidx idx
      else return index
    else return index

/-- The loop for a sample below the one it replaces. Its test decrements the counter, also the one
that ends the loop. -/
def lowerLoop (buffer : Block ℤ) (value : ℤ) : ℕ → Block ℤ → ℤ → ℤ → Except Fault (Block ℤ)
  | 0, _, _, _ => .error .divergence
  | fuel + 1, index, tested, idx => do
    let oidx ← arith.int (tested - 1)
    if tested ≠ 0 then
      let idx := idx - 1
      let cidx ← index.read idx
      if (← buffer.read cidx) > value then
        let index ← index.write idx (← index.read (idx + 1))
        let index ← index.write (idx + 1) cidx
        lowerLoop buffer value fuel index oidx idx
      else return index
    else return index

/-- The place of the slot to be overwritten, its old sample, and `index` with that slot in it. -/
def locate (filter : MedianFilter) : Except Fault (Block ℤ × ℤ × ℤ) := do
  if filter.count = filter.length then
    let oidx ← searchLoop arith filter.index filter.position (filter.length.toNat + 1) 0
    return (filter.index, oidx, ← filter.buffer.read filter.position)
  else
    return (← filter.index.write filter.position filter.position, filter.position, intMax)

/-- The comparison of the new sample with the one it replaces. -/
def reorder (filter : MedianFilter) (buffer index : Block ℤ) (oidx oval value : ℤ) :
    Except Fault (Block ℤ) :=
  if oval < value then
    raiseLoop arith buffer value filter.count (filter.length.toNat + 1) index oidx oidx
  else if oval > value then
    lowerLoop arith buffer value (filter.length.toNat + 1) index oidx oidx
  else pure index

/-- The branch of `median_update` for a window that already holds a sample. -/
def insertSample (filter : MedianFilter) (value : ℤ) : Except Fault (ℤ × MedianFilter) := do
  let (index, oidx, oval) ← locate arith filter
  let buffer ← filter.buffer.write filter.position value
  let index ← reorder arith filter buffer index oidx oval value
  let result ← buffer.read (← index.read (← arith.divide filter.count 2))
  return (result, { filter with buffer, index })

/-- The branch of `median_update` for an empty window. -/
def firstSample (filter : MedianFilter) (value : ℤ) : Except Fault (ℤ × MedianFilter) := do
  let buffer ← filter.buffer.write 0 value
  let index ← filter.index.write 0 0
  return (value, { filter with buffer, index, position := 0, count := 0 })

/-- `median_update` up to the advance of `position` and `count`. -/
def writeSample (filter : MedianFilter) (value : ℤ) : Except Fault (ℤ × MedianFilter) :=
  if filter.count > 0 then insertSample arith filter value else firstSample filter value

/-- The slot after the one just written, and the number of filled slots. -/
def advanceWith (filter : MedianFilter) (pos cnt : ℤ) : Except Fault MedianFilter := do
  let pos ← arith.int (pos + 1)
  let position := if pos = filter.length then 0 else pos
  let count ← arith.int (if cnt < filter.length then filter.count + 1 else filter.count)
  return { filter with position, count }

/-- `median_update` over the given arithmetic. -/
def medianUpdateWith (filter : MedianFilter) (value : ℤ) : Except Fault (ℤ × MedianFilter) := do
  let (result, updated) ← writeSample arith filter value
  return (result, ← advanceWith arith updated filter.position filter.count)

end Update

def medianUpdate (filter : MedianFilter) (value : ℤ) : Except Fault (ℤ × MedianFilter) :=
  medianUpdateWith .unbounded filter value

def medianClear (filter : MedianFilter) : MedianFilter :=
  { filter with position := 0, count := 0 }

/-- The filter that an advance without overflow leaves. -/
def advance (filter : MedianFilter) (pos cnt : ℤ) : MedianFilter :=
  { filter with
    position := if pos + 1 = filter.length then 0 else pos + 1
    count := if cnt < filter.length then filter.count + 1 else filter.count }

/-! ## The two reordering loops -/

/-- Sliding the entry of slot `origin` to slot `target` turns `before` into `after`. -/
structure Moved (before after : Block ℤ) (origin target : ℤ) : Prop where
  size : after.size = before.size
  cell : ∀ slot, after.cell slot = before.cell (slide origin target slot)

theorem Moved.refl (index : Block ℤ) (origin : ℤ) : Moved index index origin origin :=
  ⟨rfl, fun slot ↦ by rw [slide_self]⟩

/-- `index` after the two writes of one loop iteration. -/
def exchanged (index : Block ℤ) (origin neighbour : ℤ) : Block ℤ where
  size := index.size
  cell := Function.update (Function.update index.cell neighbour (index.cell origin)) origin
    (index.cell neighbour)

theorem Moved.exchanged {index : Block ℤ} {origin neighbour : ℤ}
    (h : neighbour = origin + 1 ∨ neighbour = origin - 1) :
    Moved index (exchanged index origin neighbour) origin neighbour := by
  refine ⟨rfl, fun slot ↦ ?_⟩
  simp only [Median.exchanged, Function.update_apply, slide]
  split_ifs <;> first | rfl | omega | (congr 1; omega)

theorem Moved.trans_succ {first second third : Block ℤ} {origin target : ℤ}
    (hlt : origin < target) (hfirst : Moved first second origin (origin + 1))
    (hsecond : Moved second third (origin + 1) target) : Moved first third origin target := by
  refine ⟨hsecond.size.trans hfirst.size, fun slot ↦ ?_⟩
  rw [hsecond.cell, hfirst.cell, slide_succ_comp hlt]

theorem Moved.trans_pred {first second third : Block ℤ} {origin target : ℤ}
    (hlt : target < origin) (hfirst : Moved first second origin (origin - 1))
    (hsecond : Moved second third (origin - 1) target) : Moved first third origin target := by
  refine ⟨hsecond.size.trans hfirst.size, fun slot ↦ ?_⟩
  rw [hsecond.cell, hfirst.cell, slide_pred_comp hlt]

/-- The search stops at the first slot holding `pos` and reads nothing past it. -/
theorem searchLoop_eq_ok {index : Block ℤ} {pos slot : ℤ} (hslot : slot < index.size)
    (hfound : index.cell slot = pos) {fuel : ℕ} {start : ℤ} (hstart : 0 ≤ start)
    (hle : start ≤ slot) (hbefore : ∀ i, start ≤ i → i < slot → index.cell i ≠ pos)
    (hfuel : slot - start < fuel) : searchLoop .unbounded index pos fuel start = .ok slot := by
  induction fuel generalizing start with
  | zero => omega
  | succ fuel ih =>
    rw [searchLoop, Block.read_eq_ok hstart (by omega), ok_bind, Arithmetic.unbounded_int]
    by_cases hlast : start = slot
    · subst hlast
      rw [if_neg (by simpa using hfound)]
      rfl
    · rw [if_pos (hbefore start le_rfl (by omega))]
      exact ih (by omega) (by omega) (fun i hi ↦ hbefore i (by omega))
        (by push_cast at hfuel; omega)

/-- Where the raised slot comes to rest, and why it stops there. -/
theorem raiseLoop_spec {buffer : Block ℤ} (value : ℤ) {cnt : ℤ} (fuel : ℕ) (index : Block ℤ)
    (origin : ℤ) (horigin : 0 ≤ origin ∧ origin < cnt) (hsize : cnt ≤ index.size)
    (hcells : ∀ i, 0 ≤ i → i < cnt → 0 ≤ index.cell i ∧ index.cell i < buffer.size)
    (hfuel : cnt - origin ≤ fuel) :
    ∃ after target, raiseLoop .unbounded buffer value cnt fuel index origin origin = .ok after ∧
      Moved index after origin target ∧ origin ≤ target ∧ target < cnt ∧
      (∀ i, origin < i → i ≤ target → buffer.cell (index.cell i) < value) ∧
      (target + 1 < cnt → value ≤ buffer.cell (index.cell (target + 1))) := by
  induction fuel generalizing index origin with
  | zero => omega
  | succ fuel ih =>
    simp only [raiseLoop, Arithmetic.unbounded_int, ok_bind]
    by_cases hend : origin + 1 = cnt
    · refine ⟨index, origin, by simp [hend]; rfl, .refl index origin, le_rfl, horigin.2, ?_, ?_⟩
      · intro i hi hle
        omega
      · omega
    have hcidx := hcells (origin + 1) (by omega) (by omega)
    rw [if_pos hend, Block.read_eq_ok (by omega) (by omega), ok_bind,
      Block.read_eq_ok hcidx.1 hcidx.2, ok_bind]
    by_cases hvalue : buffer.cell (index.cell (origin + 1)) < value
    · rw [if_pos hvalue, Block.read_eq_ok (by omega) (by omega), ok_bind,
        Block.write_eq_ok (by omega) (by omega), ok_bind,
        Block.write_eq_ok (by omega) (by simp only; omega), ok_bind, add_sub_cancel_right]
      have hmoved : Moved index (exchanged index origin (origin + 1)) origin (origin + 1) :=
        .exchanged (.inl rfl)
      have hcell (i : ℤ) (hi : origin + 1 < i) :
          (exchanged index origin (origin + 1)).cell i = index.cell i := by
        rw [hmoved.cell, slide, if_neg (by omega), if_neg (by omega), if_neg (by omega)]
      obtain ⟨after, target, hrun, hslide, hle, hlt, hbelow, habove⟩ :=
        ih (exchanged index origin (origin + 1)) (origin + 1) (by omega) hsize
          (fun i hlower hupper ↦ by
            rw [hmoved.cell]
            have hslot : 0 ≤ slide origin (origin + 1) i ∧ slide origin (origin + 1) i < cnt :=
              slide_mem horigin ⟨by omega, by omega⟩ ⟨hlower, hupper⟩
            exact hcells _ hslot.1 hslot.2) (by push_cast at hfuel; omega)
      refine ⟨after, target, hrun, hmoved.trans_succ (by omega) hslide, by omega, hlt, ?_, ?_⟩
      · intro i hi hitarget
        by_cases hfirst : i = origin + 1
        · rw [hfirst]
          exact hvalue
        · rw [← hcell i (by omega)]
          exact hbelow i (by omega) hitarget
      · intro htarget
        rw [← hcell (target + 1) (by omega)]
        exact habove htarget
    · rw [if_neg hvalue]
      refine ⟨index, origin, rfl, .refl index origin, le_rfl, horigin.2, ?_, ?_⟩
      · intro i hi hle
        omega
      · intro _
        exact not_lt.mp hvalue

/-- Where the lowered slot comes to rest, and why it stops there. -/
theorem lowerLoop_spec (buffer : Block ℤ) (value : ℤ) (fuel : ℕ) (index : Block ℤ) (origin : ℤ)
    (horigin : 0 ≤ origin ∧ origin < index.size)
    (hcells : ∀ i, 0 ≤ i → i < origin → 0 ≤ index.cell i ∧ index.cell i < buffer.size)
    (hfuel : origin < fuel) :
    ∃ after target, lowerLoop .unbounded buffer value fuel index origin origin = .ok after ∧
      Moved index after origin target ∧ 0 ≤ target ∧ target ≤ origin ∧
      (∀ i, target ≤ i → i < origin → value < buffer.cell (index.cell i)) ∧
      (0 < target → buffer.cell (index.cell (target - 1)) ≤ value) := by
  induction fuel generalizing index origin with
  | zero => omega
  | succ fuel ih =>
    simp only [lowerLoop, Arithmetic.unbounded_int, ok_bind]
    by_cases hend : origin = 0
    · refine ⟨index, origin, by simp [hend]; rfl, .refl index origin, horigin.1, le_rfl, ?_, ?_⟩
      · intro i hi hlt
        omega
      · omega
    have hcidx := hcells (origin - 1) (by omega) (by omega)
    rw [if_pos hend, Block.read_eq_ok (by omega) (by omega), ok_bind,
      Block.read_eq_ok hcidx.1 hcidx.2, ok_bind]
    by_cases hvalue : buffer.cell (index.cell (origin - 1)) > value
    · rw [if_pos hvalue, Block.read_eq_ok (by omega) (by omega), ok_bind,
        Block.write_eq_ok (by omega) (by omega), ok_bind,
        Block.write_eq_ok (by omega) (by simp only; omega), ok_bind, sub_add_cancel]
      have hmoved : Moved index (exchanged index origin (origin - 1)) origin (origin - 1) :=
        .exchanged (.inr rfl)
      have hcell (i : ℤ) (hi : i < origin - 1) :
          (exchanged index origin (origin - 1)).cell i = index.cell i := by
        rw [hmoved.cell, slide, if_neg (by omega), if_neg (by omega), if_neg (by omega)]
      obtain ⟨after, target, hrun, hslide, hnonneg, hle, habove, hbelow⟩ :=
        ih (exchanged index origin (origin - 1)) (origin - 1)
          ⟨by omega, by simp only [exchanged]; omega⟩
          (fun i hlower hupper ↦ by
            rw [hcell i hupper]
            exact hcells i hlower (by omega)) (by push_cast at hfuel; omega)
      refine ⟨after, target, hrun, hmoved.trans_pred (by omega) hslide, hnonneg, by omega, ?_, ?_⟩
      · intro i hi hlt
        by_cases hfirst : i = origin - 1
        · rw [hfirst]
          exact hvalue
        · rw [← hcell i (by omega)]
          exact habove i hi (by omega)
      · intro htarget
        rw [← hcell (target - 1) (by omega)]
        exact hbelow htarget
    · rw [if_neg hvalue]
      refine ⟨index, origin, rfl, .refl index origin, horigin.1, le_rfl, ?_, ?_⟩
      · intro i hi hlt
        omega
      · intro _
        exact not_lt.mp hvalue

/-! ## The window invariant -/

/-- `index` lists the filled slots of `buffer` in the order of their samples, all of them in
`[lower, upper]`, and `position` is the next slot to be written. -/
structure Valid (lower upper : ℤ) (filter : MedianFilter) : Prop where
  buffer_size : filter.buffer.size = filter.length
  index_size : filter.index.size = filter.length
  count_nonneg : 0 ≤ filter.count
  count_le : filter.count ≤ filter.length
  position_nonneg : 0 ≤ filter.position
  position_lt : filter.position < filter.length
  position_filling : filter.count < filter.length → filter.position = filter.count
  enumerates : Set.BijOn filter.index.cell (Set.Ico 0 filter.count) (Set.Ico 0 filter.count)
  bounded : ∀ slot, 0 ≤ slot → slot < filter.count →
    lower ≤ filter.buffer.cell slot ∧ filter.buffer.cell slot ≤ upper
  sorted : ∀ left right, 0 ≤ left → left < right → right < filter.count →
    filter.buffer.cell (filter.index.cell left) ≤ filter.buffer.cell (filter.index.cell right)

/-- The number of filled slots once the update has written its sample. -/
def filled (filter : MedianFilter) : ℤ :=
  if filter.count < filter.length then filter.count + 1 else filter.count

theorem medianAlloc_valid {length : ℤ} (hlength : 0 < length) (buffer index : ℤ → ℤ)
    (lower upper : ℤ) : Valid lower upper (medianAlloc length buffer index) where
  buffer_size := rfl
  index_size := rfl
  count_nonneg := le_rfl
  count_le := hlength.le
  position_nonneg := le_rfl
  position_lt := hlength
  position_filling _ := rfl
  enumerates := by simp [medianAlloc, Set.BijOn, Set.MapsTo, Set.InjOn, Set.SurjOn]
  bounded slot hnonneg hlt := absurd hnonneg (not_le.mpr hlt)
  sorted left right hnonneg hlt hright := by
    change right < 0 at hright
    omega

/-- Clearing forgets the samples but keeps whatever the arrays hold. -/
theorem Valid.clear {lower upper : ℤ} {filter : MedianFilter} (h : Valid lower upper filter) :
    Valid lower upper (medianClear filter) := by
  have hlength := h.position_nonneg.trans_lt h.position_lt
  have hfresh := medianAlloc_valid hlength filter.buffer.cell filter.index.cell lower upper
  exact ⟨h.buffer_size, h.index_size, le_rfl, hlength.le, le_rfl, hlength, fun _ ↦ rfl,
    hfresh.enumerates, hfresh.bounded, hfresh.sorted⟩

/-- What the first half of an update hands to the reordering loops: the slot about to be written
sits at `origin`, and only its old sample `old` is known to be in order there. -/
structure Located (filter : MedianFilter) (index : Block ℤ) (origin old : ℤ) : Prop where
  size : index.size = filter.length
  origin_nonneg : 0 ≤ origin
  origin_lt : origin < filled filter
  slot : index.cell origin = filter.position
  enumerates : Set.BijOn index.cell (Set.Ico 0 (filled filter)) (Set.Ico 0 (filled filter))
  sorted : ∀ left right, 0 ≤ left → left < right → right < filled filter → left ≠ origin →
    right ≠ origin → filter.buffer.cell (index.cell left) ≤ filter.buffer.cell (index.cell right)
  below : ∀ i, 0 ≤ i → i < origin → filter.buffer.cell (index.cell i) ≤ old
  above : ∀ i, origin < i → i < filled filter → old ≤ filter.buffer.cell (index.cell i)
  full_or_sentinel : filter.count = filled filter ∨ old = intMax

theorem locate_full {lower upper : ℤ} {filter : MedianFilter} (h : Valid lower upper filter)
    (hfull : filter.count = filter.length) :
    ∃ index origin old, locate .unbounded filter = .ok (index, origin, old) ∧
      Located filter index origin old := by
  have hfilled : filled filter = filter.count := by rw [filled, if_neg (by omega)]
  have hposition : filter.position ∈ Set.Ico 0 filter.count :=
    ⟨h.position_nonneg, hfull ▸ h.position_lt⟩
  obtain ⟨origin, horigin, hslot⟩ := h.enumerates.surjOn hposition
  have hsearch : searchLoop .unbounded filter.index filter.position (filter.length.toNat + 1) 0 =
      .ok origin := searchLoop_eq_ok
    (by rw [h.index_size]; have := horigin.2; omega) hslot le_rfl horigin.1
    (fun i hi hlt heq ↦ by
      have hi' : i ∈ Set.Ico 0 filter.count := ⟨hi, hlt.trans horigin.2⟩
      exact hlt.ne (h.enumerates.injOn hi' horigin (heq.trans hslot.symm)))
    (by have := horigin.1; have := horigin.2; omega)
  refine ⟨filter.index, origin, filter.buffer.cell filter.position, ?_, ?_⟩
  · rw [locate, if_pos hfull, hsearch, ok_bind,
      Block.read_eq_ok h.position_nonneg (h.buffer_size ▸ h.position_lt), ok_bind]
    rfl
  · exact {
      size := h.index_size
      origin_nonneg := horigin.1
      origin_lt := hfilled ▸ horigin.2
      slot := hslot
      enumerates := hfilled ▸ h.enumerates
      sorted := fun left right hleft hlt hright _ _ ↦
        h.sorted left right hleft hlt (hfilled ▸ hright)
      below := fun i hi hlt ↦ hslot ▸ h.sorted i origin hi hlt horigin.2
      above := fun i hlt hi ↦ hslot ▸ h.sorted origin i horigin.1 hlt (hfilled ▸ hi)
      full_or_sentinel := .inl hfilled.symm }

theorem locate_filling {lower upper : ℤ} {filter : MedianFilter} (h : Valid lower upper filter)
    (hupper : upper ≤ intMax) (hfilling : filter.count < filter.length) :
    ∃ index origin old, locate .unbounded filter = .ok (index, origin, old) ∧
      Located filter index origin old := by
  have hfilled : filled filter = filter.count + 1 := by rw [filled, if_pos hfilling]
  have hposition := h.position_filling hfilling
  have hnonneg := h.count_nonneg
  set index : Block ℤ := { filter.index with
    cell := Function.update filter.index.cell filter.position filter.position }
  have hlast : index.cell filter.count = filter.count := by
    simp [index, hposition]
  have hcell (i : ℤ) (hi : i ≠ filter.count) : index.cell i = filter.index.cell i := by
    simp [index, hposition, hi]
  have hrange (i : ℤ) (hi : 0 ≤ i ∧ i < filter.count) :
      0 ≤ index.cell i ∧ index.cell i < filter.count := by
    rw [hcell i (by omega)]
    exact h.enumerates.mapsTo hi
  refine ⟨index, filter.position, intMax, ?_, ?_⟩
  · rw [locate, if_neg (by omega),
      Block.write_eq_ok h.position_nonneg (h.index_size ▸ h.position_lt), ok_bind]
    rfl
  · refine ⟨h.index_size, h.position_nonneg, by omega, by rw [hposition, hlast], ?_, ?_, ?_, ?_,
      .inr rfl⟩
    · rw [hfilled]
      refine ⟨fun i hi ↦ ?_, fun i hi j hj heq ↦ ?_, fun slot hslot ↦ ?_⟩
      · by_cases hnew : i = filter.count
        · rw [hnew, hlast]
          exact ⟨by omega, by omega⟩
        · have := hrange i ⟨hi.1, by have := hi.2; omega⟩
          exact ⟨this.1, by omega⟩
      · have hilt := hi.2
        have hjlt := hj.2
        by_cases hinew : i = filter.count <;> by_cases hjnew : j = filter.count
        · rw [hinew, hjnew]
        · have := hrange j ⟨hj.1, by omega⟩
          rw [hinew, hlast] at heq
          omega
        · have := hrange i ⟨hi.1, by omega⟩
          rw [hjnew, hlast] at heq
          omega
        · rw [hcell i hinew, hcell j hjnew] at heq
          exact h.enumerates.injOn ⟨hi.1, by omega⟩ ⟨hj.1, by omega⟩ heq
      · by_cases hnew : slot = filter.count
        · exact ⟨filter.count, ⟨by omega, by omega⟩, by rw [hlast, hnew]⟩
        · obtain ⟨i, hi, heq⟩ := h.enumerates.surjOn
            (show slot ∈ Set.Ico 0 filter.count from ⟨hslot.1, by have := hslot.2; omega⟩)
          have hilt := hi.2
          exact ⟨i, ⟨hi.1, by omega⟩, by rw [hcell i (by omega), heq]⟩
    · intro left right hleft hlt hright hleftne hrightne
      rw [hcell left (by omega), hcell right (by omega)]
      exact h.sorted left right hleft hlt (by omega)
    · intro i hi hlt
      have := hrange i ⟨hi, by omega⟩
      exact (h.bounded _ this.1 this.2).2.trans hupper
    · intro i hlt hi
      omega

theorem locate_spec {lower upper : ℤ} {filter : MedianFilter} (h : Valid lower upper filter)
    (hupper : upper ≤ intMax) :
    ∃ index origin old, locate .unbounded filter = .ok (index, origin, old) ∧
      Located filter index origin old := by
  rcases h.count_le.lt_or_eq with hfilling | hfull
  · exact locate_filling h hupper hfilling
  · exact locate_full h hfull

/-! ## One update -/

/-- What one call of `median_update` does to a filter. -/
structure Updated (filter : MedianFilter) (value result : ℤ) (after : MedianFilter) : Prop where
  length : after.length = filter.length
  position : after.position =
    if filter.position + 1 = filter.length then 0 else filter.position + 1
  count : after.count = filled filter
  buffer : after.buffer.cell = Function.update filter.buffer.cell filter.position value
  result : result = after.buffer.cell (after.index.cell (filter.count.tdiv 2))

/-- `buffer` with the new sample in the slot of the oldest one. -/
def overwritten (filter : MedianFilter) (value : ℤ) : Block ℤ where
  size := filter.buffer.size
  cell := Function.update filter.buffer.cell filter.position value

theorem Located.key_origin {filter : MedianFilter} {index : Block ℤ} {origin old : ℤ}
    (h : Located filter index origin old) (value : ℤ) :
    (overwritten filter value).cell (index.cell origin) = value := by
  simp [overwritten, h.slot]

theorem Located.key_other {filter : MedianFilter} {index : Block ℤ} {origin old : ℤ}
    (h : Located filter index origin old) (value : ℤ) {i : ℤ} (hnonneg : 0 ≤ i)
    (hlt : i < filled filter) (hne : i ≠ origin) :
    (overwritten filter value).cell (index.cell i) = filter.buffer.cell (index.cell i) := by
  have hslot : index.cell i ≠ filter.position := by
    rw [← h.slot]
    exact fun heq ↦ hne (h.enumerates.injOn ⟨hnonneg, hlt⟩ ⟨h.origin_nonneg, h.origin_lt⟩ heq)
  simp [overwritten, hslot]

/-- The other keys stay in order. -/
theorem Located.keys_le {filter : MedianFilter} {index : Block ℤ} {origin old : ℤ}
    (h : Located filter index origin old) (value : ℤ) {left right : ℤ} (hleft : 0 ≤ left)
    (hle : left ≤ right) (hright : right < filled filter) (hleftne : left ≠ origin)
    (hrightne : right ≠ origin) :
    (overwritten filter value).cell (index.cell left) ≤
      (overwritten filter value).cell (index.cell right) := by
  rcases hle.eq_or_lt with rfl | hlt
  · exact le_rfl
  rw [h.key_other value hleft (by omega) hleftne, h.key_other value (by omega) hright hrightne]
  exact h.sorted left right hleft hlt hright hleftne hrightne

theorem Located.key_le_old {filter : MedianFilter} {index : Block ℤ} {origin old : ℤ}
    (h : Located filter index origin old) (value : ℤ) {i : ℤ} (hnonneg : 0 ≤ i)
    (hlt : i < origin) : (overwritten filter value).cell (index.cell i) ≤ old := by
  have horigin := h.origin_lt
  rw [h.key_other value hnonneg (by omega) (by omega)]
  exact h.below i hnonneg hlt

theorem Located.old_le_key {filter : MedianFilter} {index : Block ℤ} {origin old : ℤ}
    (h : Located filter index origin old) (value : ℤ) {i : ℤ} (hlt : origin < i)
    (hfilled : i < filled filter) : old ≤ (overwritten filter value).cell (index.cell i) := by
  have horigin := h.origin_nonneg
  rw [h.key_other value (by omega) hfilled (by omega)]
  exact h.above i hlt hfilled

theorem filled_le {lower upper : ℤ} {filter : MedianFilter} (h : Valid lower upper filter) :
    filled filter ≤ filter.length := by
  have hle := h.count_le
  unfold filled
  split_ifs <;> omega

/-- The index points into the buffer. -/
theorem Located.cell_bounds {lower upper : ℤ} {filter : MedianFilter} {index : Block ℤ}
    {origin old : ℤ} (hlocated : Located filter index origin old) (h : Valid lower upper filter)
    (value : ℤ) {i : ℤ} (hnonneg : 0 ≤ i) (hlt : i < filled filter) :
    0 ≤ index.cell i ∧ index.cell i < (overwritten filter value).size := by
  have hfilled := filled_le h
  obtain ⟨hlower, hupper⟩ :=
    hlocated.enumerates.mapsTo (show i ∈ Set.Ico 0 (filled filter) from ⟨hnonneg, hlt⟩)
  exact ⟨hlower, by simp only [overwritten, h.buffer_size]; omega⟩

/-- The loops return, and bring the slot to a place where its new sample is in order. -/
theorem reorder_spec {lower upper : ℤ} {filter : MedianFilter} (h : Valid lower upper filter)
    {index : Block ℤ} {origin old value : ℤ} (hlocated : Located filter index origin old)
    (hvalue : value ≤ intMax) :
    ∃ after target,
      reorder .unbounded filter (overwritten filter value) index origin old value = .ok after ∧
      Moved index after origin target ∧ (0 ≤ target ∧ target < filled filter) ∧
      (∀ i, 0 ≤ i → i < target →
        (overwritten filter value).cell (index.cell (slide origin target i)) ≤ value) ∧
      (∀ i, target < i → i < filled filter →
        value ≤ (overwritten filter value).cell (index.cell (slide origin target i))) := by
  have hfilled := filled_le h
  have horigin := hlocated.origin_nonneg
  have horiginlt := hlocated.origin_lt
  unfold reorder
  rcases lt_trichotomy old value with hraise | hsame | hlower
  · have hcount : filter.count = filled filter := by
      rcases hlocated.full_or_sentinel with hcount | hsentinel
      · exact hcount
      · omega
    obtain ⟨after, target, hrun, hmoved, hle, hlt, hpassed, hstop⟩ :=
      raiseLoop_spec value (filter.length.toNat + 1) index origin
        ⟨horigin, hcount ▸ horiginlt⟩ (by rw [hlocated.size]; omega)
        (fun i hnonneg hlt ↦ hlocated.cell_bounds h value hnonneg (hcount ▸ hlt))
        (by push_cast; omega)
    rw [hcount] at hlt hstop
    rw [if_pos hraise]
    refine ⟨after, target, hrun, hmoved, ⟨by omega, hlt⟩, fun i hnonneg hi ↦ ?_,
      fun i hi hbound ↦ ?_⟩
    · by_cases hshift : origin ≤ i
      · rw [slide, if_neg (by omega), if_pos ⟨hshift, hi⟩]
        exact (hpassed (i + 1) (by omega) (by omega)).le
      · rw [slide, if_neg (by omega), if_neg (by omega), if_neg (by omega)]
        exact (hlocated.key_le_old value hnonneg (by omega)).trans hraise.le
    · rw [slide, if_neg (by omega), if_neg (by omega), if_neg (by omega)]
      exact (hstop (by omega)).trans
        (hlocated.keys_le value (by omega) (by omega) hbound (by omega) (by omega))
  · subst hsame
    rw [if_neg (lt_irrefl old), if_neg (lt_irrefl old)]
    refine ⟨index, origin, rfl, .refl index origin, ⟨horigin, horiginlt⟩, fun i hnonneg hi ↦ ?_,
      fun i hi hbound ↦ ?_⟩
    · rw [slide_self]
      exact hlocated.key_le_old old hnonneg hi
    · rw [slide_self]
      exact hlocated.old_le_key old hi hbound
  · obtain ⟨after, target, hrun, hmoved, hnonneg, hle, hpassed, hstop⟩ :=
      lowerLoop_spec (overwritten filter value) value (filter.length.toNat + 1) index origin
        ⟨horigin, by rw [hlocated.size]; omega⟩
        (fun i hnonneg hlt ↦ hlocated.cell_bounds h value hnonneg (by omega))
        (by push_cast; omega)
    rw [if_neg hlower.le.not_gt, if_pos hlower]
    refine ⟨after, target, hrun, hmoved, ⟨hnonneg, by omega⟩, fun i hinonneg hi ↦ ?_,
      fun i hi hbound ↦ ?_⟩
    · rw [slide, if_neg (by omega), if_neg (by omega), if_neg (by omega)]
      have hkeys := hlocated.keys_le value hinonneg (show i ≤ target - 1 by omega) (by omega)
        (by omega) (by omega)
      exact hkeys.trans (hstop (by omega))
    · by_cases hshift : i ≤ origin
      · rw [slide, if_neg (by omega), if_neg (by omega), if_pos ⟨hi, hshift⟩]
        exact (hpassed (i - 1) (by omega) (by omega)).le
      · rw [slide, if_neg (by omega), if_neg (by omega), if_neg (by omega)]
        exact hlower.le.trans (hlocated.old_le_key value (by omega) hbound)

theorem filled_pos {lower upper : ℤ} {filter : MedianFilter} (h : Valid lower upper filter) :
    0 < filled filter := by
  have hcount := h.count_nonneg
  have hlt := h.position_nonneg.trans_lt h.position_lt
  unfold filled
  split_ifs <;> omega

/-- Writing the sample into the next slot and listing the slots in order again keeps `Valid`. -/
theorem Valid.advance {lower upper : ℤ} {filter : MedianFilter} (h : Valid lower upper filter)
    {value : ℤ} (hvalue : lower ≤ value ∧ value ≤ upper) {index : Block ℤ}
    (hindex : index.size = filter.length)
    (henumerates : Set.BijOn index.cell (Set.Ico 0 (filled filter)) (Set.Ico 0 (filled filter)))
    (hsorted : ∀ left right, 0 ≤ left → left < right → right < filled filter →
      (overwritten filter value).cell (index.cell left) ≤
        (overwritten filter value).cell (index.cell right)) :
    Valid lower upper (advance { filter with buffer := overwritten filter value, index }
      filter.position filter.count) := by
  have hfilled := filled_le h
  have hcountnonneg := h.count_nonneg
  have hcountle := h.count_le
  have hposition := h.position_nonneg
  have hpositionlt := h.position_lt
  have hfilling := h.position_filling
  refine ⟨h.buffer_size, hindex, (filled_pos h).le, hfilled, ?_, ?_, ?_, henumerates, ?_, hsorted⟩
  · simp only [Median.advance]
    split_ifs <;> omega
  · simp only [Median.advance]
    split_ifs <;> omega
  · intro hlt
    simp only [Median.advance] at hlt ⊢
    split_ifs at hlt ⊢ <;> omega
  · intro slot hnonneg hlt
    by_cases hslot : slot = filter.position
    · simpa [Median.advance, overwritten, hslot] using hvalue
    · have hold : slot < filter.count := by
        simp only [Median.advance] at hlt
        split_ifs at hlt with hc
        · have := hfilling hc
          omega
        · exact hlt
      simpa [Median.advance, overwritten, hslot] using h.bounded slot hnonneg hold

/-- The rank read after the reordering is that of a filled slot. -/
theorem rank_lt_filled {lower upper : ℤ} {filter : MedianFilter} (h : Valid lower upper filter) :
    0 ≤ filter.count.tdiv 2 ∧ filter.count.tdiv 2 < filled filter := by
  have hcount := h.count_nonneg
  have hlt := h.position_nonneg.trans_lt h.position_lt
  rw [Int.tdiv_eq_ediv_of_nonneg hcount]
  unfold filled
  split_ifs <;> omega

theorem insertSample_spec {lower upper : ℤ} {filter : MedianFilter} (h : Valid lower upper filter)
    (hupper : upper ≤ intMax) {value : ℤ} (hvalue : lower ≤ value ∧ value ≤ upper) :
    ∃ result index, insertSample .unbounded filter value =
        .ok (result, { filter with buffer := overwritten filter value, index }) ∧
      result = (overwritten filter value).cell (index.cell (filter.count.tdiv 2)) ∧
      Valid lower upper (advance { filter with buffer := overwritten filter value, index }
        filter.position filter.count) := by
  obtain ⟨index, origin, old, hlocate, hlocated⟩ := locate_spec h hupper
  obtain ⟨after, target, hreorder, hmoved, htarget, hbelow, habove⟩ :=
    reorder_spec h hlocated (hvalue.2.trans hupper)
  have hsize : after.size = filter.length := hmoved.size.trans hlocated.size
  have henumerates : Set.BijOn after.cell (Set.Ico 0 (filled filter)) (Set.Ico 0 (filled filter)) :=
    (hlocated.enumerates.comp (slide_bijOn ⟨hlocated.origin_nonneg, hlocated.origin_lt⟩
      htarget)).congr fun slot _ ↦ (hmoved.cell slot).symm
  have hsorted (left right : ℤ) (hleft : 0 ≤ left) (hlt : left < right)
      (hright : right < filled filter) :
      (overwritten filter value).cell (after.cell left) ≤
        (overwritten filter value).cell (after.cell right) := by
    rw [hmoved.cell, hmoved.cell]
    refine monotone_slide (fun i ↦ (overwritten filter value).cell (index.cell i))
      ⟨hlocated.origin_nonneg, hlocated.origin_lt⟩ htarget ?_ ?_ ?_ hleft hlt hright
    · exact fun left right hleft hlt hright hleftne hrightne ↦
        hlocated.keys_le value hleft hlt.le hright hleftne hrightne
    · intro slot hslot hlt
      rw [hlocated.key_origin]
      exact hbelow slot hslot hlt
    · intro slot hlt hslot
      rw [hlocated.key_origin]
      exact habove slot hlt hslot
  have hrank := rank_lt_filled h
  have hfilled := filled_le h
  have hslot := henumerates.mapsTo (show _ ∈ Set.Ico 0 (filled filter) from hrank)
  refine ⟨_, after, ?_, rfl, h.advance hvalue hsize henumerates hsorted⟩
  have hwrite : filter.buffer.write filter.position value = .ok (overwritten filter value) :=
    Block.write_eq_ok h.position_nonneg (h.buffer_size ▸ h.position_lt)
  have hread : after.read (filter.count.tdiv 2) = .ok (after.cell (filter.count.tdiv 2)) :=
    Block.read_eq_ok hrank.1 (by omega)
  have hresult : (overwritten filter value).read (after.cell (filter.count.tdiv 2)) =
      .ok ((overwritten filter value).cell (after.cell (filter.count.tdiv 2))) :=
    Block.read_eq_ok hslot.1
      (hslot.2.trans_le (by simpa [overwritten, h.buffer_size] using hfilled))
  simp only [insertSample, Arithmetic.unbounded_divide, hlocate, ok_bind, hwrite, hreorder, hread,
    hresult]
  rfl

theorem firstSample_spec {lower upper : ℤ} {filter : MedianFilter} (h : Valid lower upper filter)
    (hcount : filter.count = 0) {value : ℤ} (hvalue : lower ≤ value ∧ value ≤ upper) :
    ∃ index, firstSample filter value =
        .ok (value, { filter with buffer := overwritten filter value, index }) ∧
      value = (overwritten filter value).cell (index.cell (filter.count.tdiv 2)) ∧
      Valid lower upper (advance { filter with buffer := overwritten filter value, index }
        filter.position filter.count) := by
  have hlength := h.position_nonneg.trans_lt h.position_lt
  have hposition : filter.position = 0 := by
    rw [h.position_filling (by omega), hcount]
  have hfilled : filled filter = 1 := by rw [filled, if_pos (by omega), hcount, zero_add]
  set index : Block ℤ := { filter.index with cell := Function.update filter.index.cell 0 0 }
  have hone (slot : ℤ) (hslot : slot ∈ Set.Ico (0 : ℤ) 1) : slot = 0 := by
    have hnonneg := hslot.1
    have hlt := hslot.2
    omega
  have hfirst : index.cell 0 = 0 := by simp [index]
  refine ⟨index, ?_, ?_, h.advance hvalue h.index_size ?_ ?_⟩
  · have hbuffer : filter.buffer.write 0 value = .ok (overwritten filter value) := by
      rw [Block.write_eq_ok le_rfl (h.buffer_size ▸ hlength), overwritten, hposition]
    have hindex : filter.index.write 0 0 = .ok index :=
      Block.write_eq_ok le_rfl (h.index_size ▸ hlength)
    have hfields : ({ filter with
        buffer := overwritten filter value, index, position := 0, count := 0 } : MedianFilter) =
        { filter with buffer := overwritten filter value, index } := by
      rw [hposition, hcount]
    simp only [firstSample, hbuffer, hindex, ok_bind, hfields]
    rfl
  · simp [hcount, hfirst, overwritten, hposition]
  · rw [hfilled]
    refine ⟨fun slot hslot ↦ ?_, fun left hleft right hright _ ↦ ?_, fun slot hslot ↦ ?_⟩
    · rw [hone slot hslot, hfirst]
      exact ⟨le_rfl, one_pos⟩
    · rw [hone left hleft, hone right hright]
    · exact ⟨0, ⟨le_rfl, one_pos⟩, by rw [hfirst, hone slot hslot]⟩
  · intro left right hleft hlt hright
    omega

/-- **One update.** A window of samples in `[lower, upper]` takes a further one without leaving its
arrays, and returns the sample of middle rank among the new contents. -/
theorem medianUpdate_spec {lower upper : ℤ} {filter : MedianFilter} (h : Valid lower upper filter)
    (hupper : upper ≤ intMax) {value : ℤ} (hvalue : lower ≤ value ∧ value ≤ upper) :
    ∃ result after, medianUpdate filter value = .ok (result, after) ∧
      Updated filter value result after ∧ Valid lower upper after := by
  obtain ⟨result, index, hsample, hresult, hvalid⟩ :
      ∃ result index, writeSample .unbounded filter value =
          .ok (result, { filter with buffer := overwritten filter value, index }) ∧
        result = (overwritten filter value).cell (index.cell (filter.count.tdiv 2)) ∧
        Valid lower upper (advance { filter with buffer := overwritten filter value, index }
          filter.position filter.count) := by
    unfold writeSample
    by_cases hcount : filter.count > 0
    · rw [if_pos hcount]
      exact insertSample_spec h hupper hvalue
    · rw [if_neg hcount]
      have hzero : filter.count = 0 := le_antisymm (not_lt.mp hcount) h.count_nonneg
      obtain ⟨index, hrun, hresult, hvalid⟩ := firstSample_spec h hzero hvalue
      exact ⟨value, index, hrun, hresult, hvalid⟩
  refine ⟨result, advance { filter with buffer := overwritten filter value, index }
    filter.position filter.count, ?_, ⟨rfl, rfl, rfl, rfl, hresult⟩, hvalid⟩
  rw [medianUpdate, medianUpdateWith, hsample, ok_bind]
  rfl

/-- An update answers with one of the samples it holds. -/
theorem Updated.result_mem {lower upper : ℤ} {filter after : MedianFilter} {value result : ℤ}
    (h : Valid lower upper filter) (hupdated : Updated filter value result after)
    (hafter : Valid lower upper after) : lower ≤ result ∧ result ≤ upper := by
  have hrank := rank_lt_filled h
  rw [← hupdated.count] at hrank
  have hslot := hafter.enumerates.mapsTo (show _ ∈ Set.Ico 0 after.count from hrank)
  rw [hupdated.result]
  exact hafter.bounded _ hslot.1 hslot.2

/-- The first sample of a window is returned as it is, whatever the arrays still hold. -/
theorem Updated.result_of_empty {lower upper : ℤ} {filter after : MedianFilter} {value result : ℤ}
    (h : Valid lower upper filter) (hupdated : Updated filter value result after)
    (hafter : Valid lower upper after) (hcount : filter.count = 0) : result = value := by
  have hlength := h.position_nonneg.trans_lt h.position_lt
  have hposition : filter.position = 0 := by
    rw [h.position_filling (by omega), hcount]
  have hone : after.count = 1 := by rw [hupdated.count, filled, if_pos (by omega), hcount, zero_add]
  have hslot : 0 ≤ after.index.cell 0 ∧ after.index.cell 0 < after.count :=
    hafter.enumerates.mapsTo (show (0 : ℤ) ∈ Set.Ico 0 after.count from ⟨le_rfl, by omega⟩)
  have hzero : after.index.cell 0 = 0 := by omega
  rw [hupdated.result, hcount, Int.zero_tdiv, hzero, hupdated.buffer, hposition,
    Function.update_self]

end K210Firmware.Touch.Median
