import K210Firmware.Library.CInt
import Mathlib

/-!
# The running mean of the touch filter

`mean.c` keeps the last `length` inputs in a ring and their sum in a field of its own. Every cell
of the ring starts at zero, so the sum of the whole ring is the sum of the inputs it holds. The
invariant `Valid` records this; `meanUpdate_spec` shows that an update returns, keeps it, and
answers with a value between the bounds of its inputs.
-/

namespace K210Firmware.Touch.Mean

open Memory Finset

/-- `struct mean_filter_t`. -/
structure MeanFilter where
  buffer : Block ℤ
  length : ℤ
  index : ℤ
  count : ℤ
  sum : ℤ

/-- A successful `mean_alloc`. -/
def meanAlloc (length : ℤ) (buffer : ℤ → ℤ) : MeanFilter where
  buffer := (Block.mk length buffer).fill length 0
  length := length
  index := 0
  count := 0
  sum := 0

/-- `mean_update` over the given arithmetic. -/
def meanUpdateWith (arith : Arithmetic) (filter : MeanFilter) (value : ℤ) :
    Except Fault (ℤ × MeanFilter) := do
  let sum ← arith.int (filter.sum - (← filter.buffer.read filter.index))
  let sum ← arith.int (sum + value)
  let buffer ← filter.buffer.write filter.index value
  let index ← arith.modulo (← arith.int (filter.index + 1)) filter.length
  let count ← arith.int (if filter.count < filter.length then filter.count + 1 else filter.count)
  return (← arith.divide sum count, { filter with buffer, index, count, sum })

def meanUpdate (filter : MeanFilter) (value : ℤ) : Except Fault (ℤ × MeanFilter) :=
  meanUpdateWith .unbounded filter value

def meanClear (filter : MeanFilter) : MeanFilter :=
  { filter with buffer := filter.buffer.fill filter.length 0, index := 0, count := 0, sum := 0 }

/-- The ring holds `count` inputs in `[0, upper]` and zeros, and `sum` is their sum. -/
structure Valid (upper : ℤ) (filter : MeanFilter) : Prop where
  buffer_size : filter.buffer.size = filter.length
  count_nonneg : 0 ≤ filter.count
  count_le : filter.count ≤ filter.length
  index_nonneg : 0 ≤ filter.index
  index_lt : filter.index < filter.length
  index_filling : filter.count < filter.length → filter.index = filter.count
  sum_eq : filter.sum = ∑ slot ∈ Ico 0 filter.length, filter.buffer.cell slot
  unfilled : ∀ slot, filter.count ≤ slot → slot < filter.length → filter.buffer.cell slot = 0
  bounded : ∀ slot, 0 ≤ slot → slot < filter.count →
    0 ≤ filter.buffer.cell slot ∧ filter.buffer.cell slot ≤ upper

theorem sum_fill_zero (block : Block ℤ) (length : ℤ) :
    ∑ slot ∈ Ico 0 length, (block.fill length 0).cell slot = 0 :=
  sum_eq_zero fun slot hslot ↦ by
    rw [mem_Ico] at hslot
    exact Block.fill_cell hslot.1 hslot.2

theorem meanAlloc_valid {length : ℤ} (hlength : 0 < length) (buffer : ℤ → ℤ) (upper : ℤ) :
    Valid upper (meanAlloc length buffer) where
  buffer_size := rfl
  count_nonneg := le_rfl
  count_le := hlength.le
  index_nonneg := le_rfl
  index_lt := hlength
  index_filling _ := rfl
  sum_eq := (sum_fill_zero _ length).symm
  unfilled _ hnonneg hlt := Block.fill_cell hnonneg hlt
  bounded _ hnonneg hlt := absurd hnonneg (not_le.mpr hlt)

theorem Valid.clear {upper : ℤ} {filter : MeanFilter} (h : Valid upper filter) :
    Valid upper (meanClear filter) where
  buffer_size := h.buffer_size
  count_nonneg := le_rfl
  count_le := h.count_nonneg.trans h.count_le
  index_nonneg := le_rfl
  index_lt := h.index_nonneg.trans_lt h.index_lt
  index_filling _ := rfl
  sum_eq := (sum_fill_zero _ filter.length).symm
  unfilled _ hnonneg hlt := Block.fill_cell hnonneg hlt
  bounded _ hnonneg hlt := absurd hnonneg (not_le.mpr hlt)

/-- Only the filled part of the ring contributes to its sum. -/
theorem Valid.sum_eq_filled {upper : ℤ} {filter : MeanFilter} (h : Valid upper filter) :
    filter.sum = ∑ slot ∈ Ico 0 filter.count, filter.buffer.cell slot := by
  rw [h.sum_eq]
  symm
  apply sum_subset
  · exact Ico_subset_Ico_right h.count_le
  · intro slot hslot hout
    rw [mem_Ico] at hslot hout
    exact h.unfilled slot (by omega) hslot.2

theorem Valid.sum_bounds {upper : ℤ} {filter : MeanFilter} (h : Valid upper filter) :
    0 ≤ filter.sum ∧ filter.sum ≤ filter.count * upper := by
  rw [h.sum_eq_filled]
  constructor
  · apply sum_nonneg
    intro slot hslot
    rw [mem_Ico] at hslot
    exact (h.bounded slot hslot.1 hslot.2).1
  · have hle := sum_le_card_nsmul (Ico 0 filter.count) filter.buffer.cell upper
      (fun slot hslot ↦ by
        rw [mem_Ico] at hslot
        exact (h.bounded slot hslot.1 hslot.2).2)
    have hcard : ((Ico 0 filter.count).card : ℤ) = filter.count := by
      rw [Int.card_Ico, sub_zero, Int.toNat_of_nonneg h.count_nonneg]
    rwa [nsmul_eq_mul, hcard] at hle

/-- Replacing one cell changes the sum of the ring by the difference of the two values. -/
theorem sum_update {length index : ℤ} (hnonneg : 0 ≤ index) (hlt : index < length)
    (cell : ℤ → ℤ) (value : ℤ) :
    ∑ slot ∈ Ico 0 length, Function.update cell index value slot =
      ∑ slot ∈ Ico 0 length, cell slot - cell index + value := by
  have hmem : index ∈ Ico 0 length := mem_Ico.mpr ⟨hnonneg, hlt⟩
  rw [sum_update_of_mem hmem, ← sum_sdiff (singleton_subset_iff.mpr hmem), sum_singleton]
  ring

/-- What one call of `mean_update` does to a filter. -/
structure Updated (filter : MeanFilter) (value result : ℤ) (after : MeanFilter) : Prop where
  length : after.length = filter.length
  count : after.count = if filter.count < filter.length then filter.count + 1 else filter.count
  buffer : after.buffer.cell = Function.update filter.buffer.cell filter.index value
  result : result = after.sum.tdiv after.count

/-- The filter that `mean_update` leaves. -/
def pushed (filter : MeanFilter) (value : ℤ) : MeanFilter :=
  { filter with
    buffer := { filter.buffer with cell := Function.update filter.buffer.cell filter.index value }
    index := (filter.index + 1).tmod filter.length
    count := if filter.count < filter.length then filter.count + 1 else filter.count
    sum := filter.sum - filter.buffer.cell filter.index + value }

theorem Valid.index_pushed {upper : ℤ} {filter : MeanFilter} (h : Valid upper filter) (value : ℤ) :
    (pushed filter value).index =
      if filter.index + 1 = filter.length then 0 else filter.index + 1 := by
  have hindex := h.index_nonneg
  have hindexlt := h.index_lt
  change (filter.index + 1).tmod filter.length = _
  split_ifs with hwrap
  · rw [hwrap, Int.tmod_self]
  · exact Int.tmod_eq_of_lt (by omega) (by omega)

/-- Writing the input into the next slot keeps `Valid`. -/
theorem Valid.pushed {upper : ℤ} {filter : MeanFilter} (h : Valid upper filter) {value : ℤ}
    (hvalue : 0 ≤ value ∧ value ≤ upper) : Valid upper (pushed filter value) := by
  have hindex := h.index_nonneg
  have hindexlt := h.index_lt
  have hcount := h.count_nonneg
  have hcountle := h.count_le
  have hfilling := h.index_filling
  refine ⟨h.buffer_size, ?_, ?_, ?_, ?_, ?_, ?_, ?_, ?_⟩
  · simp only [Mean.pushed]
    split_ifs <;> omega
  · simp only [Mean.pushed]
    split_ifs <;> omega
  · rw [h.index_pushed]
    split_ifs <;> omega
  · rw [h.index_pushed]
    simp only [Mean.pushed]
    split_ifs <;> omega
  · intro hlt
    rw [h.index_pushed]
    simp only [Mean.pushed] at hlt ⊢
    split_ifs at hlt ⊢ <;> omega
  · simp only [Mean.pushed]
    rw [sum_update hindex hindexlt, ← h.sum_eq]
  · intro slot hle hlt
    have hslot : slot ≠ filter.index ∧ filter.count ≤ slot := by
      simp only [Mean.pushed] at hle
      split_ifs at hle with hc
      · have := hfilling hc
        omega
      · omega
    simp only [Mean.pushed, Function.update_of_ne hslot.1]
    exact h.unfilled slot hslot.2 hlt
  · intro slot hnonneg hlt
    by_cases hslot : slot = filter.index
    · subst hslot
      simpa [Mean.pushed] using hvalue
    · have hold : slot < filter.count := by
        simp only [Mean.pushed] at hlt
        split_ifs at hlt with hc
        · have := hfilling hc
          omega
        · exact hlt
      simpa [Mean.pushed, Function.update_of_ne hslot] using h.bounded slot hnonneg hold

/-- An update whose index is inside the ring returns. -/
theorem meanUpdate_eq_ok {filter : MeanFilter} (hnonneg : 0 ≤ filter.index)
    (hlt : filter.index < filter.buffer.size) (value : ℤ) :
    meanUpdate filter value =
      .ok ((pushed filter value).sum.tdiv (pushed filter value).count, pushed filter value) := by
  simp only [meanUpdate, meanUpdateWith, Arithmetic.unbounded_int, Arithmetic.unbounded_modulo,
    Arithmetic.unbounded_divide, Block.read_eq_ok hnonneg hlt,
    Block.write_eq_ok hnonneg hlt, ok_bind]
  rfl

theorem meanUpdate_spec {upper : ℤ} {filter : MeanFilter} (h : Valid upper filter) {value : ℤ}
    (hvalue : 0 ≤ value ∧ value ≤ upper) :
    ∃ result after, meanUpdate filter value = .ok (result, after) ∧
      Updated filter value result after ∧ Valid upper after :=
  ⟨_, pushed filter value, meanUpdate_eq_ok h.index_nonneg (h.buffer_size ▸ h.index_lt) value,
    ⟨rfl, rfl, rfl, rfl⟩, h.pushed hvalue⟩

/-- After an update at least one input is held, so its division is by a positive count. -/
theorem Updated.count_pos {upper : ℤ} {filter after : MeanFilter} {value result : ℤ}
    (h : Valid upper filter) (hupdated : Updated filter value result after) : 0 < after.count := by
  have hcount := h.count_nonneg
  have hlt := h.index_nonneg.trans_lt h.index_lt
  rw [hupdated.count]
  split_ifs <;> omega

theorem Updated.result_bounds {upper : ℤ} {filter after : MeanFilter} {value result : ℤ}
    (h : Valid upper filter) (hupdated : Updated filter value result after)
    (hafter : Valid upper after) : 0 ≤ result ∧ result ≤ upper := by
  have hpos := hupdated.count_pos h
  obtain ⟨hnonneg, hle⟩ := hafter.sum_bounds
  rw [hupdated.result, Int.tdiv_eq_ediv_of_nonneg hnonneg]
  exact ⟨Int.ediv_nonneg hnonneg hpos.le,
    Int.ediv_le_of_le_mul hpos (by rwa [mul_comm] at hle)⟩

/-- The mean of a single input is that input. -/
theorem Updated.result_of_empty {upper : ℤ} {filter after : MeanFilter} {value result : ℤ}
    (h : Valid upper filter) (hupdated : Updated filter value result after)
    (hafter : Valid upper after) (hcount : filter.count = 0) : result = value := by
  have hlength := h.index_nonneg.trans_lt h.index_lt
  have hindex : filter.index = 0 := by
    rw [h.index_filling (by omega), hcount]
  have hone : after.count = 1 := by rw [hupdated.count, if_pos (by omega), hcount, zero_add]
  have hico : Ico (0 : ℤ) 1 = {0} := by
    ext slot
    rw [mem_Ico, mem_singleton]
    omega
  rw [hupdated.result, hafter.sum_eq_filled, hone, hico, sum_singleton, hupdated.buffer, hindex,
    Function.update_self, Int.tdiv_one]

end K210Firmware.Touch.Mean
