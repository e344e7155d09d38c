import Mathlib

/-!
# Rings and sliding windows

A ring of `length` cells is written round and round: `position` is the next cell to be written and
`count` the number of cells that hold a value. Such a ring holds the last `length` values of the
sequence written to it, its oldest value first. Where an index array lists the filled cells in the
order of their values, it sorts that window.
-/

namespace K210Firmware.Rings

variable {Value : Type*}

/-- The last `length` values of a history. -/
def window (length : ℤ) (history : List Value) : List Value := history.rtake length.toNat

/-- The position after a write. -/
def next (length position : ℤ) : ℤ := if position + 1 = length then 0 else position + 1

/-- The number of filled cells after a write. -/
def grown (length count : ℤ) : ℤ := if count < length then count + 1 else count

/-- A ring is filled from its first cell on before it wraps. -/
structure Cursor (length position count : ℤ) : Prop where
  count_nonneg : 0 ≤ count
  count_le : count ≤ length
  position_nonneg : 0 ≤ position
  position_lt : position < length
  filling : count < length → position = count

/-- The cell that holds the value written as number `age` of those still held. -/
def slot (length position count age : ℤ) : ℤ :=
  if position - count + age < 0 then position - count + age + length else position - count + age

/-- The filled cells hold the last values of the history, from the oldest to the newest. -/
structure Holds (cell : ℤ → Value) (length position count : ℤ) (history : List Value) : Prop where
  count_eq : count = min (history.length : ℤ) length
  entry : ∀ age : ℕ, (age : ℤ) < count →
    history[history.length - count.toNat + age]? = some (cell (slot length position count age))

variable {cell : ℤ → Value} {length position count : ℤ} {history : List Value}

theorem Holds.empty (hlength : 0 < length) (cell : ℤ → Value) : Holds cell length 0 0 [] where
  count_eq := by simp [hlength.le]
  entry age hage := by omega

/-- **Writing.** A value written to the ring becomes the newest of its window. -/
theorem Holds.push (hcursor : Cursor length position count)
    (h : Holds cell length position count history) (value : Value) :
    Holds (Function.update cell position value) length (next length position) (grown length count)
      (history ++ [value]) := by
  obtain ⟨hnonneg, hle, hposition, hlt, hfilling⟩ := hcursor
  have hcount := h.count_eq
  have hgrown : grown length count = min ((history ++ [value]).length : ℤ) length := by
    simp only [grown, List.length_append, List.length_singleton]
    split_ifs <;> omega
  refine ⟨hgrown, fun age hage ↦ ?_⟩
  rw [List.length_append, List.length_singleton]
  by_cases hnewest : (age : ℤ) + 1 = grown length count
  · have hindex : history.length + 1 - (grown length count).toNat + age = history.length := by
      simp only [List.length_append, List.length_singleton] at hgrown
      omega
    have hslot : slot length (next length position) (grown length count) age = position := by
      simp only [slot, next, grown] at hnewest ⊢
      split_ifs at hnewest ⊢ <;> omega
    rw [hindex, hslot, Function.update_self, List.getElem?_append_right le_rfl, Nat.sub_self]
    rfl
  · -- A value that is not the newest was held before, one place later in a ring that was full.
    obtain ⟨older, holder, hindex, hslot, hne⟩ : ∃ older : ℕ, (older : ℤ) < count ∧
        history.length + 1 - (grown length count).toNat + age =
          history.length - count.toNat + older ∧
        slot length (next length position) (grown length count) age =
          slot length position count older ∧
        slot length position count older ≠ position := by
      by_cases hfull : count < length
      · have hgrow : grown length count = count + 1 := if_pos hfull
        have hfirst := hfilling hfull
        refine ⟨age, by omega, by omega, ?_, ?_⟩
        · rw [hgrow]
          simp only [slot, next]
          split_ifs <;> omega
        · simp only [slot]
          split_ifs <;> omega
      · have hgrow : grown length count = count := if_neg hfull
        refine ⟨age + 1, by push_cast; omega, by omega, ?_, ?_⟩
        · rw [hgrow]
          simp only [slot, next]
          push_cast
          split_ifs <;> omega
        · simp only [slot]
          push_cast
          split_ifs <;> omega
    rw [hindex, hslot, Function.update_of_ne hne,
      List.getElem?_append_left (by omega)]
    exact h.entry older holder

/-- The window, read off the cells. -/
theorem Holds.window_eq (hcursor : Cursor length position count)
    (h : Holds cell length position count history) :
    window length history =
      (List.range count.toNat).map fun age : ℕ ↦ cell (slot length position count age) := by
  have hcount := h.count_eq
  have hnonneg := hcursor.count_nonneg
  have hlength : (window length history).length = count.toNat := by
    simp only [window, List.rtake, List.length_drop]
    omega
  apply List.ext_getElem?
  intro age
  by_cases hage : age < count.toNat
  · have hdrop : (window length history)[age]? =
        history[history.length - count.toNat + age]? := by
      rw [window, List.rtake, List.getElem?_drop]
      congr 1
      omega
    rw [hdrop, h.entry age (by omega), List.getElem?_map, List.getElem?_range hage]
    rfl
  · rw [List.getElem?_eq_none (by omega), List.getElem?_eq_none (by simp; omega)]

/-! ## Order -/

/-- Reading the cells through a permutation of an initial interval reads the same values. -/
theorem map_perm_of_bijOn {place : ℤ → ℤ} {bound : ℕ}
    (h : Set.BijOn place (Set.Ico 0 bound) (Set.Ico 0 bound)) (cell : ℤ → Value) :
    ((List.range bound).map fun age : ℕ ↦ cell (place age)).Perm
      ((List.range bound).map fun age : ℕ ↦ cell age) := by
  have hperm : ((List.range bound).map fun age : ℕ ↦ place age).Perm
      ((List.range bound).map fun age : ℕ ↦ (age : ℤ)) := by
    rw [List.perm_ext_iff_of_nodup]
    · intro value
      simp only [List.mem_map, List.mem_range]
      constructor
      · rintro ⟨age, hage, rfl⟩
        obtain ⟨hlower, hupper⟩ :=
          h.mapsTo (show (age : ℤ) ∈ Set.Ico (0 : ℤ) bound from ⟨by omega, by omega⟩)
        exact ⟨(place age).toNat, by omega, by omega⟩
      · rintro ⟨age, hage, rfl⟩
        obtain ⟨source, ⟨hlower, hupper⟩, hplace⟩ :=
          h.surjOn (show (age : ℤ) ∈ Set.Ico (0 : ℤ) bound from ⟨by omega, by omega⟩)
        exact ⟨source.toNat, by omega, by rwa [Int.toNat_of_nonneg hlower]⟩
    · apply List.Nodup.map_on _ List.nodup_range
      intro left hleft right hright heq
      rw [List.mem_range] at hleft hright
      exact Int.ofNat_inj.mp (h.injOn ⟨by omega, by omega⟩ ⟨by omega, by omega⟩ heq)
    · exact List.nodup_range.map fun _ _ heq ↦ Int.ofNat_inj.mp heq
  simpa only [List.map_map, Function.comp_def] using hperm.map cell

/-- The window's values are those of the filled cells. -/
theorem slot_bijOn (hcursor : Cursor length position count) :
    Set.BijOn (slot length position count) (Set.Ico 0 count) (Set.Ico 0 count) := by
  obtain ⟨hnonneg, hle, hposition, hlt, hfilling⟩ := hcursor
  refine ⟨fun age hage ↦ ?_, fun left hleft right hright heq ↦ ?_, fun place hplace ↦ ?_⟩
  · obtain ⟨hlower, hupper⟩ := hage
    simp only [slot, Set.mem_Ico]
    split_ifs <;> omega
  · obtain ⟨hlower, hupper⟩ := hleft
    obtain ⟨hlower', hupper'⟩ := hright
    simp only [slot] at heq
    split_ifs at heq <;> omega
  · obtain ⟨hlower, hupper⟩ := hplace
    refine ⟨if place - position + count < count then place - position + count
      else place - position + count - length, ?_, ?_⟩
    · simp only [Set.mem_Ico]
      split_ifs <;> omega
    · simp only [slot]
      split_ifs <;> omega

theorem Holds.window_perm (hcursor : Cursor length position count)
    (h : Holds cell length position count history) :
    (window length history).Perm ((List.range count.toNat).map fun place : ℕ ↦ cell place) := by
  rw [h.window_eq hcursor]
  apply map_perm_of_bijOn
  rw [Int.toNat_of_nonneg hcursor.count_nonneg]
  exact slot_bijOn hcursor

/-- The window has the sum of the filled cells. -/
theorem Holds.sum_window [AddCommMonoid Value] (hcursor : Cursor length position count)
    (h : Holds cell length position count history) :
    (window length history).sum = ∑ place ∈ Finset.Ico 0 count, cell place := by
  have hnonneg := hcursor.count_nonneg
  calc (window length history).sum
      = ((List.range count.toNat).map fun place : ℕ ↦ cell place).sum :=
        (h.window_perm hcursor).sum_eq
    _ = ∑ place ∈ Finset.range count.toNat, cell place := by
        rw [Finset.sum, Finset.range_val, Multiset.range, Multiset.map_coe, Multiset.sum_coe]
    _ = ∑ place ∈ Finset.Ico 0 count, cell place := by
        apply Finset.sum_nbij (fun place : ℕ ↦ (place : ℤ))
        · intro place hplace
          rw [Finset.mem_range] at hplace
          exact Finset.mem_Ico.mpr ⟨by omega, by omega⟩
        · exact fun left _ right _ heq ↦ Int.ofNat_inj.mp heq
        · intro place hplace
          obtain ⟨hlower, hupper⟩ := Finset.mem_Ico.mp hplace
          exact ⟨place.toNat, by simp; omega, by simp [hlower]⟩
        · intro place _
          rfl

/-- **Ranks.** If `index` lists the filled cells in the order of their values, the value of its
entry `rank` is the one of that rank in the window. -/
theorem Holds.sort_window [LinearOrder Value] (hcursor : Cursor length position count)
    (h : Holds cell length position count history) {index : ℤ → ℤ}
    (hindex : Set.BijOn index (Set.Ico 0 count) (Set.Ico 0 count))
    (hsorted : ∀ left right, 0 ≤ left → left < right → right < count →
      cell (index left) ≤ cell (index right)) {rank : ℕ} (hrank : (rank : ℤ) < count) :
    (Multiset.sort (window length history : Multiset Value))[rank]? = some (cell (index rank)) := by
  have hlisted : Multiset.sort (window length history : Multiset Value) =
      (List.range count.toNat).map fun rank : ℕ ↦ cell (index rank) := by
    apply List.Perm.eq_of_pairwise' (r := (· ≤ ·))
    · exact Multiset.pairwise_sort ..
    · rw [List.pairwise_map]
      apply List.pairwise_lt_range.imp_of_mem
      intro left right _ hright hlt
      rw [List.mem_range] at hright
      exact hsorted left right (by omega) (by omega) (by omega)
    · rw [Multiset.coe_sort]
      apply (List.mergeSort_perm _ _).trans
      apply (h.window_perm hcursor).trans
      apply (map_perm_of_bijOn _ cell).symm
      rwa [Int.toNat_of_nonneg hcursor.count_nonneg]
  rw [hlisted, List.getElem?_map, List.getElem?_range (by omega)]
  rfl

end K210Firmware.Rings
