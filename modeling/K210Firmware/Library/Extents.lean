import Mathlib

/-!
# Extents and their tally

A store of numbered cells is divided into extents of consecutive cells. The tally of a cell is the
number of extents that hold it. Splitting and merging extents leaves every tally as it is, so an
allocator is described by what it does to the tally: where no tally is above one, different
extents are apart, and where every cell of a store has tally one, the extents tile it.
-/

namespace K210Firmware

/-- The `count` cells from `first` on. -/
structure Extent where
  first : ℕ
  count : ℕ
  deriving DecidableEq, Repr

namespace Extent

/-- The first cell behind the extent. -/
def stop (extent : Extent) : ℕ := extent.first + extent.count

def Holds (extent : Extent) (cell : ℕ) : Prop := extent.first ≤ cell ∧ cell < extent.stop

instance (extent : Extent) (cell : ℕ) : Decidable (extent.Holds cell) :=
  inferInstanceAs (Decidable (_ ∧ _))

/-- The two extents have no cell in common. -/
def Apart (extent other : Extent) : Prop := ∀ cell, extent.Holds cell → ¬ other.Holds cell

/-- Every cell of the extent is a cell of the other. -/
def Within (extent other : Extent) : Prop := other.first ≤ extent.first ∧ extent.stop ≤ other.stop

variable {extent other whole : Extent} {extents rest : List Extent} {cell : ℕ}

theorem holds_first (h : 0 < extent.count) : extent.Holds extent.first :=
  ⟨Nat.le_refl _, Nat.lt_add_of_pos_right h⟩

theorem Within.holds (h : extent.Within other) (hcell : extent.Holds cell) : other.Holds cell :=
  ⟨h.1.trans hcell.1, hcell.2.trans_le h.2⟩

theorem Apart.symm (h : extent.Apart other) : other.Apart extent :=
  fun cell hother hextent ↦ h cell hextent hother

theorem Apart.mono {inner inner' : Extent} (h : extent.Apart other) (hinner : inner.Within extent)
    (hinner' : inner'.Within other) : inner.Apart inner' :=
  fun cell hcell hcell' ↦ h cell (hinner.holds hcell) (hinner'.holds hcell')

theorem apart_of_stop_le (h : extent.stop ≤ other.first) : extent.Apart other :=
  fun _ hcell hother ↦ absurd (hcell.2.trans_le h) (Nat.not_lt.mpr hother.1)

/-! ## The tally -/

/-- The number of extents that hold the cell. -/
def tally (extents : List Extent) (cell : ℕ) : ℕ :=
  extents.countP fun extent ↦ decide (extent.Holds cell)

@[simp]
theorem tally_nil (cell : ℕ) : tally [] cell = 0 := rfl

theorem tally_cons (extent : Extent) (rest : List Extent) (cell : ℕ) :
    tally (extent :: rest) cell = (if extent.Holds cell then 1 else 0) + tally rest cell := by
  rw [tally, List.countP_cons, Nat.add_comm]
  simp [tally]

@[simp]
theorem tally_singleton (extent : Extent) (cell : ℕ) :
    tally [extent] cell = if extent.Holds cell then 1 else 0 := by
  rw [tally_cons, tally_nil, Nat.add_zero]

@[simp]
theorem tally_append (extents rest : List Extent) (cell : ℕ) :
    tally (extents ++ rest) cell = tally extents cell + tally rest cell :=
  List.countP_append

theorem tally_perm (h : extents.Perm rest) (cell : ℕ) : tally extents cell = tally rest cell :=
  h.countP_eq _

/-- **Splitting.** Two adjacent extents tally as one. -/
theorem tally_split (first count more cell : ℕ) :
    tally [⟨first, count + more⟩] cell =
      tally [⟨first, count⟩] cell + tally [⟨first + count, more⟩] cell := by
  have hsplit : Holds ⟨first, count + more⟩ cell ↔
      Holds ⟨first, count⟩ cell ∨ Holds ⟨first + count, more⟩ cell := by
    simp only [Holds, stop]
    omega
  have hapart : Holds ⟨first, count⟩ cell → ¬ Holds ⟨first + count, more⟩ cell := by
    simp only [Holds, stop]
    omega
  by_cases hleft : Holds ⟨first, count⟩ cell
  · simp [hsplit, hleft, hapart hleft]
  · simp [hsplit, hleft]

/-- **Merging.** An extent and the one right behind it tally as one. -/
theorem tally_join (extent other : Extent) (h : extent.stop = other.first) (cell : ℕ) :
    tally [⟨extent.first, extent.count + other.count⟩] cell =
      tally [extent] cell + tally [other] cell := by
  obtain ⟨start, more⟩ := other
  obtain rfl : extent.stop = start := h
  exact tally_split extent.first extent.count more cell

theorem tally_pos (h : extent ∈ extents) (hcell : extent.Holds cell) : 0 < tally extents cell :=
  List.countP_pos_iff.mpr ⟨extent, h, decide_eq_true hcell⟩

theorem exists_of_tally_pos (h : 0 < tally extents cell) :
    ∃ extent ∈ extents, extent.Holds cell := by
  obtain ⟨extent, hmem, hholds⟩ := List.countP_pos_iff.mp h
  exact ⟨extent, hmem, of_decide_eq_true hholds⟩

theorem tally_le_one (h : extents.Pairwise Apart) (cell : ℕ) : tally extents cell ≤ 1 := by
  induction extents with
  | nil => exact Nat.zero_le 1
  | cons extent rest ih =>
    obtain ⟨hhead, htail⟩ := List.pairwise_cons.mp h
    rw [tally_cons]
    split_ifs with hholds
    · have hnone : tally rest cell = 0 := by
        by_contra hsome
        obtain ⟨other, hother, hcell⟩ := exists_of_tally_pos (Nat.pos_of_ne_zero hsome)
        exact hhead other hother cell hholds hcell
      rw [hnone]
    · have hrest := ih htail
      omega

/-! ## Tilings -/

/-- Every cell of the whole is held once, and no other cell is held. -/
def Tiles (extents : List Extent) (whole : Extent) : Prop :=
  ∀ cell, tally extents cell = tally [whole] cell

theorem Tiles.le_one (h : Tiles extents whole) (cell : ℕ) : tally extents cell ≤ 1 := by
  rw [h cell, tally_singleton]
  split <;> omega

theorem Tiles.holds (h : Tiles extents whole) (hmem : extent ∈ extents)
    (hcell : extent.Holds cell) : whole.Holds cell := by
  have hpos := tally_pos hmem hcell
  rw [h cell, tally_singleton] at hpos
  by_contra hnot
  rw [if_neg hnot] at hpos
  exact Nat.lt_irrefl 0 hpos

theorem Tiles.within (h : Tiles extents whole) (hmem : extent ∈ extents) (hpos : 0 < extent.count) :
    extent.Within whole := by
  have hfirst := h.holds hmem (holds_first hpos)
  have hlast : whole.Holds (extent.stop - 1) := by
    refine h.holds hmem ⟨?_, ?_⟩ <;> unfold stop <;> omega
  refine ⟨hfirst.1, ?_⟩
  have hupper := hlast.2
  unfold stop at hupper ⊢
  omega

theorem sum_tally (bound : ℕ) (h : ∀ extent ∈ extents, extent.stop ≤ bound) :
    ∑ cell ∈ Finset.range bound, tally extents cell = (extents.map count).sum := by
  induction extents with
  | nil => simp
  | cons extent rest ih =>
    have hrest := ih fun other hother ↦ h other (List.mem_cons_of_mem _ hother)
    have hstop : extent.stop ≤ bound := h extent (List.mem_cons_self ..)
    have hcells : (Finset.range bound).filter extent.Holds = Finset.Ico extent.first extent.stop := by
      ext cell
      simp only [Finset.mem_filter, Finset.mem_range, Finset.mem_Ico, Holds]
      omega
    simp only [tally_cons, Finset.sum_add_distrib, hrest, List.map_cons, List.sum_cons]
    rw [← Finset.sum_filter, hcells, Finset.sum_const, Nat.card_Ico]
    simp [stop]

/-- Extents that are apart take no more room than the extent they lie in. -/
theorem sum_count_le (h : extents.Pairwise Apart)
    (hwithin : ∀ extent ∈ extents, extent.Within whole) :
    (extents.map count).sum ≤ whole.count := by
  rw [← sum_tally whole.stop fun extent hextent ↦ (hwithin extent hextent).2]
  have hle (cell : ℕ) : tally extents cell ≤ tally [whole] cell := by
    by_cases hcell : whole.Holds cell
    · rw [tally_singleton, if_pos hcell]
      exact tally_le_one h cell
    · have hnone : tally extents cell = 0 := by
        by_contra hsome
        obtain ⟨extent, hextent, hholds⟩ := exists_of_tally_pos (Nat.pos_of_ne_zero hsome)
        exact hcell ((hwithin extent hextent).holds hholds)
      rw [hnone]
      exact Nat.zero_le _
  calc ∑ cell ∈ Finset.range whole.stop, tally extents cell
      ≤ ∑ cell ∈ Finset.range whole.stop, tally [whole] cell :=
        Finset.sum_le_sum fun cell _ ↦ hle cell
    _ = ([whole].map count).sum := sum_tally whole.stop fun extent hextent ↦ by
        rw [List.mem_singleton.mp hextent]
    _ = whole.count := by simp

/-- **Conservation.** The cells of a tiling add up to the whole. -/
theorem Tiles.sum_count (h : Tiles extents whole) : (extents.map count).sum = whole.count := by
  have hbound (extent : Extent) : extent.stop ≤
      max whole.stop ((extents.map stop).foldr max 0) ∨ extent ∉ extents := by
    by_cases hmem : extent ∈ extents
    · left
      have hle : extent.stop ≤ (extents.map stop).foldr max 0 := by
        clear h
        induction extents with
        | nil => cases hmem
        | cons head tail ih =>
          rw [List.map_cons, List.foldr_cons]
          rcases List.mem_cons.mp hmem with rfl | htail
          · exact Nat.le_max_left _ _
          · exact (ih htail).trans (Nat.le_max_right _ _)
      exact hle.trans (Nat.le_max_right _ _)
    · exact .inr hmem
  have hextents := @sum_tally extents _
    fun extent hmem ↦ (hbound extent).resolve_right (not_not_intro hmem)
  have hwhole := @sum_tally [whole] (max whole.stop ((extents.map stop).foldr max 0))
    fun extent hmem ↦ by
      rw [List.mem_singleton.mp hmem]
      exact Nat.le_max_left _ _
  rw [← hextents, Finset.sum_congr rfl fun cell _ ↦ h cell, hwhole]
  simp

/-! ## Separated lists -/

/-- The extents ascend, are not empty, and have a gap between any two of them. -/
structure Separated (extents : List Extent) : Prop where
  gaps : extents.Pairwise fun extent other ↦ extent.stop < other.first
  nonempty : ∀ extent ∈ extents, 0 < extent.count

theorem Separated.nil : Separated [] := ⟨.nil, nofun⟩

theorem separated_cons : Separated (extent :: rest) ↔
    (∀ other ∈ rest, extent.stop < other.first) ∧ 0 < extent.count ∧ Separated rest := by
  constructor
  · rintro ⟨hgaps, hnonempty⟩
    obtain ⟨hhead, htail⟩ := List.pairwise_cons.mp hgaps
    exact ⟨hhead, hnonempty _ (List.mem_cons_self ..), htail,
      fun other hother ↦ hnonempty other (List.mem_cons_of_mem _ hother)⟩
  · rintro ⟨hhead, hpos, htail⟩
    refine ⟨List.pairwise_cons.mpr ⟨hhead, htail.gaps⟩, fun other hother ↦ ?_⟩
    rcases List.mem_cons.mp hother with rfl | hother
    · exact hpos
    · exact htail.nonempty other hother

theorem Separated.ordered (h : Separated extents) (hextent : extent ∈ extents)
    (hother : other ∈ extents) :
    extent = other ∨ extent.stop < other.first ∨ other.stop < extent.first := by
  induction extents with
  | nil => cases hextent
  | cons head tail ih =>
    obtain ⟨hhead, _, htail⟩ := separated_cons.mp h
    rcases List.mem_cons.mp hextent with rfl | hfirst <;>
      rcases List.mem_cons.mp hother with rfl | hsecond
    · exact .inl rfl
    · exact .inr (.inl (hhead _ hsecond))
    · exact .inr (.inr (hhead _ hfirst))
    · exact ih htail hfirst hsecond

/-- **Maximality.** An extent whose cells are all held lies in one extent of a separated list. -/
theorem Separated.exists_within (h : Separated extents) (hpos : 0 < extent.count)
    (hheld : ∀ cell, extent.Holds cell → 0 < tally extents cell) :
    ∃ run ∈ extents, extent.Within run := by
  obtain ⟨run, hrun, hfirst⟩ := exists_of_tally_pos (hheld _ (holds_first hpos))
  refine ⟨run, hrun, hfirst.1, ?_⟩
  by_contra hlong
  -- the cell behind the run belongs to the extent, so another run would touch this one
  have hstop : extent.Holds run.stop := ⟨hfirst.2.le, Nat.not_le.mp hlong⟩
  obtain ⟨next, hnext, hholds⟩ := exists_of_tally_pos (hheld _ hstop)
  have hstart := hfirst.1
  have hlower := hfirst.2
  have hnextUpper := hholds.2
  have hnextLower := hholds.1
  rcases h.ordered hrun hnext with rfl | hafter | hbefore
  · exact Nat.lt_irrefl _ hnextUpper
  · omega
  · omega

end Extent

end K210Firmware
