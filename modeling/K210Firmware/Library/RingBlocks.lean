import K210Firmware.Library.Extents

/-!
# Blocks in ring order

Blocks are taken from a buffer in a ring: each one starts right behind the one before it, or at the
front of the buffer again where the room at the end is too short. Blocks may be given back in any
order. A list of blocks is ringed when it ascends, with one descent at most, behind which every
block lies before every block in front of it.
-/

namespace K210Firmware.Extent

variable {whole extent head tail : Extent} {blocks high low : List Extent} {first count : ℕ}

def Ascending (blocks : List Extent) : Prop :=
  blocks.Pairwise fun extent other ↦ extent.stop ≤ other.first

/-- In ring order inside `whole`: `high` are the blocks up to the descent, `low` those behind it. -/
structure Split (whole : Extent) (high low : List Extent) : Prop where
  highUp : Ascending high
  lowUp : Ascending low
  below : ∀ extent ∈ high, ∀ other ∈ low, other.stop ≤ extent.first
  inside : ∀ extent ∈ high ++ low, extent.Within whole
  nonempty : ∀ extent ∈ high ++ low, 0 < extent.count

def Ringed (whole : Extent) (blocks : List Extent) : Prop :=
  ∃ high low, blocks = high ++ low ∧ Split whole high low

theorem Ringed.nil : Ringed whole [] := ⟨[], [], rfl, .nil, .nil, nofun, nofun, nofun⟩

theorem Ringed.inside (h : Ringed whole blocks) (hmem : extent ∈ blocks) : extent.Within whole := by
  obtain ⟨high, low, rfl, hsplit⟩ := h
  exact hsplit.inside extent hmem

theorem Ringed.pairwise_apart (h : Ringed whole blocks) : blocks.Pairwise Apart := by
  obtain ⟨high, low, rfl, hsplit⟩ := h
  refine List.pairwise_append.mpr ⟨?_, ?_, ?_⟩
  · exact hsplit.highUp.imp apart_of_stop_le
  · exact hsplit.lowUp.imp apart_of_stop_le
  · intro extent hextent other hother
    exact (apart_of_stop_le (hsplit.below extent hextent other hother)).symm

/-- **Giving back.** What is left of a ring is a ring. -/
theorem Ringed.sublist {rest : List Extent} (h : Ringed whole blocks) (hrest : rest.Sublist blocks) :
    Ringed whole rest := by
  obtain ⟨high, low, rfl, hsplit⟩ := h
  obtain ⟨high', low', rfl, hhigh, hlow⟩ := List.sublist_append_iff.mp hrest
  refine ⟨high', low', rfl, hsplit.highUp.sublist hhigh, hsplit.lowUp.sublist hlow, ?_, ?_, ?_⟩
  · intro extent hextent other hother
    exact hsplit.below extent (hhigh.subset hextent) other (hlow.subset hother)
  · exact fun extent hextent ↦ hsplit.inside extent (hrest.subset hextent)
  · exact fun extent hextent ↦ hsplit.nonempty extent (hrest.subset hextent)

/-! ## The head and the tail -/

/-- In an ascending list the head is below every block, and every block is below the tail. -/
theorem Ascending.head_le (h : Ascending blocks) (hhead : blocks.head? = some head)
    (hmem : extent ∈ blocks) : head.first ≤ extent.first := by
  cases blocks with
  | nil => cases hmem
  | cons other rest =>
    obtain rfl : other = head := Option.some.inj hhead
    rcases List.mem_cons.mp hmem with rfl | hrest
    · exact Nat.le_refl _
    · exact (Nat.le_add_right _ _).trans ((List.pairwise_cons.mp h).1 extent hrest)

theorem Ascending.stop_le_tail (h : Ascending blocks) (htail : blocks.getLast? = some tail)
    (hmem : extent ∈ blocks) : extent.stop ≤ tail.stop := by
  obtain ⟨rest, rfl⟩ := List.getLast?_eq_some_iff.mp htail
  rcases List.mem_append.mp hmem with hrest | hlast
  · have hle := (List.pairwise_append.mp h).2.2 extent hrest tail (List.mem_singleton.mpr rfl)
    exact hle.trans (Nat.le_add_right _ _)
  · rw [List.mem_singleton.mp hlast]

theorem ascending_concat (h : Ascending blocks) (hbelow : ∀ other ∈ blocks, other.stop ≤ first) :
    Ascending (blocks ++ [⟨first, count⟩]) := by
  refine List.pairwise_append.mpr ⟨h, List.pairwise_singleton _ _, ?_⟩
  intro other hother extent hextent
  rw [List.mem_singleton.mp hextent]
  exact hbelow other hother

/-- **The descent shows.** The head starts at or below the tail exactly in a list that ascends. -/
theorem Ringed.cases (h : Ringed whole blocks) (hhead : blocks.head? = some head)
    (htail : blocks.getLast? = some tail) :
    (head.first ≤ tail.first ∧ Split whole blocks []) ∨
      (tail.first < head.first ∧ ∃ high low, blocks = high ++ low ∧ Split whole high low ∧
        high.head? = some head ∧ low.getLast? = some tail) := by
  obtain ⟨high, low, rfl, hsplit⟩ := h
  have htailMem : tail ∈ high ++ low := List.mem_of_getLast? htail
  cases hlow : low with
  | nil =>
    subst hlow
    rw [List.append_nil] at hhead htailMem ⊢
    exact .inl ⟨hsplit.highUp.head_le hhead htailMem, hsplit⟩
  | cons other rest =>
    cases hhigh : high with
    | nil =>
      subst hhigh
      rw [← hlow, List.nil_append] at *
      refine .inl ⟨hsplit.lowUp.head_le hhead htailMem, hsplit.lowUp, .nil, nofun, ?_, ?_⟩
      · simpa using hsplit.inside
      · simpa using hsplit.nonempty
    | cons first' rest' =>
      have hheadHigh : high.head? = some head := by
        rw [hhigh] at hhead ⊢
        exact hhead
      have htailLow : low.getLast? = some tail := by
        rw [hlow] at htail ⊢
        rw [List.getLast?_append] at htail
        simpa using htail
      have hbelow : tail.stop ≤ head.first := by
        refine hsplit.below head ?_ tail (List.mem_of_getLast? htailLow)
        exact List.mem_of_mem_head? hheadHigh
      have hcount := hsplit.nonempty tail htailMem
      rw [← hhigh, ← hlow]
      refine .inr ⟨?_, high, low, rfl, hsplit, hheadHigh, htailLow⟩
      unfold stop at hbelow
      omega

theorem Ringed.stop_le_of_lt (h : Ringed whole blocks) (hhead : blocks.head? = some head)
    (htail : blocks.getLast? = some tail) (hlt : tail.first < head.first) :
    tail.stop ≤ head.first := by
  rcases h.cases hhead htail with ⟨hle, _⟩ | ⟨_, high, low, _, hsplit, hhigh, hlow⟩
  · exact absurd hlt (Nat.not_lt.mpr hle)
  · exact hsplit.below head (List.mem_of_mem_head? hhigh) tail (List.mem_of_getLast? hlow)

/-! ## Taking a block -/

theorem Ringed.singleton (hpos : 0 < count) (hin : Within ⟨first, count⟩ whole) :
    Ringed whole [⟨first, count⟩] := by
  refine ⟨[⟨first, count⟩], [], rfl, List.pairwise_singleton _ _, .nil, nofun, ?_, ?_⟩
  · intro extent hextent
    rw [List.mem_singleton.mp hextent]
    exact hin
  · intro extent hextent
    rw [List.mem_singleton.mp hextent]
    exact hpos

/-- **Where a block fits.** A block can go behind a list that ascends exactly when it lies behind
the tail or before the head, and behind one that descends exactly when it lies between the tail
and the head. -/
theorem Ringed.concat_iff (h : Ringed whole blocks) (hhead : blocks.head? = some head)
    (htail : blocks.getLast? = some tail) (hpos : 0 < count) :
    Ringed whole (blocks ++ [⟨first, count⟩]) ↔ Within ⟨first, count⟩ whole ∧
      if head.first ≤ tail.first then tail.stop ≤ first ∨ first + count ≤ head.first
      else tail.stop ≤ first ∧ first + count ≤ head.first := by
  have hinside (high low : List Extent) (hsplit : Split whole high low)
      (hin : Within ⟨first, count⟩ whole) :
      (∀ extent ∈ high ++ low ++ [⟨first, count⟩], extent.Within whole) ∧
        ∀ extent ∈ high ++ low ++ [⟨first, count⟩], 0 < extent.count := by
    simp only [List.mem_append, List.mem_singleton, or_imp, forall_and, forall_eq]
    have hinside := hsplit.inside
    have hnonempty := hsplit.nonempty
    simp only [List.mem_append, or_imp, forall_and] at hinside hnonempty
    exact ⟨⟨hinside, hin⟩, hnonempty, hpos⟩
  have hheadMem : head ∈ blocks := List.mem_of_mem_head? hhead
  have htailMem : tail ∈ blocks := List.mem_of_getLast? htail
  constructor
  · intro hring
    refine ⟨hring.inside (List.mem_append_right _ (List.mem_singleton.mpr rfl)), ?_⟩
    have hhead' : (blocks ++ [(⟨first, count⟩ : Extent)]).head? = some head := by
      rw [List.head?_append, hhead]
      rfl
    have hlast' : (blocks ++ [(⟨first, count⟩ : Extent)]).getLast? = some ⟨first, count⟩ :=
      List.getLast?_concat
    rcases hring.cases hhead' hlast' with ⟨hle, hsplit⟩ | ⟨hlt, high, low, heq, hsplit, hhigh, hlow⟩
    · -- still ascending
      have htailFirst : tail.stop ≤ first := (List.pairwise_append.mp hsplit.highUp).2.2 tail
        htailMem _ (List.mem_singleton.mpr rfl)
      have hheadTail : head.first ≤ tail.first :=
        Ascending.head_le (List.pairwise_append.mp hsplit.highUp).1 hhead htailMem
      rw [if_pos hheadTail]
      exact .inl htailFirst
    · obtain ⟨low', rfl⟩ := List.getLast?_eq_some_iff.mp hlow
      rw [← List.append_assoc] at heq
      obtain ⟨rfl, _⟩ := List.append_inj' heq rfl
      have hbefore : first + count ≤ head.first := hsplit.below head (List.mem_of_mem_head? hhigh)
        ⟨first, count⟩ (List.mem_append_right _ (List.mem_singleton.mpr rfl))
      split_ifs with hascends
      · exact .inr hbefore
      · refine ⟨?_, hbefore⟩
        -- the tail is behind the descent, or the list would ascend
        rcases List.mem_append.mp htailMem with hmem | hmem
        · have hhigh' : (high ++ low').head? = some head := hhead
          exact absurd (hsplit.highUp.head_le hhigh hmem) hascends
        · exact (List.pairwise_append.mp hsplit.lowUp).2.2 tail hmem _ (List.mem_singleton.mpr rfl)
  · rintro ⟨hin, hplace⟩
    rcases h.cases hhead htail with ⟨hle, hsplit⟩ | ⟨hlt, high, low, rfl, hsplit, hhigh, hlow⟩
    · rw [if_pos hle] at hplace
      obtain ⟨hins, hnonempty⟩ := hinside blocks [] hsplit hin
      rw [List.append_nil] at hins hnonempty
      rcases hplace with hbehind | hbefore
      · refine ⟨blocks ++ [⟨first, count⟩], [], (List.append_nil _).symm, ?_, .nil, nofun, ?_, ?_⟩
        · exact ascending_concat hsplit.highUp fun other hother ↦
            (hsplit.highUp.stop_le_tail htail hother).trans hbehind
        · simpa using hins
        · simpa using hnonempty
      · refine ⟨blocks, [⟨first, count⟩], rfl, hsplit.highUp, List.pairwise_singleton _ _, ?_,
          hins, hnonempty⟩
        intro extent hextent other hother
        rw [List.mem_singleton.mp hother]
        exact hbefore.trans (hsplit.highUp.head_le hhead hextent)
    · rw [if_neg (Nat.not_le.mpr hlt)] at hplace
      obtain ⟨hins, hnonempty⟩ := hinside high low hsplit hin
      refine ⟨high, low ++ [⟨first, count⟩], List.append_assoc .., hsplit.highUp, ?_, ?_, ?_, ?_⟩
      · exact ascending_concat hsplit.lowUp fun other hother ↦
          (hsplit.lowUp.stop_le_tail hlow hother).trans hplace.1
      · intro extent hextent other hother
        rcases List.mem_append.mp hother with hmem | hmem
        · exact hsplit.below extent hextent other hmem
        · rw [List.mem_singleton.mp hmem]
          exact hplace.2.trans (hsplit.highUp.head_le hhigh hextent)
      · rwa [← List.append_assoc]
      · rwa [← List.append_assoc]

end K210Firmware.Extent
