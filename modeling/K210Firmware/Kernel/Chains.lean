import K210Firmware.Kernel.Zones

/-!
# The chains of zones

A zone with a free chunk is on the chain of its index in `zone_array`, unless it is one of the
entirely free zones kept in `zone_free`; a zone without a free chunk is on no list. An entirely
free zone stays on its chain only while no other entirely free zone does, so the heap keeps few
pages that nobody uses.
-/

namespace K210Firmware.Kernel.Slab

open Memory Extent Pages

/-- What holds between sections for the pages `zones` at which zones start. -/
structure Zoned (zone : ℕ → SlabZone) (chain : ℤ → List ℕ) (zoneFree zones : List ℕ)
    (zoneSize zoneLimit zonePageCnt : ℕ) (held : List Held) : Prop where
  apart : zones.Pairwise fun z other ↦ Apart ⟨z, zonePageCnt⟩ ⟨other, zonePageCnt⟩
  header : ∀ z ∈ zones, Header zoneSize zoneLimit z (zone z)
  chunks : ∀ z ∈ zones, Chunks (zone z) ⟨z, zonePageCnt⟩ held
  magic : ∀ z ∈ zones, z ∉ zoneFree → (zone z).zMagic = zallocSlabMagic
  chain_nodup : ∀ zi, (chain zi).Nodup
  mem_chain : ∀ zi z, z ∈ chain zi ↔
    z ∈ zones ∧ z ∉ zoneFree ∧ (zone z).zZoneindex = zi ∧ 0 < (zone z).zNfree
  free_nodup : zoneFree.Nodup
  free_sub : ∀ z ∈ zoneFree, z ∈ zones
  free_idle : ∀ z ∈ zoneFree, (zone z).zNfree = (zone z).zNmax
  spare : ∀ z ∈ zones, ∀ other ∈ zones, z ∉ zoneFree → other ∉ zoneFree →
    (zone z).zZoneindex = (zone other).zZoneindex → (zone z).zNfree = (zone z).zNmax →
      (zone other).zNfree = (zone other).zNmax → z = other

/-- How the lists change around zone `z`, which is left with the header `header`. -/
structure Relinked (chain chain' : ℤ → List ℕ) (zoneFree zoneFree' : List ℕ) (z : ℕ)
    (header : SlabZone) : Prop where
  nodup : ∀ zi, (chain' zi).Nodup
  mem : ∀ zi other, other ∈ chain' zi ↔ other ≠ z ∧ other ∈ chain zi ∨
    other = z ∧ z ∉ zoneFree' ∧ header.zZoneindex = zi ∧ 0 < header.zNfree
  free_nodup : zoneFree'.Nodup
  free_mem : ∀ other, other ≠ z → (other ∈ zoneFree' ↔ other ∈ zoneFree)
  free_idle : z ∈ zoneFree' → header.zNfree = header.zNmax
  spare : z ∉ zoneFree' → header.zNfree = header.zNmax →
    ∀ other ∈ chain header.zZoneindex, other = z

namespace Zoned

variable {zone : ℕ → SlabZone} {chain chain' : ℤ → List ℕ} {zoneFree zoneFree' zones : List ℕ}
  {zoneSize zoneLimit zonePageCnt : ℕ} {held held' : List Held} {z : ℕ} {header : SlabZone}

section Basic

variable (h : Zoned zone chain zoneFree zones zoneSize zoneLimit zonePageCnt held)

include h

theorem nodup (hpages : 0 < zonePageCnt) : zones.Nodup := by
  refine h.apart.imp fun {z other} hapart ↦ ?_
  rintro rfl
  have hholds : Holds ⟨z, zonePageCnt⟩ z := holds_first hpages
  exact hapart z hholds hholds

theorem apart_of_ne {other : ℕ} (hz : z ∈ zones) (hother : other ∈ zones) (hne : z ≠ other) :
    Apart ⟨z, zonePageCnt⟩ ⟨other, zonePageCnt⟩ := by
  obtain ⟨before, after, rfl⟩ := List.append_of_mem hz
  obtain ⟨_, htail, hcross⟩ := List.pairwise_append.mp h.apart
  rcases List.mem_append.mp hother with hbefore | hafter
  · exact (hcross other hbefore z (List.mem_cons_self ..)).symm
  · rcases List.mem_cons.mp hafter with rfl | hafter
    · exact absurd rfl hne
    · exact (List.pairwise_cons.mp htail).1 other hafter

theorem perm {zones' : List ℕ} (hperm : zones.Perm zones') :
    Zoned zone chain zoneFree zones' zoneSize zoneLimit zonePageCnt held := by
  have hmem (z : ℕ) : z ∈ zones' ↔ z ∈ zones := hperm.mem_iff.symm
  refine ⟨(hperm.pairwise_iff fun hapart ↦ Apart.symm hapart).mp h.apart, fun z hz ↦ ?_,
    fun z hz ↦ ?_, fun z hz ↦ ?_, h.chain_nodup, fun zi z ↦ ?_, h.free_nodup, fun z hz ↦ ?_,
    h.free_idle, fun z hz other hother ↦ ?_⟩
  · exact h.header z ((hmem z).mp hz)
  · exact h.chunks z ((hmem z).mp hz)
  · exact h.magic z ((hmem z).mp hz)
  · rw [hmem]
    exact h.mem_chain zi z
  · exact (hmem z).mpr (h.free_sub z hz)
  · exact h.spare z ((hmem z).mp hz) other ((hmem other).mp hother)

/-- Zone `z`, new or known, gets the header `header`, and the held blocks change inside it only. -/
theorem enter (hpages : 0 < zonePageCnt)
    (hapart : ∀ other ∈ zones, other ≠ z → Apart ⟨z, zonePageCnt⟩ ⟨other, zonePageCnt⟩)
    (hheader : Header zoneSize zoneLimit z header)
    (hchunks : Chunks header ⟨z, zonePageCnt⟩ held')
    (hothers : ∀ other ∈ zones, other ≠ z → Chunks (zone other) ⟨other, zonePageCnt⟩ held')
    (hmagic : z ∉ zoneFree' → header.zMagic = zallocSlabMagic)
    (hlinks : Relinked chain chain' zoneFree zoneFree' z header) :
    Zoned (Function.update zone z header) chain' zoneFree' (z :: zones.erase z) zoneSize zoneLimit
      zonePageCnt held' := by
  have hnodup := h.nodup hpages
  have hrest (other : ℕ) : other ∈ zones.erase z ↔ other ≠ z ∧ other ∈ zones :=
    hnodup.mem_erase_iff
  have hself : Function.update zone z header z = header := Function.update_self ..
  have hkept {other : ℕ} (hne : other ≠ z) : Function.update zone z header other = zone other :=
    Function.update_of_ne hne ..
  refine ⟨List.pairwise_cons.mpr ⟨fun other hother ↦ ?_, h.apart.sublist List.erase_sublist⟩,
    fun other hother ↦ ?_, fun other hother ↦ ?_, fun other hother hfree ↦ ?_, hlinks.nodup,
    fun zi other ↦ ?_, hlinks.free_nodup, fun other hother ↦ ?_, fun other hother ↦ ?_,
    fun other hother another hanother hfree hfree' hindex hidle hidle' ↦ ?_⟩
  · obtain ⟨hne, hmem⟩ := (hrest other).mp hother
    exact hapart other hmem hne
  · rcases List.mem_cons.mp hother with rfl | hother
    · rwa [hself]
    · obtain ⟨hne, hmem⟩ := (hrest other).mp hother
      rw [hkept hne]
      exact h.header other hmem
  · rcases List.mem_cons.mp hother with rfl | hother
    · rwa [hself]
    · obtain ⟨hne, hmem⟩ := (hrest other).mp hother
      rw [hkept hne]
      exact hothers other hmem hne
  · rcases List.mem_cons.mp hother with rfl | hother
    · rw [hself]
      exact hmagic hfree
    · obtain ⟨hne, hmem⟩ := (hrest other).mp hother
      rw [hkept hne]
      exact h.magic other hmem fun hold ↦ hfree ((hlinks.free_mem other hne).mpr hold)
  · rw [hlinks.mem, List.mem_cons, hrest]
    by_cases hne : other = z
    · subst hne
      simp
    · rw [hkept hne, hlinks.free_mem other hne, h.mem_chain]
      simp [hne]
  · by_cases hne : other = z
    · exact hne ▸ List.mem_cons_self ..
    · exact List.mem_cons_of_mem _
        ((hrest other).mpr ⟨hne, h.free_sub other ((hlinks.free_mem other hne).mp hother)⟩)
  · by_cases hne : other = z
    · subst hne
      rw [hself]
      exact hlinks.free_idle hother
    · rw [hkept hne]
      exact h.free_idle other ((hlinks.free_mem other hne).mp hother)
  · -- an entirely free zone beside `z` would be on the chain of its index
    have hlast {other : ℕ} (hmem : other ∈ zones) (hne : other ≠ z) (hfree : other ∉ zoneFree')
        (hidle : (zone other).zNfree = (zone other).zNmax) :
        other ∈ chain (zone other).zZoneindex := by
      refine (h.mem_chain _ other).mpr ⟨hmem, ?_, rfl, ?_⟩
      · exact fun hold ↦ hfree ((hlinks.free_mem other hne).mpr hold)
      · have hpos := (h.chunks other hmem).uindex_lt
        omega
    by_cases hz : other = z <;> by_cases hz' : another = z
    · rw [hz, hz']
    · subst hz
      rw [hself, hkept hz'] at hindex
      rw [hself] at hidle
      rw [hkept hz'] at hidle'
      have hmem := ((hrest another).mp ((List.mem_cons.mp hanother).resolve_left hz')).2
      have hchain := hlast hmem hz' hfree' hidle'
      rw [← hindex] at hchain
      exact (hlinks.spare hfree hidle another hchain).symm
    · subst hz'
      rw [hself, hkept hz] at hindex
      rw [hself] at hidle'
      rw [hkept hz] at hidle
      have hmem := ((hrest other).mp ((List.mem_cons.mp hother).resolve_left hz)).2
      have hchain := hlast hmem hz hfree hidle
      rw [hindex] at hchain
      exact hlinks.spare hfree' hidle' other hchain
    · rw [hkept hz, hkept hz'] at hindex
      rw [hkept hz] at hidle
      rw [hkept hz'] at hidle'
      have hmem := ((hrest other).mp ((List.mem_cons.mp hother).resolve_left hz)).2
      have hmem' := ((hrest another).mp ((List.mem_cons.mp hanother).resolve_left hz')).2
      refine h.spare other hmem another hmem' ?_ ?_ hindex hidle hidle'
      · exact fun hold ↦ hfree ((hlinks.free_mem other hz).mpr hold)
      · exact fun hold ↦ hfree' ((hlinks.free_mem another hz').mpr hold)

/-- A zone that goes back to the page allocator leaves the books. -/
theorem leave (hpages : 0 < zonePageCnt) (hz : z ∈ zones) (hzone : z ∉ zoneFree)
    (hothers : ∀ other ∈ zones, other ≠ z → Chunks (zone other) ⟨other, zonePageCnt⟩ held') :
    Zoned (Function.update zone z header) (Function.update chain (zone z).zZoneindex
      ((chain (zone z).zZoneindex).erase z)) zoneFree (zones.erase z) zoneSize zoneLimit zonePageCnt
      held' := by
  have hrest (other : ℕ) : other ∈ zones.erase z ↔ other ≠ z ∧ other ∈ zones :=
    (h.nodup hpages).mem_erase_iff
  have hkept {other : ℕ} (hother : other ∈ zones.erase z) :
      Function.update zone z header other = zone other :=
    Function.update_of_ne ((hrest other).mp hother).1 ..
  refine ⟨h.apart.sublist List.erase_sublist, fun other hother ↦ ?_, fun other hother ↦ ?_,
    fun other hother hfree ↦ ?_, fun zi ↦ ?_, fun zi other ↦ ?_, h.free_nodup,
    fun other hother ↦ ?_, fun other hother ↦ ?_, fun other hother another hanother ↦ ?_⟩
  · rw [hkept hother]
    exact h.header other ((hrest other).mp hother).2
  · rw [hkept hother]
    exact hothers other ((hrest other).mp hother).2 ((hrest other).mp hother).1
  · rw [hkept hother]
    exact h.magic other ((hrest other).mp hother).2 hfree
  · by_cases hzi : zi = (zone z).zZoneindex
    · rw [hzi, Function.update_self]
      exact (h.chain_nodup _).erase z
    · rw [Function.update_of_ne hzi]
      exact h.chain_nodup zi
  · have hchain : other ∈ Function.update chain (zone z).zZoneindex
        ((chain (zone z).zZoneindex).erase z) zi ↔ other ≠ z ∧ other ∈ chain zi := by
      by_cases hzi : zi = (zone z).zZoneindex
      · rw [hzi, Function.update_self, (h.chain_nodup _).mem_erase_iff]
      · rw [Function.update_of_ne hzi, h.mem_chain]
        constructor
        · rintro ⟨hmem, hfree, hindex, hpos⟩
          refine ⟨?_, hmem, hfree, hindex, hpos⟩
          rintro rfl
          exact hzi hindex.symm
        · exact fun hpair ↦ hpair.2
    rw [hchain, h.mem_chain, hrest]
    by_cases hne : other = z
    · simp [hne]
    · simp [hne]
  · refine (hrest other).mpr ⟨?_, h.free_sub other hother⟩
    rintro rfl
    exact hzone hother
  · have hne : other ≠ z := by
      rintro rfl
      exact hzone hother
    rw [Function.update_of_ne hne]
    exact h.free_idle other hother
  · rw [hkept hother, hkept hanother]
    exact h.spare other ((hrest other).mp hother).2 another ((hrest another).mp hanother).2

end Basic

section Relinks

variable (h : Zoned zone chain zoneFree zones zoneSize zoneLimit zonePageCnt held)

include h

/-- Taking a chunk of the first zone of a chain. -/
theorem relinked_take {zi : ℤ} {zNext : List ℕ} (hchain : chain zi = z :: zNext)
    (hindex : header.zZoneindex = zi) (hbusy : header.zNfree < header.zNmax) :
    Relinked chain (if header.zNfree = 0 then Function.update chain zi zNext else chain)
      zoneFree zoneFree z header := by
  have hhead : z ∈ chain zi := hchain ▸ List.mem_cons_self ..
  obtain ⟨_, hfree, hzi, _⟩ := (h.mem_chain zi z).mp hhead
  obtain ⟨hz, hnext⟩ := List.nodup_cons.mp (hchain ▸ h.chain_nodup zi)
  have hother {zi' : ℤ} (hne : zi' ≠ zi) : z ∉ chain zi' := by
    intro hmem
    exact hne (((h.mem_chain zi' z).mp hmem).2.2.1.symm.trans hzi)
  refine ⟨fun zi' ↦ ?_, fun zi' other ↦ ?_, h.free_nodup, fun _ _ ↦ Iff.rfl, fun hmem ↦ ?_,
    fun _ hidle ↦ absurd hidle hbusy.ne⟩
  · split_ifs with hlast
    · by_cases hzi' : zi' = zi
      · rw [hzi', Function.update_self]
        exact hnext
      · rw [Function.update_of_ne hzi']
        exact h.chain_nodup zi'
    · exact h.chain_nodup zi'
  · by_cases hzi' : zi' = zi
    · subst hzi'
      split_ifs with hlast
      · rw [Function.update_self, hchain, List.mem_cons]
        constructor
        · intro hmem
          refine .inl ⟨?_, .inr hmem⟩
          rintro rfl
          exact hz hmem
        · rintro (⟨hne, hmem⟩ | ⟨_, _, _, hpos⟩)
          · exact hmem.resolve_left hne
          · omega
      · by_cases hne : other = z
        · subst hne
          simp [hhead, hfree, hindex, Nat.pos_of_ne_zero hlast]
        · simp [hne]
    · have hsame : (if header.zNfree = 0 then Function.update chain zi zNext else chain) zi' =
          chain zi' := by
        split_ifs
        · exact Function.update_of_ne hzi' ..
        · rfl
      rw [hsame]
      by_cases hne : other = z
      · subst hne
        have hindex' : ¬ header.zZoneindex = zi' := fun heq ↦ hzi' (heq.symm.trans hindex)
        simp [hother hzi', hindex']
      · simp [hne]
  · exact absurd hmem hfree

/-- Linking a fresh zone, which may come from the front of `zone_free`. -/
theorem relinked_format {zi : ℤ} (hnew : z ∈ zones → z ∈ zoneFree)
    (hindex : header.zZoneindex = zi) (hpos : 0 < header.zNfree)
    (hbusy : header.zNfree < header.zNmax) :
    Relinked chain (Function.update chain zi (z :: chain zi)) zoneFree (zoneFree.erase z) z
      header := by
  have hnone (zi' : ℤ) : z ∉ chain zi' := by
    intro hmem
    obtain ⟨hz, hfree, _⟩ := (h.mem_chain zi' z).mp hmem
    exact hfree (hnew hz)
  have hgone : z ∉ zoneFree.erase z := h.free_nodup.not_mem_erase
  refine ⟨fun zi' ↦ ?_, fun zi' other ↦ ?_, h.free_nodup.erase z,
    fun other hne ↦ List.mem_erase_of_ne hne, fun hmem ↦ absurd hmem hgone,
    fun _ hidle ↦ absurd hidle hbusy.ne⟩
  · by_cases hzi' : zi' = zi
    · rw [hzi', Function.update_self]
      exact List.nodup_cons.mpr ⟨hnone zi, h.chain_nodup zi⟩
    · rw [Function.update_of_ne hzi']
      exact h.chain_nodup zi'
  · by_cases hzi' : zi' = zi
    · subst hzi'
      by_cases hne : other = z
      · subst hne
        simp [hgone, hindex, hpos]
      · simp [hne]
    · rw [Function.update_of_ne hzi']
      by_cases hne : other = z
      · subst hne
        have hindex' : ¬ header.zZoneindex = zi' := fun heq ↦ hzi' (heq.symm.trans hindex)
        simp [hnone zi', hindex']
      · simp [hne]

/-- The chain of `z` once a chunk of it has been freed. -/
theorem linked_spec (hz : z ∈ zones) (hzone : z ∉ zoneFree) {linked : List ℕ}
    (hlinked : linked = if (zone z).zNfree = 0 then z :: chain (zone z).zZoneindex
      else chain (zone z).zZoneindex) :
    linked.Nodup ∧ z ∈ linked ∧
      (∀ other, other ≠ z → (other ∈ linked ↔ other ∈ chain (zone z).zZoneindex)) ∧
      linked.erase z = (chain (zone z).zZoneindex).erase z := by
  have hmem := h.mem_chain (zone z).zZoneindex z
  split_ifs at hlinked with hnone
  · have hnot : z ∉ chain (zone z).zZoneindex := by
      intro hin
      have hpos := (hmem.mp hin).2.2.2
      omega
    rw [hlinked]
    refine ⟨List.nodup_cons.mpr ⟨hnot, h.chain_nodup _⟩, List.mem_cons_self .., fun other hne ↦ ?_,
      ?_⟩
    · simp [hne]
    · rw [List.erase_cons_head, List.erase_of_not_mem hnot]
  · rw [hlinked]
    exact ⟨h.chain_nodup _, hmem.mpr ⟨hz, hzone, rfl, Nat.pos_of_ne_zero hnone⟩,
      fun _ _ ↦ Iff.rfl, rfl⟩

/-- Freeing a chunk of a zone that stays on its chain. -/
theorem relinked_give (hz : z ∈ zones) (hzone : z ∉ zoneFree) {linked : List ℕ}
    (hlinked : linked = if (zone z).zNfree = 0 then z :: chain (zone z).zZoneindex
      else chain (zone z).zZoneindex)
    (hindex : header.zZoneindex = (zone z).zZoneindex) (hpos : 0 < header.zNfree)
    (hstay : ¬ (header.zNfree = header.zNmax ∧ linked ≠ [z])) :
    Relinked chain (Function.update chain (zone z).zZoneindex linked) zoneFree zoneFree z
      header := by
  obtain ⟨hnodup, hself, hothers, _⟩ := h.linked_spec hz hzone hlinked
  refine ⟨fun zi ↦ ?_, fun zi other ↦ ?_, h.free_nodup, fun _ _ ↦ Iff.rfl,
    fun hmem ↦ absurd hmem hzone, fun _ hidle other hother ↦ ?_⟩
  · by_cases hzi : zi = (zone z).zZoneindex
    · rw [hzi, Function.update_self]
      exact hnodup
    · rw [Function.update_of_ne hzi]
      exact h.chain_nodup zi
  · by_cases hne : other = z
    · subst hne
      by_cases hzi : zi = (zone other).zZoneindex
      · rw [hzi, Function.update_self]
        simp [hself, hzone, hindex, hpos]
      · rw [Function.update_of_ne hzi]
        have hnot : other ∉ chain zi := fun hmem ↦ hzi ((h.mem_chain zi other).mp hmem).2.2.1.symm
        have hindex' : ¬ header.zZoneindex = zi := fun heq ↦ hzi (heq.symm.trans hindex)
        simp [hnot, hindex']
    · by_cases hzi : zi = (zone z).zZoneindex
      · rw [hzi, Function.update_self]
        simp [hne, hothers other hne]
      · rw [Function.update_of_ne hzi]
        simp [hne]
  · have honly : linked = [z] := by
      by_contra hmore
      exact hstay ⟨hidle, hmore⟩
    by_contra hne
    rw [hindex, ← hothers other hne, honly] at hother
    exact hne (List.mem_singleton.mp hother)

/-- Freeing the last chunk of a zone that moves to `zone_free`. -/
theorem relinked_retire (hz : z ∈ zones) (hzone : z ∉ zoneFree) {linked : List ℕ}
    (hlinked : linked = if (zone z).zNfree = 0 then z :: chain (zone z).zZoneindex
      else chain (zone z).zZoneindex) (hidle : header.zNfree = header.zNmax) :
    Relinked chain (Function.update chain (zone z).zZoneindex (linked.erase z)) zoneFree
      (z :: zoneFree) z header := by
  obtain ⟨hnodup, _, hothers, _⟩ := h.linked_spec hz hzone hlinked
  refine ⟨fun zi ↦ ?_, fun zi other ↦ ?_, List.nodup_cons.mpr ⟨hzone, h.free_nodup⟩,
    fun other hne ↦ by simp [hne], fun _ ↦ hidle, fun hnot ↦ ?_⟩
  · by_cases hzi : zi = (zone z).zZoneindex
    · rw [hzi, Function.update_self]
      exact hnodup.erase z
    · rw [Function.update_of_ne hzi]
      exact h.chain_nodup zi
  · by_cases hzi : zi = (zone z).zZoneindex
    · rw [hzi, Function.update_self, hnodup.mem_erase_iff]
      by_cases hne : other = z
      · simp [hne]
      · simp [hne, hothers other hne]
    · rw [Function.update_of_ne hzi]
      have hnot : z ∉ chain zi := fun hmem ↦ hzi ((h.mem_chain zi z).mp hmem).2.2.1.symm
      by_cases hne : other = z
      · subst hne
        simp [hnot]
      · simp [hne]
  · exact absurd (List.mem_cons_self ..) hnot

end Relinks

end Zoned

end K210Firmware.Kernel.Slab
