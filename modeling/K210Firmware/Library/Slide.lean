import Mathlib

/-!
# Sliding one entry of a sequence

Insertion by adjacent exchanges moves one entry from slot `origin` to slot `target` and shifts the
entries in between by one. The resulting sequence reads its old slots through `slide`. The slide
permutes every interval containing both slots, and it restores order in a sequence that was sorted
everywhere except at the moved entry.
-/

namespace K210Firmware.Slide

/-- The old slot whose entry ends up in slot `slot` when `origin` is moved to `target`. -/
def slide (origin target slot : ℤ) : ℤ :=
  if slot = target then origin
  else if origin ≤ slot ∧ slot < target then slot + 1
  else if target < slot ∧ slot ≤ origin then slot - 1
  else slot

@[simp]
theorem slide_target (origin target : ℤ) : slide origin target target = origin := by
  simp [slide]

@[simp]
theorem slide_self (origin slot : ℤ) : slide origin origin slot = slot := by
  unfold slide
  split_ifs <;> omega

/-- Exchanging with the upper neighbour and sliding on from there is one longer slide. -/
theorem slide_succ_comp {origin target : ℤ} (h : origin < target) (slot : ℤ) :
    slide origin (origin + 1) (slide (origin + 1) target slot) = slide origin target slot := by
  unfold slide
  split_ifs <;> omega

theorem slide_pred_comp {origin target : ℤ} (h : target < origin) (slot : ℤ) :
    slide origin (origin - 1) (slide (origin - 1) target slot) = slide origin target slot := by
  unfold slide
  split_ifs <;> omega

theorem slide_injective (origin target : ℤ) : Function.Injective (slide origin target) := by
  intro left right h
  unfold slide at h
  split_ifs at h <;> omega

/-- The inverse of a slide is the slide in the other direction. -/
theorem slide_slide_reverse (origin target slot : ℤ) :
    slide origin target (slide target origin slot) = slot := by
  unfold slide
  split_ifs <;> omega

theorem slide_mem {origin target bound slot : ℤ} (horigin : 0 ≤ origin ∧ origin < bound)
    (htarget : 0 ≤ target ∧ target < bound) (hslot : 0 ≤ slot ∧ slot < bound) :
    0 ≤ slide origin target slot ∧ slide origin target slot < bound := by
  unfold slide
  split_ifs <;> omega

/-- A slide permutes every initial interval that contains both of its slots. -/
theorem slide_bijOn {origin target bound : ℤ} (horigin : 0 ≤ origin ∧ origin < bound)
    (htarget : 0 ≤ target ∧ target < bound) :
    Set.BijOn (slide origin target) (Set.Ico 0 bound) (Set.Ico 0 bound) := by
  refine ⟨fun slot hslot ↦ slide_mem horigin htarget hslot,
    (slide_injective origin target).injOn, fun slot hslot ↦ ?_⟩
  exact ⟨slide target origin slot, slide_mem htarget horigin hslot,
    slide_slide_reverse origin target slot⟩

theorem slide_ne_origin {origin target slot : ℤ} (h : slot ≠ target) :
    slide origin target slot ≠ origin := by
  unfold slide
  split_ifs <;> omega

/-- Away from the moved entry a slide keeps the order of the slots. -/
theorem slide_lt_slide {origin target left right : ℤ} (hlt : left < right)
    (hleft : left ≠ target) (hright : right ≠ target) :
    slide origin target left < slide origin target right := by
  unfold slide
  split_ifs <;> omega

/-- **Insertion.** If the entries other than `origin` are in order and the moved entry fits between
its new neighbours, the slid sequence is in order. -/
theorem monotone_slide {Key : Type*} [Preorder Key] (key : ℤ → Key) {origin target bound : ℤ}
    (horigin : 0 ≤ origin ∧ origin < bound) (htarget : 0 ≤ target ∧ target < bound)
    (hsorted : ∀ left right, 0 ≤ left → left < right → right < bound →
      left ≠ origin → right ≠ origin → key left ≤ key right)
    (hbelow : ∀ slot, 0 ≤ slot → slot < target → key (slide origin target slot) ≤ key origin)
    (habove : ∀ slot, target < slot → slot < bound → key origin ≤ key (slide origin target slot))
    {left right : ℤ} (hleft : 0 ≤ left) (hlt : left < right) (hright : right < bound) :
    key (slide origin target left) ≤ key (slide origin target right) := by
  by_cases hl : left = target
  · subst hl
    rw [slide_target]
    exact habove right hlt hright
  by_cases hr : right = target
  · subst hr
    rw [slide_target]
    exact hbelow left hleft hlt
  exact hsorted _ _ (slide_mem horigin htarget ⟨hleft, by omega⟩).1 (slide_lt_slide hlt hl hr)
    (slide_mem horigin htarget ⟨by omega, hright⟩).2 (slide_ne_origin hl) (slide_ne_origin hr)

end K210Firmware.Slide
