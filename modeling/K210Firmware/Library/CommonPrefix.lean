import Mathlib.Data.List.Infix

/-!
# Common prefixes

The longest common prefix of some lists, described by its own prefixes: these are the lists that
are a prefix of all of them (`prefix_commonPrefix_iff`). A loop that keeps one of the lists and a
length cuts it to the same prefix (`length_common_of_prefix`).
-/

namespace K210Firmware.CommonPrefix

variable {α : Type*}

/-- A list is known by its prefixes. -/
theorem eq_of_prefix_iff {left right : List α}
    (h : ∀ front : List α, front <+: left ↔ front <+: right) : left = right :=
  ((h left).mp (List.prefix_refl left)).eq_of_length_le
    ((h right).mpr (List.prefix_refl right)).length_le

/-- The longest list that all the lists begin with. -/
def IsLongestPrefix (longest : List α) (lists : List (List α)) : Prop :=
  ∀ front, front <+: longest ↔ ∀ list ∈ lists, front <+: list

/-- The same list in front of all of them. -/
theorem IsLongestPrefix.append_left {longest : List α} {lists : List (List α)}
    (h : IsLongestPrefix longest lists) (hne : lists ≠ []) (first : List α) :
    IsLongestPrefix (first ++ longest) (lists.map (first ++ ·)) := by
  induction first with
  | nil => simpa using h
  | cons c first ih =>
    intro front
    cases front with
    | nil => simp
    | cons d front =>
      have hrest := ih front
      rw [List.forall_mem_map] at hrest ⊢
      obtain ⟨list, hlist⟩ := List.exists_mem_of_ne_nil lists hne
      simp only [List.cons_append, List.cons_prefix_cons]
      rw [hrest]
      constructor
      · exact fun ⟨hsame, hall⟩ other hother ↦ ⟨hsame, hall other hother⟩
      · exact fun hall ↦ ⟨(hall list hlist).1, fun other hother ↦ (hall other hother).2⟩

variable [DecidableEq α]

/-- What two lists have in common in front. -/
def common : List α → List α → List α
  | c :: left, d :: right => if c = d then c :: common left right else []
  | _, _ => []

/-- What the first list and all others have in common in front. -/
def commonPrefix (first : List α) (others : List (List α)) : List α := others.foldl common first

theorem prefix_common_iff {front left right : List α} :
    front <+: common left right ↔ front <+: left ∧ front <+: right := by
  induction front generalizing left right with
  | nil => simp
  | cons c front ih =>
    cases left with
    | nil => simp [common]
    | cons d left =>
      cases right with
      | nil => simp [common]
      | cons e right =>
        rw [common]
        rcases eq_or_ne d e with rfl | hne
        · rw [if_pos rfl, List.cons_prefix_cons, List.cons_prefix_cons, List.cons_prefix_cons, ih]
          tauto
        · rw [if_neg hne, List.prefix_nil, List.cons_prefix_cons, List.cons_prefix_cons]
          constructor
          · intro h
            cases h
          · rintro ⟨⟨rfl, _⟩, rfl, _⟩
            exact absurd rfl hne

theorem common_comm (left right : List α) : common left right = common right left := by
  apply eq_of_prefix_iff
  intro front
  rw [prefix_common_iff, prefix_common_iff, and_comm]

theorem common_self (list : List α) : common list list = list := by
  apply eq_of_prefix_iff
  intro front
  rw [prefix_common_iff, and_self]

/-- **Greatest lower bound.** -/
theorem prefix_commonPrefix_iff {front first : List α} {others : List (List α)} :
    front <+: commonPrefix first others ↔ front <+: first ∧ ∀ other ∈ others, front <+: other := by
  rw [commonPrefix]
  induction others generalizing first with
  | nil => simp
  | cons other others ih =>
    rw [List.foldl_cons, ih, prefix_common_iff, List.forall_mem_cons, and_assoc]

theorem commonPrefix_isLongest (first : List α) (others : List (List α)) :
    IsLongestPrefix (commonPrefix first others) (first :: others) := by
  intro front
  rw [List.forall_mem_cons]
  exact prefix_commonPrefix_iff

theorem commonPrefix_concat (first last : List α) (others : List (List α)) :
    commonPrefix first (others ++ [last]) = common (commonPrefix first others) last := by
  rw [commonPrefix, List.foldl_append]
  rfl

theorem commonPrefix_isPrefix (first : List α) (others : List (List α)) :
    commonPrefix first others <+: first :=
  (prefix_commonPrefix_iff.mp (List.prefix_refl _)).1

/-- A prefix of a list shares with another what the list shares with it, up to its own length. -/
theorem length_common_of_prefix {front left right : List α} (h : front <+: left) :
    (common front right).length = min front.length (common left right).length := by
  have hcut : common front right = (common left right).take front.length := by
    apply eq_of_prefix_iff
    intro other
    rw [prefix_common_iff, List.prefix_take_iff, prefix_common_iff]
    constructor
    · rintro ⟨hfront, hright⟩
      exact ⟨⟨hfront.trans h, hright⟩, hfront.length_le⟩
    · rintro ⟨⟨hleft, hright⟩, hle⟩
      exact ⟨List.prefix_of_prefix_length_le hleft h hle, hright⟩
  rw [hcut, List.length_take]

end K210Firmware.CommonPrefix
