import K210Firmware.Library.Extents
import K210Firmware.Library.Memory

/-!
# The page allocator of the kernel heap

The lower half of `slab.c` hands out runs of pages. Its free list is first-fit, sorted by address
and coalesced: `rt_page_alloc` splits the first run that is long enough, and `rt_page_free` merges
a run with both of its neighbours. What both do is said by their tallies; that the list stays
separated makes a failed request mean that no run of that length is free.
-/

namespace K210Firmware.Kernel.Pages

open Memory Extent

def rtMmPageSize : ℕ := 4096

/-- `RT_ASSERT`: `rt_assert_handler` does not return when the condition is false. -/
def rtAssert (condition : Prop) [Decidable condition] : Except Fault Unit :=
  if condition then .ok () else .error .divergence

@[simp]
theorem rtAssert_of {condition : Prop} [Decidable condition] (h : condition) :
    rtAssert condition = .ok () := if_pos h

/-- `struct rt_page_head` of a free run: the number of its first page and `page`. A page head fills
its page, so adding to a pointer to one counts pages. -/
abbrev RtPageHead := Extent

/-- The loop of `rt_page_alloc`: the page found and `rt_page_list`. -/
def takePages (npages : ℕ) : List RtPageHead → Option ℕ × List RtPageHead
  | [] => (none, [])
  | b :: next =>
      if b.count > npages then
        (some b.first, ⟨b.first + npages, b.count - npages⟩ :: next)
      else if b.count = npages then (some b.first, next)
      else
        let (taken, next') := takePages npages next
        (taken, b :: next')

def rtPageAlloc (npages : ℕ) (rtPageList : List RtPageHead) : Option ℕ × List RtPageHead :=
  if npages = 0 then (none, rtPageList) else takePages npages rtPageList

/-- The run `b` grown by `npages` pages at its end, and by the next run if it now reaches it. -/
def mergeNext (b : RtPageHead) (npages : ℕ) : List RtPageHead → List RtPageHead
  | [] => [⟨b.first, b.count + npages⟩]
  | next :: rest =>
      if b.first + (b.count + npages) = next.first then
        ⟨b.first, b.count + npages + next.count⟩ :: rest
      else ⟨b.first, b.count + npages⟩ :: next :: rest

/-- The loop of `rt_page_free`. -/
def putPages (n npages : ℕ) : List RtPageHead → Except Fault (List RtPageHead)
  | [] => return [⟨n, npages⟩]
  | b :: next => do
      rtAssert (b.count > 0)
      rtAssert (b.first > n ∨ b.first + b.count ≤ n)
      if b.first + b.count = n then return mergeNext b npages next
      else if b.first = n + npages then return ⟨n, b.count + npages⟩ :: next
      else if b.first > n + npages then return ⟨n, npages⟩ :: b :: next
      else do
        let next' ← putPages n npages next
        return b :: next'

def rtPageFree (addr npages : ℕ) (rtPageList : List RtPageHead) :
    Except Fault (List RtPageHead) := do
  rtAssert (addr ≠ 0)
  rtAssert (addr % rtMmPageSize = 0)
  rtAssert (npages ≠ 0)
  putPages (addr / rtMmPageSize) npages rtPageList

def rtPageInit (addr npages : ℕ) : Except Fault (List RtPageHead) := do
  rtAssert (addr ≠ 0)
  rtAssert (npages ≠ 0)
  rtPageFree addr npages []

/-! ## Taking pages -/

section Take

variable {npages page : ℕ} {list list' : List RtPageHead}

theorem takePages_within (h : takePages npages list = (some page, list')) {run : RtPageHead}
    (hrun : run ∈ list') : ∃ b ∈ list, run.Within b := by
  induction list generalizing list' with
  | nil => cases h
  | cons b next ih =>
    rw [takePages] at h
    split_ifs at h with hlong hexact
    · obtain ⟨_, rfl⟩ := Prod.mk.inj h
      rcases List.mem_cons.mp hrun with rfl | hrun
      · refine ⟨b, List.mem_cons_self .., ?_⟩
        constructor <;> simp only [stop] <;> omega
      · exact ⟨run, List.mem_cons_of_mem _ hrun, Nat.le_refl _, Nat.le_refl _⟩
    · obtain ⟨_, rfl⟩ := Prod.mk.inj h
      exact ⟨run, List.mem_cons_of_mem _ hrun, Nat.le_refl _, Nat.le_refl _⟩
    · obtain ⟨hpage, rfl⟩ := Prod.mk.inj h
      rcases List.mem_cons.mp hrun with rfl | hrun
      · exact ⟨run, List.mem_cons_self .., Nat.le_refl _, Nat.le_refl _⟩
      · obtain ⟨other, hother, hwithin⟩ := ih (Prod.ext hpage rfl) hrun
        exact ⟨other, List.mem_cons_of_mem _ hother, hwithin⟩

/-- The pages taken leave the list, and the list stays sorted and coalesced. -/
theorem takePages_spec (hlist : Separated list)
    (h : takePages npages list = (some page, list')) :
    Separated list' ∧ ∀ cell, tally list cell = tally list' cell + tally [⟨page, npages⟩] cell := by
  induction list generalizing list' with
  | nil => cases h
  | cons b next ih =>
    have hwithin := @takePages_within npages page (b :: next) list' h
    obtain ⟨hhead, hcount, hnext⟩ := separated_cons.mp hlist
    rw [takePages] at h
    split_ifs at h with hlong hexact
    · cases h
      constructor
      · refine separated_cons.mpr ⟨fun other hother ↦ ?_, by simp only; omega, hnext⟩
        have hgap := hhead other hother
        simp only [stop] at hgap ⊢
        omega
      · intro cell
        have hsplit := tally_split b.first npages (b.count - npages) cell
        rw [Nat.add_sub_cancel' (Nat.le_of_lt hlong)] at hsplit
        rw [tally_cons, ← tally_singleton, hsplit, tally_cons _ next, ← tally_singleton]
        omega
    · cases h
      refine ⟨hnext, fun cell ↦ ?_⟩
      rw [tally_cons, ← tally_singleton, ← hexact, Nat.add_comm]
    · obtain ⟨hpage, rfl⟩ := Prod.mk.inj h
      obtain ⟨hseparated, htally⟩ := ih hnext (Prod.ext hpage rfl)
      constructor
      · refine separated_cons.mpr ⟨fun other hother ↦ ?_, hcount, hseparated⟩
        obtain ⟨source, hsource, hsub⟩ := @takePages_within npages page next _
          (Prod.ext hpage rfl) other hother
        exact (hhead source hsource).trans_le hsub.1
      · intro cell
        rw [tally_cons, tally_cons, htally cell, Nat.add_assoc]

theorem takePages_none (h : (takePages npages list).1 = none) :
    (takePages npages list).2 = list ∧ ∀ b ∈ list, b.count < npages := by
  induction list with
  | nil => exact ⟨rfl, nofun⟩
  | cons b next ih =>
    rw [takePages] at h ⊢
    split_ifs at h ⊢ with hlong hexact
    · obtain ⟨hsame, hshort⟩ := ih h
      refine ⟨congrArg (b :: ·) hsame, fun other hother ↦ ?_⟩
      rcases List.mem_cons.mp hother with rfl | hother
      · omega
      · exact hshort other hother

/-- **First fit is complete.** A request fails only if no run of that many free pages exists. -/
theorem rtPageAlloc_eq_none_iff (hpos : 0 < npages) (hlist : Separated list) :
    rtPageAlloc npages list = (none, list) ↔
      ∀ first, ∃ cell, first ≤ cell ∧ cell < first + npages ∧ tally list cell = 0 := by
  rw [rtPageAlloc, if_neg hpos.ne']
  constructor
  · intro h first
    by_contra! hfree
    obtain ⟨_, hshort⟩ := takePages_none (congrArg Prod.fst h)
    have hheld : ∀ cell, Holds ⟨first, npages⟩ cell → 0 < tally list cell :=
      fun cell hcell ↦ Nat.pos_of_ne_zero (hfree cell hcell.1 hcell.2)
    obtain ⟨run, hrun, hwithin⟩ := hlist.exists_within hpos hheld
    have hcount := hshort run hrun
    obtain ⟨hlower, hupper⟩ := hwithin
    simp only [stop] at hlower hupper
    omega
  · intro h
    rcases htake : takePages npages list with ⟨_ | page, list'⟩
    · have hsame := (takePages_none (congrArg Prod.fst htake)).1
      rw [htake] at hsame
      exact congrArg (none, ·) hsame
    · obtain ⟨cell, hlower, hupper, hzero⟩ := h page
      have htally := (takePages_spec hlist htake).2 cell
      rw [hzero, tally_singleton, if_pos ⟨hlower, hupper⟩] at htally
      omega

/-- What `rt_page_alloc` does to a sorted, coalesced list. -/
theorem rtPageAlloc_cases (hpos : 0 < npages) (hlist : Separated list) :
    rtPageAlloc npages list = (none, list) ∨
      ∃ page list', rtPageAlloc npages list = (some page, list') ∧ Separated list' ∧
        ∀ cell, tally list cell = tally list' cell + tally [⟨page, npages⟩] cell := by
  rw [rtPageAlloc, if_neg hpos.ne']
  rcases htake : takePages npages list with ⟨_ | page, list'⟩
  · have hsame := (takePages_none (congrArg Prod.fst htake)).1
    rw [htake] at hsame
    exact .inl (congrArg (none, ·) hsame)
  · exact .inr ⟨page, list', rfl, takePages_spec hlist htake⟩

end Take

/-! ## Putting pages back -/

section Put

variable {n npages : ℕ} {list list' : List RtPageHead}

theorem mergeNext_first {b run : RtPageHead} (hrun : run ∈ mergeNext b npages list) :
    run.first = b.first ∨ run ∈ list := by
  cases list with
  | nil =>
    rw [mergeNext, List.mem_singleton] at hrun
    exact .inl (hrun ▸ rfl)
  | cons next rest =>
    rw [mergeNext] at hrun
    split_ifs at hrun with hreach
    · rcases List.mem_cons.mp hrun with rfl | hrest
      · exact .inl rfl
      · exact .inr (List.mem_cons_of_mem _ hrest)
    · rcases List.mem_cons.mp hrun with rfl | hrest
      · exact .inl rfl
      · exact .inr hrest

/-- Growing a run into the gap behind it. -/
theorem mergeNext_spec {b : RtPageHead} (hlist : Separated (b :: list))
    (hroom : ∀ other ∈ list, b.stop + npages ≤ other.first) :
    Separated (mergeNext b npages list) ∧
      ∀ cell, tally (mergeNext b npages list) cell =
        tally (b :: list) cell + tally [⟨b.stop, npages⟩] cell := by
  obtain ⟨_, hcount, hnext⟩ := separated_cons.mp hlist
  have hgrown (cell : ℕ) : tally [⟨b.first, b.count + npages⟩] cell =
      tally [b] cell + tally [⟨b.stop, npages⟩] cell :=
    tally_join b ⟨b.stop, npages⟩ rfl cell
  cases list with
  | nil =>
    refine ⟨separated_cons.mpr ⟨nofun, Nat.add_pos_left hcount _, .nil⟩, fun cell ↦ ?_⟩
    rw [mergeNext, hgrown cell]
  | cons next rest =>
    obtain ⟨hgap, hnextCount, hrest⟩ := separated_cons.mp hnext
    have hreach := hroom next (List.mem_cons_self ..)
    simp only [stop] at hreach hgap
    rw [mergeNext]
    split_ifs with htouch
    · constructor
      · refine separated_cons.mpr ⟨fun other hother ↦ ?_, by simp only; omega, hrest⟩
        have hother := hgap other hother
        simp only [stop]
        omega
      · intro cell
        have hmerged : tally [⟨b.first, b.count + npages + next.count⟩] cell =
            tally [⟨b.first, b.count + npages⟩] cell + tally [next] cell :=
          tally_join ⟨b.first, b.count + npages⟩ next htouch cell
        rw [tally_cons, tally_cons, tally_cons, ← tally_singleton, ← tally_singleton,
          ← tally_singleton, hmerged, hgrown cell]
        omega
    · constructor
      · refine separated_cons.mpr ⟨fun other hother ↦ ?_, Nat.add_pos_left hcount _, hnext⟩
        simp only [stop]
        rcases List.mem_cons.mp hother with rfl | hother
        · omega
        · have hother := hgap other hother
          omega
      · intro cell
        rw [tally_cons, tally_cons b, ← tally_singleton, ← tally_singleton, hgrown cell]
        omega

theorem putPages_first (h : putPages n npages list = .ok list') {run : RtPageHead}
    (hrun : run ∈ list') : run.first = n ∨ ∃ b ∈ list, run.first = b.first := by
  induction list generalizing list' with
  | nil =>
    cases h
    exact .inl (congrArg first (List.mem_singleton.mp hrun))
  | cons b next ih =>
    rw [putPages] at h
    obtain ⟨_, _, h⟩ := bind_eq_ok.mp h
    obtain ⟨_, _, h⟩ := bind_eq_ok.mp h
    split_ifs at h with hleft hright hbefore
    · cases h
      rcases mergeNext_first hrun with hfirst | hmem
      · exact .inr ⟨b, List.mem_cons_self .., hfirst⟩
      · exact .inr ⟨run, List.mem_cons_of_mem _ hmem, rfl⟩
    · cases h
      rcases List.mem_cons.mp hrun with rfl | hmem
      · exact .inl rfl
      · exact .inr ⟨run, List.mem_cons_of_mem _ hmem, rfl⟩
    · cases h
      rcases List.mem_cons.mp hrun with rfl | hmem
      · exact .inl rfl
      · exact .inr ⟨run, hmem, rfl⟩
    · obtain ⟨next', hnext', h⟩ := bind_eq_ok.mp h
      cases h
      rcases List.mem_cons.mp hrun with rfl | hmem
      · exact .inr ⟨run, List.mem_cons_self .., rfl⟩
      · rcases ih hnext' hmem with hfirst | ⟨other, hother, hfirst⟩
        · exact .inl hfirst
        · exact .inr ⟨other, List.mem_cons_of_mem _ hother, hfirst⟩

/-- A run that meets no free page is entered, merged with its neighbours. -/
theorem putPages_spec (hpos : 0 < npages) (hlist : Separated list)
    (hapart : ∀ cell, tally list cell + tally [⟨n, npages⟩] cell ≤ 1) :
    ∃ list', putPages n npages list = .ok list' ∧ Separated list' ∧
      ∀ cell, tally list' cell = tally list cell + tally [⟨n, npages⟩] cell := by
  induction list with
  | nil =>
    refine ⟨[⟨n, npages⟩], rfl, separated_cons.mpr ⟨nofun, hpos, .nil⟩, fun cell ↦ ?_⟩
    rw [tally_nil, Nat.zero_add]
  | cons b next ih =>
    obtain ⟨hhead, hcount, hnext⟩ := separated_cons.mp hlist
    have hbehind : ∀ other ∈ b :: next, n < other.stop → n + npages ≤ other.first := by
      intro other hother hlt
      have hwhole : 0 < other.count := hlist.nonempty other hother
      by_contra hmeet
      have hcell : ∀ cell, ¬ (other.Holds cell ∧ Holds ⟨n, npages⟩ cell) := by
        rintro cell ⟨hin, hout⟩
        have hbound := hapart cell
        rw [tally_singleton, if_pos hout] at hbound
        have htally := tally_pos hother hin
        omega
      have hmax := hcell (max n other.first)
      simp only [Holds, stop] at hmax hlt
      omega
    rw [putPages, rtAssert_of hcount, ok_bind]
    have hside : b.first > n ∨ b.first + b.count ≤ n := by
      by_contra hinside
      have hreach := hbehind b (List.mem_cons_self ..) (by simp only [stop]; omega)
      omega
    rw [rtAssert_of hside, ok_bind]
    split_ifs with hleft hright hbefore
    · have hmerge := @mergeNext_spec npages next b hlist fun other hother ↦ by
        have hgap := hhead other hother
        have hreach := hbehind other (List.mem_cons_of_mem _ hother)
        simp only [stop] at *
        omega
      simp only [stop, hleft] at hmerge
      exact ⟨_, rfl, hmerge⟩
    · refine ⟨_, rfl, separated_cons.mpr ⟨fun other hother ↦ ?_, ?_, hnext⟩, fun cell ↦ ?_⟩
      · have hgap := hhead other hother
        simp only [stop] at *
        omega
      · exact Nat.add_pos_left hcount _
      · have hjoin : tally [⟨n, npages + b.count⟩] cell =
            tally [⟨n, npages⟩] cell + tally [b] cell := tally_join ⟨n, npages⟩ b hright.symm cell
        rw [tally_cons, tally_cons, ← tally_singleton, ← tally_singleton, Nat.add_comm b.count,
          hjoin]
        omega
    · refine ⟨_, rfl, separated_cons.mpr ⟨fun other hother ↦ ?_, hpos, hlist⟩, fun cell ↦ ?_⟩
      · rcases List.mem_cons.mp hother with rfl | hother
        · exact hbefore
        · have hgap := hhead other hother
          simp only [stop] at *
          omega
      · rw [tally_cons _ (b :: next), ← tally_singleton, Nat.add_comm]
    · obtain ⟨next', hput, hseparated, htally⟩ := ih hnext fun cell ↦ by
        have hbound := hapart cell
        rw [tally_cons] at hbound
        omega
      rw [hput, ok_bind]
      refine ⟨_, rfl, separated_cons.mpr ⟨fun other hother ↦ ?_, hcount, hseparated⟩, fun cell ↦ ?_⟩
      · rcases putPages_first hput hother with hfirst | ⟨source, hsource, hfirst⟩
        · rw [hfirst]
          have hreach := hbehind b (List.mem_cons_self ..)
          simp only [stop] at *
          omega
        · rw [hfirst]
          exact hhead source hsource
      · rw [tally_cons, tally_cons, htally cell]
        omega

/-- What `rt_page_free` does to a sorted, coalesced list that does not hold the pages. -/
theorem rtPageFree_spec (hpage : 0 < n) (hpos : 0 < npages) (hlist : Separated list)
    (hapart : ∀ cell, tally list cell + tally [⟨n, npages⟩] cell ≤ 1) :
    ∃ list', rtPageFree (rtMmPageSize * n) npages list = .ok list' ∧ Separated list' ∧
      ∀ cell, tally list' cell = tally list cell + tally [⟨n, npages⟩] cell := by
  have hsize : 0 < rtMmPageSize := by decide
  rw [rtPageFree, rtAssert_of (Nat.mul_pos hsize hpage).ne', ok_bind,
    rtAssert_of (Nat.mul_mod_right _ _), ok_bind, rtAssert_of hpos.ne', ok_bind,
    Nat.mul_div_cancel_left _ hsize]
  exact putPages_spec hpos hlist hapart

end Put

end K210Firmware.Kernel.Pages
