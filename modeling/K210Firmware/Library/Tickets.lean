import Mathlib.Data.Fintype.Card
import Mathlib.Data.List.Induction

/-!
# A counter that is wound back

Keys take tickets from a counter, which shows how many tickets are held; a key that returns its
ticket winds the counter back by one, whatever number its ticket had. The counter is always right,
but the numbers in circulation are different only as long as nobody takes a ticket while the number
on the counter is still held. Returning the tickets in the reverse order is one way to ensure this.
-/

namespace K210Firmware

/-- The number on the ticket of each key that holds one. -/
abbrev Tickets (Key : Type*) := Key → Option ℕ

namespace Tickets

inductive Request (Key : Type*)
  | acquire (key : Key)
  | release (key : Key)
  deriving DecidableEq, Repr

section Count

variable {Key : Type*} [Fintype Key]

def initial : Tickets Key := fun _ ↦ none

def holders (tickets : Tickets Key) : Finset Key :=
  Finset.univ.filter fun key ↦ tickets key ≠ none

/-- What the counter shows. -/
def count (tickets : Tickets Key) : ℕ := (holders tickets).card

theorem mem_holders {tickets : Tickets Key} {key : Key} :
    key ∈ holders tickets ↔ tickets key ≠ none := by
  simp [holders]

theorem count_initial : count (initial : Tickets Key) = 0 := by
  simp [count, holders, initial]

end Count

variable {Key : Type*} [DecidableEq Key]

def release (tickets : Tickets Key) (key : Key) : Tickets Key :=
  Function.update tickets key none

def Distinct (tickets : Tickets Key) : Prop :=
  ∀ key other number, tickets key = some number → tickets other = some number → key = other

theorem release_of_none {tickets : Tickets Key} {key : Key} (hkey : tickets key = none) :
    release tickets key = tickets := by
  rw [release, ← hkey, Function.update_eq_self]

theorem Distinct.release {tickets : Tickets Key} (h : Distinct tickets) (key : Key) :
    Distinct (release tickets key) := by
  intro first second number hfirst hsecond
  have hold (holder : Key) (hholder : Tickets.release tickets key holder = some number) :
      tickets holder = some number := by
    by_cases hsame : holder = key
    · simp [Tickets.release, hsame] at hholder
    · simpa [Tickets.release, hsame] using hholder
  exact h first second number (hold first hfirst) (hold second hsecond)

variable [Fintype Key]

/-- A key without a ticket gets the number on the counter, if it is below the limit. -/
def acquire (limit : ℕ) (tickets : Tickets Key) (key : Key) : Tickets Key :=
  if tickets key = none ∧ count tickets < limit then
    Function.update tickets key (some (count tickets))
  else tickets

def serve (limit : ℕ) (tickets : Tickets Key) : Request Key → Tickets Key
  | .acquire key => acquire limit tickets key
  | .release key => release tickets key

/-- The tickets held after a list of requests. -/
def held (limit : ℕ) (requests : List (Request Key)) : Tickets Key :=
  requests.foldl (serve limit) initial

/-- If the key is about to get a ticket, then nobody holds the number on the counter. -/
def Unheld (limit : ℕ) (tickets : Tickets Key) : Request Key → Prop
  | .acquire key => tickets key = none → count tickets < limit →
      ∀ other, tickets other ≠ some (count tickets)
  | .release _ => True

variable {limit : ℕ} {tickets : Tickets Key} {key other : Key}

/-! ## One request -/

theorem acquire_of_new (hkey : tickets key = none) (hlimit : count tickets < limit) :
    acquire limit tickets key = Function.update tickets key (some (count tickets)) :=
  if_pos ⟨hkey, hlimit⟩

theorem acquire_of_held (hkey : tickets key ≠ none) : acquire limit tickets key = tickets :=
  if_neg fun hboth ↦ hkey hboth.1

theorem acquire_of_full (hlimit : limit ≤ count tickets) : acquire limit tickets key = tickets :=
  if_neg fun hboth ↦ hlimit.not_gt hboth.2

theorem count_update_some (hkey : tickets key = none) (number : ℕ) :
    count (Function.update tickets key (some number)) = count tickets + 1 := by
  have hholders : holders (Function.update tickets key (some number)) =
      insert key (holders tickets) := by
    ext other
    by_cases hother : other = key
    · simp [mem_holders, hother]
    · simp [mem_holders, hother]
  have hnew : key ∉ holders tickets := fun hmem ↦ mem_holders.mp hmem hkey
  rw [count, hholders, Finset.card_insert_of_notMem hnew]
  rfl

theorem count_release (hkey : tickets key ≠ none) :
    count (release tickets key) + 1 = count tickets := by
  have hholders : holders (release tickets key) = (holders tickets).erase key := by
    ext other
    by_cases hother : other = key
    · simp [mem_holders, release, hother]
    · simp [mem_holders, release, hother]
  rw [count, hholders]
  exact Finset.card_erase_add_one (mem_holders.mpr hkey)

/-- A new ticket is different from the others exactly if its number is not held. -/
theorem distinct_acquire_iff (h : Distinct tickets) :
    Distinct (acquire limit tickets key) ↔ Unheld limit tickets (.acquire key) := by
  by_cases hnew : tickets key = none ∧ count tickets < limit
  · rw [acquire_of_new hnew.1 hnew.2]
    constructor
    · intro hdistinct _ _ other hother
      have hne : other ≠ key := by
        intro hsame
        rw [hsame, hnew.1] at hother
        cases hother
      refine hne (hdistinct other key (count tickets) ?_ (Function.update_self ..))
      rwa [Function.update_of_ne hne]
    · intro hunheld first second number hfirst hsecond
      have hfree := hunheld hnew.1 hnew.2
      by_cases hone : first = key <;> by_cases htwo : second = key
      · rw [hone, htwo]
      · rw [hone, Function.update_self] at hfirst
        rw [Function.update_of_ne htwo] at hsecond
        exact absurd (hsecond.trans hfirst.symm) (hfree second)
      · rw [htwo, Function.update_self] at hsecond
        rw [Function.update_of_ne hone] at hfirst
        exact absurd (hfirst.trans hsecond.symm) (hfree first)
      · rw [Function.update_of_ne hone] at hfirst
        rw [Function.update_of_ne htwo] at hsecond
        exact h first second number hfirst hsecond
  · have hsame : acquire limit tickets key = tickets := if_neg hnew
    rw [hsame]
    exact ⟨fun _ hkey hlimit ↦ absurd ⟨hkey, hlimit⟩ hnew, fun _ ↦ h⟩

theorem distinct_serve_iff (h : Distinct tickets) (request : Request Key) :
    Distinct (serve limit tickets request) ↔ Unheld limit tickets request := by
  cases request with
  | acquire key => exact distinct_acquire_iff h
  | release key => exact ⟨fun _ ↦ trivial, fun _ ↦ h.release key⟩

/-! ## A list of requests -/

theorem held_append (requests : List (Request Key)) (request : Request Key) :
    held limit (requests ++ [request]) = serve limit (held limit requests) request := by
  rw [held, held, List.foldl_append]
  rfl

/-- **Distinct numbers.** The tickets are different after every request exactly if no request
takes a number that is held. -/
theorem distinct_iff (limit : ℕ) (requests : List (Request Key)) :
    (∀ before after, requests = before ++ after → Distinct (held limit before)) ↔
      ∀ before request after, requests = before ++ request :: after →
        Unheld limit (held limit before) request := by
  constructor
  · intro h before request after hsplit
    have hbefore := h before (request :: after) hsplit
    have hnext := h (before ++ [request]) after (by rw [hsplit, List.append_assoc]; rfl)
    rw [held_append] at hnext
    exact (distinct_serve_iff hbefore request).mp hnext
  · intro h before
    induction before using List.reverseRecOn with
    | nil => exact fun _ _ _ _ _ hfirst ↦ nomatch hfirst
    | append_singleton before request ih =>
      intro after hsplit
      have hlast : requests = before ++ request :: after := by
        rw [hsplit, List.append_assoc]
        rfl
      rw [held_append]
      exact (distinct_serve_iff (ih _ hlast) request).mpr (h before request after hlast)

/-! ## Returning in the reverse order -/

/-- The numbers in circulation are those below the count. -/
def Dense (tickets : Tickets Key) : Prop :=
  ∀ number, (∃ key, tickets key = some number) → number < count tickets

/-- Only the ticket with the highest number is returned. -/
def Reverse (limit : ℕ) (requests : List (Request Key)) : Prop :=
  ∀ before key after, requests = before ++ .release key :: after →
    ∀ number, held limit before key = some number → number + 1 = count (held limit before)

theorem Dense.acquire (h : Dense tickets) (key : Key) : Dense (acquire limit tickets key) := by
  by_cases hnew : tickets key = none ∧ count tickets < limit
  · rw [acquire_of_new hnew.1 hnew.2]
    rintro number ⟨holder, hholder⟩
    rw [count_update_some hnew.1]
    by_cases hsame : holder = key
    · rw [hsame, Function.update_self] at hholder
      have := Option.some.inj hholder
      omega
    · rw [Function.update_of_ne hsame] at hholder
      exact (h number ⟨holder, hholder⟩).trans (Nat.lt_succ_self _)
  · have hsame : Tickets.acquire limit tickets key = tickets := if_neg hnew
    rwa [hsame]

theorem Dense.release (h : Dense tickets) (hdistinct : Distinct tickets) {key : Key}
    (hlast : ∀ number, tickets key = some number → number + 1 = count tickets) :
    Dense (release tickets key) := by
  cases hkey : tickets key with
  | none => rwa [release_of_none hkey]
  | some top =>
    rintro number ⟨holder, hholder⟩
    have hne : holder ≠ key := by
      intro hsame
      rw [hsame, Tickets.release, Function.update_self] at hholder
      cases hholder
    rw [Tickets.release, Function.update_of_ne hne] at hholder
    have hcount : count (Tickets.release tickets key) + 1 = count tickets :=
      count_release (by rw [hkey]; nofun)
    have htop := hlast top hkey
    have hbound := h number ⟨holder, hholder⟩
    have hother : number ≠ top := by
      intro hsame
      exact hne (hdistinct holder key top (hsame ▸ hholder) hkey)
    omega

/-- **Last in, first out.** Tickets returned in the reverse order are always different. -/
theorem distinct_of_reverse {requests : List (Request Key)} (h : Reverse limit requests) :
    Dense (held limit requests) ∧ Distinct (held limit requests) := by
  induction requests using List.reverseRecOn with
  | nil =>
    refine ⟨?_, fun _ _ _ hfirst ↦ nomatch hfirst⟩
    rintro number ⟨holder, hholder⟩
    cases hholder
  | append_singleton requests request ih =>
    obtain ⟨hdense, hdistinct⟩ := ih fun before key after hsplit ↦
      h before key (after ++ [request]) (by rw [hsplit, List.append_assoc]; rfl)
    rw [held_append]
    cases request with
    | acquire key =>
      refine ⟨hdense.acquire key, (distinct_acquire_iff hdistinct).mpr fun _ _ other hother ↦ ?_⟩
      exact (hdense _ ⟨other, hother⟩).false
    | release key =>
      exact ⟨hdense.release hdistinct (h requests key [] rfl), hdistinct.release key⟩

end Tickets

end K210Firmware
