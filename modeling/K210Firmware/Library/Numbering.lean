import Mathlib.Data.Finset.Dedup
import Mathlib.Data.Finset.Card

/-!
# Numbering by order of arrival

Keys ask for a number; each key gets the least number not handed out before and keeps it, until
`limit` numbers are gone. This is the purpose of a bump counter that stores its values in a table.
The list of keys is duplicate-free by construction, so numbers are distinct and dense without a
separate invariant.
-/

namespace K210Firmware

/-- Keys in the order in which they got their numbers. -/
structure Numbering (Key : Type*) where
  keys : List Key
  nodup : keys.Nodup

namespace Numbering

variable {Key : Type*} [DecidableEq Key]

def empty : Numbering Key := ⟨[], List.nodup_nil⟩

def count (numbering : Numbering Key) : ℕ := numbering.keys.length

def number (numbering : Numbering Key) (key : Key) : Option ℕ :=
  if key ∈ numbering.keys then some (numbering.keys.idxOf key) else none

/-- A key without a number gets the next one, if there is one left. -/
def request (limit : ℕ) (numbering : Numbering Key) (key : Key) : Numbering Key :=
  if h : key ∉ numbering.keys ∧ numbering.count < limit then
    ⟨numbering.keys ++ [key], by
      simpa only [List.concat_eq_append] using List.Nodup.concat h.1 numbering.nodup⟩
  else numbering

/-- The requests of a list of keys, in order. -/
def requests (limit : ℕ) (keys : List Key) : Numbering Key := keys.foldl (request limit) empty

variable {numbering : Numbering Key} {limit : ℕ}

theorem number_eq_none {key : Key} : numbering.number key = none ↔ key ∉ numbering.keys := by
  simp [number]

theorem number_lt {key : Key} {value : ℕ} (h : numbering.number key = some value) :
    value < numbering.count := by
  obtain ⟨hmem, rfl⟩ : key ∈ numbering.keys ∧ numbering.keys.idxOf key = value := by
    simpa [number] using h
  exact List.idxOf_lt_length_of_mem hmem

/-- Different keys have different numbers. -/
theorem number_injective {key other : Key} {value : ℕ} (hkey : numbering.number key = some value)
    (hother : numbering.number other = some value) : key = other := by
  obtain ⟨hmem, hvalue⟩ : key ∈ numbering.keys ∧ numbering.keys.idxOf key = value := by
    simpa [number] using hkey
  obtain ⟨_, hvalue'⟩ : other ∈ numbering.keys ∧ numbering.keys.idxOf other = value := by
    simpa [number] using hother
  exact (List.idxOf_inj hmem).mp (hvalue.trans hvalue'.symm)

/-- Every number below the count has been handed out. -/
theorem exists_number {value : ℕ} (h : value < numbering.count) :
    ∃ key, numbering.number key = some value := by
  have hvalue : value < numbering.keys.length := h
  refine ⟨numbering.keys[value], ?_⟩
  rw [number, if_pos (List.getElem_mem hvalue), numbering.nodup.idxOf_getElem value hvalue]

/-! ## One request -/

theorem request_of_mem {key : Key} (h : key ∈ numbering.keys) :
    numbering.request limit key = numbering := by
  rw [request, dif_neg (by simp [h])]

theorem request_of_full {key : Key} (h : limit ≤ numbering.count) :
    numbering.request limit key = numbering := by
  rw [request, dif_neg (by omega)]

theorem keys_request {key : Key} (hnew : key ∉ numbering.keys) (hlimit : numbering.count < limit) :
    (numbering.request limit key).keys = numbering.keys ++ [key] := by
  rw [request, dif_pos ⟨hnew, hlimit⟩]

/-- A number once given is kept. -/
theorem number_request_of_some {key other : Key} {value : ℕ}
    (h : numbering.number key = some value) :
    (numbering.request limit other).number key = some value := by
  by_cases hother : other ∉ numbering.keys ∧ numbering.count < limit
  · obtain ⟨hmem, hvalue⟩ : key ∈ numbering.keys ∧ numbering.keys.idxOf key = value := by
      simpa [number] using h
    rw [number, keys_request hother.1 hother.2, if_pos (List.mem_append_left _ hmem),
      List.idxOf_append_of_mem hmem, hvalue]
  · rwa [request, dif_neg hother]

theorem number_request_self {key : Key} (hnew : key ∉ numbering.keys)
    (hlimit : numbering.count < limit) :
    (numbering.request limit key).number key = some numbering.count := by
  rw [number, keys_request hnew hlimit, if_pos (by simp), List.idxOf_append_of_notMem hnew]
  simp [count]

theorem number_request_of_ne {key other : Key} (hne : key ≠ other) :
    (numbering.request limit other).number key = numbering.number key := by
  rcases hvalue : numbering.number key with _ | value
  · rw [number_eq_none] at hvalue ⊢
    by_cases hother : other ∉ numbering.keys ∧ numbering.count < limit
    · rw [keys_request hother.1 hother.2]
      simp [hvalue, hne]
    · rwa [request, dif_neg hother]
  · exact number_request_of_some hvalue

theorem count_request {key : Key} (hnew : key ∉ numbering.keys) (hlimit : numbering.count < limit) :
    (numbering.request limit key).count = numbering.count + 1 := by
  rw [count, keys_request hnew hlimit, List.length_append]
  rfl

theorem count_request_le {key : Key} (h : numbering.count ≤ limit) :
    (numbering.request limit key).count ≤ limit := by
  by_cases hother : key ∉ numbering.keys ∧ numbering.count < limit
  · rw [count_request hother.1 hother.2]
    omega
  · rwa [request, dif_neg hother]

theorem count_le_count_request {key : Key} :
    numbering.count ≤ (numbering.request limit key).count := by
  by_cases hother : key ∉ numbering.keys ∧ numbering.count < limit
  · rw [count_request hother.1 hother.2]
    omega
  · rw [request, dif_neg hother]

/-! ## A list of requests -/

theorem requests_append (keys : List Key) (key : Key) :
    requests limit (keys ++ [key]) = (requests limit keys).request limit key := by
  rw [requests, requests, List.foldl_append]
  rfl

theorem requested_of_mem (keys : List Key) :
    ∀ key ∈ (requests limit keys).keys, key ∈ keys := by
  induction keys using List.reverseRecOn with
  | nil => simp [requests, empty]
  | append_singleton keys last ih =>
    intro key hkey
    rw [requests_append] at hkey
    by_cases hnew : last ∉ (requests limit keys).keys ∧ (requests limit keys).count < limit
    · rw [keys_request hnew.1 hnew.2] at hkey
      rcases List.mem_append.mp hkey with hold | hlast
      · exact List.mem_append_left _ (ih key hold)
      · exact List.mem_append_right _ hlast
    · rw [request, dif_neg hnew] at hkey
      exact List.mem_append_left _ (ih key hkey)

/-- As long as numbers are left, every key that asked has one. -/
theorem mem_of_requested {keys : List Key} (hlimit : (requests limit keys).count < limit) :
    ∀ key ∈ keys, key ∈ (requests limit keys).keys := by
  induction keys using List.reverseRecOn with
  | nil => simp
  | append_singleton keys last ih =>
    rw [requests_append] at hlimit ⊢
    have hcount : (requests limit keys).count < limit :=
      lt_of_le_of_lt count_le_count_request hlimit
    intro key hkey
    by_cases hnew : last ∈ (requests limit keys).keys
    · rw [request_of_mem hnew]
      rcases List.mem_append.mp hkey with hold | hlast
      · exact ih hcount key hold
      · rwa [List.mem_singleton.mp hlast]
    · rw [keys_request hnew hcount, List.mem_append]
      exact (List.mem_append.mp hkey).imp_left (ih hcount key)

/-- **The count of a bump counter** stays below a bound exactly when so few different keys asked. -/
theorem count_requests_le_iff {keys : List Key} {bound : ℕ} (hbound : bound < limit) :
    (requests limit keys).count ≤ bound ↔ keys.toFinset.card ≤ bound := by
  have hcard : (requests limit keys).count = (requests limit keys).keys.toFinset.card :=
    (List.toFinset_card_of_nodup (requests limit keys).nodup).symm
  constructor
  · intro hcount
    refine le_trans (Finset.card_le_card fun key hkey ↦ ?_) (hcard ▸ hcount)
    exact List.mem_toFinset.mpr
      (mem_of_requested (by omega) key (List.mem_toFinset.mp hkey))
  · intro hkeys
    rw [hcard]
    refine le_trans (Finset.card_le_card fun key hkey ↦ ?_) hkeys
    exact List.mem_toFinset.mpr (requested_of_mem keys key (List.mem_toFinset.mp hkey))

end Numbering

end K210Firmware
