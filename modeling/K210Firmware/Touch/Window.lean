import K210Firmware.Library.Rings
import K210Firmware.Library.Transition
import K210Firmware.Touch.Mean
import K210Firmware.Touch.Median

/-!
# What the sliding median and the running mean return

The arrays of a median filter are a ring that holds the last `length` values passed to it since it
was allocated or cleared, and the index array sorts that window. Each call therefore answers with
the value of middle rank among them. While the ring is filling the rank counts the values before
the call, so that the answer for an even number of values is the upper middle one only once the
ring is full. The ring of a mean filter holds its window in the same way, and the filter answers
with the truncated mean of it.
-/

namespace K210Firmware.Touch.Window

open Memory Median Mean Rings Transition

/-- The filter holds the window of `history`. -/
def Keeps (filter : MedianFilter) (history : List ℤ) : Prop :=
  Holds filter.buffer.cell filter.length filter.position filter.count history

/-- The rank of the answer to a call that is preceded by `earlier` others. -/
def medianRank (length : ℤ) (earlier : ℕ) : ℕ := min earlier length.toNat / 2

/-- The value of a rank, counted from zero, in nondecreasing order. -/
def ranked (values : List ℤ) (rank : ℕ) : Option ℤ := (Multiset.sort (values : Multiset ℤ))[rank]?

/-- A call of `median_update` with an `int`, or of `median_clear`. -/
inductive Call
  | update (value : Int32)
  | clear

/-- A filter, the values passed to it since it was last empty, and its last answer. -/
structure Feed where
  filter : MedianFilter
  history : List ℤ
  result : Option ℤ

def feeding : System Feed Call Fault where
  enabled _ _ := True
  step feed
    | .update value => do
      let (result, filter) ← medianUpdate feed.filter value.toInt
      return ⟨filter, feed.history ++ [value.toInt], some result⟩
    | .clear => return ⟨medianClear feed.filter, [], none⟩

/-- What holds after each call: `index` lists the filled slots in the order of their values, a full
ring is about to overwrite its oldest value, and the answer has the middle rank. -/
structure Slides (feed : Feed) : Prop where
  count : feed.filter.count = min (feed.history.length : ℤ) feed.filter.length
  permutes : Set.BijOn feed.filter.index.cell (Set.Ico 0 feed.filter.count)
    (Set.Ico 0 feed.filter.count)
  sorts : ∀ left right, 0 ≤ left → left < right → right < feed.filter.count →
    feed.filter.buffer.cell (feed.filter.index.cell left) ≤
      feed.filter.buffer.cell (feed.filter.index.cell right)
  oldest : feed.filter.count = feed.filter.length →
    (window feed.filter.length feed.history).head? =
      some (feed.filter.buffer.cell feed.filter.position)
  answers : ∀ earlier value, feed.history = earlier ++ [value] → ∃ result,
    feed.result = some result ∧ ranked (window feed.filter.length feed.history)
      (medianRank feed.filter.length earlier.length) = some result
  centre : Odd feed.filter.length → feed.filter.length ≤ feed.history.length → ∃ result,
    feed.result = some result ∧ ranked (window feed.filter.length feed.history)
      ((feed.filter.length - 1) / 2).toNat = some result

/-! ## One update -/

theorem cursor_of_valid {lower upper : ℤ} {filter : MedianFilter}
    (h : Median.Valid lower upper filter) :
    Cursor filter.length filter.position filter.count :=
  ⟨h.count_nonneg, h.count_le, h.position_nonneg, h.position_lt, h.position_filling⟩

/-- **The sliding median.** An update answers with the value of middle rank in the new window. -/
theorem medianUpdate_window {lower upper : ℤ} {filter : MedianFilter}
    (h : Median.Valid lower upper filter) (hupper : upper ≤ intMax) {history : List ℤ}
    (hkeeps : Keeps filter history) {value : ℤ} (hvalue : lower ≤ value ∧ value ≤ upper) :
    ∃ result after, medianUpdate filter value = .ok (result, after) ∧
      Median.Valid lower upper after ∧
      after.length = filter.length ∧ Keeps after (history ++ [value]) ∧
      (lower ≤ result ∧ result ≤ upper) ∧
      ranked (window filter.length (history ++ [value]))
        (medianRank filter.length history.length) = some result := by
  obtain ⟨result, after, hrun, hupdated, hvalid⟩ := medianUpdate_spec h hupper hvalue
  have hkept : Keeps after (history ++ [value]) := by
    rw [Keeps, hupdated.length, hupdated.position, hupdated.count, hupdated.buffer]
    exact hkeeps.push (cursor_of_valid h) value
  refine ⟨result, after, hrun, hvalid, hupdated.length, hkept, hupdated.result_mem h hvalid, ?_⟩
  have hrank : ((medianRank filter.length history.length : ℕ) : ℤ) = filter.count.tdiv 2 := by
    have hcount := hkeeps.count_eq
    have hnonneg := h.count_nonneg
    rw [Int.tdiv_eq_ediv_of_nonneg hnonneg, hcount]
    simp only [medianRank]
    omega
  have hlt : ((medianRank filter.length history.length : ℕ) : ℤ) < after.count := by
    rw [hrank, hupdated.count]
    exact (rank_lt_filled h).2
  rw [hupdated.result, ← hrank, ← hupdated.length]
  exact Holds.sort_window (cursor_of_valid hvalid) hkept hvalid.enumerates hvalid.sorted
    (hupdated.length ▸ hlt)

/-- The ring of a mean filter holds the window of `history`. -/
def MeanKeeps (filter : MeanFilter) (history : List ℤ) : Prop :=
  Holds filter.buffer.cell filter.length filter.index filter.count history

/-- The truncated mean of the last `length` values. -/
def meanOf (length : ℤ) (history : List ℤ) : ℤ :=
  (window length history).sum.tdiv (window length history).length

theorem cursor_of_mean {upper : ℤ} {filter : MeanFilter} (h : Mean.Valid upper filter) :
    Cursor filter.length filter.index filter.count :=
  ⟨h.count_nonneg, h.count_le, h.index_nonneg, h.index_lt, h.index_filling⟩

theorem meanUpdate_index {upper : ℤ} {filter after : MeanFilter} (h : Mean.Valid upper filter)
    {value result : ℤ} (hrun : meanUpdate filter value = .ok (result, after)) :
    after.index = next filter.length filter.index := by
  rw [meanUpdate_eq_ok h.index_nonneg (h.buffer_size ▸ h.index_lt)] at hrun
  cases hrun
  rw [next]
  exact h.index_pushed value

/-- The sum of a mean filter is the sum of its window. -/
theorem MeanKeeps.sum_eq {upper : ℤ} {filter : MeanFilter} (h : Mean.Valid upper filter)
    {history : List ℤ} (hkeeps : MeanKeeps filter history) :
    filter.sum = (window filter.length history).sum := by
  rw [h.sum_eq_filled, hkeeps.sum_window (cursor_of_mean h)]

/-- **The running mean.** An update answers with the truncated mean of the new window. -/
theorem meanUpdate_window {upper : ℤ} {filter : MeanFilter} (h : Mean.Valid upper filter)
    {history : List ℤ} (hkeeps : MeanKeeps filter history) {value : ℤ}
    (hvalue : 0 ≤ value ∧ value ≤ upper) :
    ∃ after, meanUpdate filter value = .ok (meanOf filter.length (history ++ [value]), after) ∧
      Mean.Valid upper after ∧ after.length = filter.length ∧
      MeanKeeps after (history ++ [value]) ∧
      (0 ≤ meanOf filter.length (history ++ [value]) ∧
        meanOf filter.length (history ++ [value]) ≤ upper) := by
  obtain ⟨result, after, hrun, hupdated, hvalid⟩ := meanUpdate_spec h hvalue
  have hkept : MeanKeeps after (history ++ [value]) := by
    rw [MeanKeeps, hupdated.length, meanUpdate_index h hrun, hupdated.count, hupdated.buffer]
    exact hkeeps.push (cursor_of_mean h) value
  have hresult : result = meanOf filter.length (history ++ [value]) := by
    have hlength : ((window filter.length (history ++ [value])).length : ℤ) = after.count := by
      have hcount := hkept.count_eq
      have hnonneg := hvalid.count_nonneg
      rw [hupdated.length] at hcount
      simp only [window, List.rtake, List.length_drop]
      omega
    rw [hupdated.result, hkept.sum_eq hvalid, hupdated.length, meanOf, hlength]
  subst hresult
  exact ⟨after, hrun, hvalid, hupdated.length, hkept, hupdated.result_bounds h hvalid⟩

/-! ## Every sequence of calls -/

/-- The smallest `int`. -/
def intMin : ℤ := -1 - 0x7fffffff

/-- What every call keeps. -/
structure Fed (length : ℤ) (feed : Feed) : Prop where
  valid : Median.Valid intMin intMax feed.filter
  length_eq : feed.filter.length = length
  keeps : Keeps feed.filter feed.history
  answers : ∀ earlier value, feed.history = earlier ++ [value] → ∃ result,
    feed.result = some result ∧ ranked (window feed.filter.length feed.history)
      (medianRank feed.filter.length earlier.length) = some result

theorem allocated_fed {length : ℤ} (hlength : 1 ≤ length) (buffer index : ℤ → ℤ) :
    Fed length ⟨medianAlloc length buffer index, [], none⟩ where
  valid := medianAlloc_valid (by omega) _ _ _ _
  length_eq := rfl
  keeps := Holds.empty (show 0 < length by omega) buffer
  answers earlier value hsplit := by simp at hsplit

theorem feeding_progress {length : ℤ} (feed : Feed) (call : Call) (h : Fed length feed) :
    feeding.enabled feed call ∧ ∃ next, feeding.step feed call = .ok next ∧ Fed length next := by
  refine ⟨trivial, ?_⟩
  cases call with
  | update value =>
    have hvalue : intMin ≤ value.toInt ∧ value.toInt ≤ intMax :=
      ⟨value.le_toInt, Int.le_of_lt_add_one value.toInt_lt⟩
    obtain ⟨result, after, hrun, hvalid, hsame, hkeeps, _, hrank⟩ :=
      medianUpdate_window h.valid le_rfl h.keeps hvalue
    refine ⟨⟨after, feed.history ++ [value.toInt], some result⟩, ?_, hvalid,
      hsame.trans h.length_eq, hkeeps, fun earlier last hsplit ↦ ⟨result, rfl, ?_⟩⟩
    · simp only [feeding, hrun, ok_bind]
      rfl
    · obtain ⟨rfl, _⟩ := List.append_inj' hsplit rfl
      simpa only [hsame] using hrank
  | clear =>
    have hlength := h.valid.position_nonneg.trans_lt h.valid.position_lt
    refine ⟨⟨medianClear feed.filter, [], none⟩, rfl, h.valid.clear, h.length_eq,
      Holds.empty hlength _, fun earlier value hsplit ↦ ?_⟩
    simp at hsplit

theorem Fed.slides {length : ℤ} {feed : Feed} (h : Fed length feed) : Slides feed := by
  have hcursor := cursor_of_valid h.valid
  refine ⟨h.keeps.count_eq, h.valid.enumerates, h.valid.sorted, fun hfull ↦ ?_, h.answers,
    fun hodd hlong ↦ ?_⟩
  · have hcount := h.keeps.count_eq
    have hlower := h.valid.position_nonneg
    have hupper := h.valid.position_lt
    have hslot : slot feed.filter.length feed.filter.position feed.filter.count (0 : ℕ) =
        feed.filter.position := by
      simp only [slot]
      split_ifs <;> omega
    rw [h.keeps.window_eq hcursor, List.head?_eq_getElem?, List.getElem?_map,
      List.getElem?_range (by omega), Option.map_some, hslot]
  · obtain ⟨earlier, value, hsplit⟩ : ∃ earlier value, feed.history = earlier ++ [value] := by
      rcases List.eq_nil_or_concat feed.history with hnil | ⟨earlier, value, hconcat⟩
      · have hlower := h.valid.position_nonneg
        have hupper := h.valid.position_lt
        rw [hnil] at hlong
        simp at hlong
        omega
      · exact ⟨earlier, value, by rw [hconcat, List.concat_eq_append]⟩
    obtain ⟨result, hresult, hrank⟩ := h.answers earlier value hsplit
    refine ⟨result, hresult, ?_⟩
    have hmiddle : medianRank feed.filter.length earlier.length =
        ((feed.filter.length - 1) / 2).toNat := by
      obtain ⟨half, hhalf⟩ := hodd
      rw [hsplit] at hlong
      simp only [List.length_append, List.length_singleton] at hlong
      simp only [medianRank]
      omega
    rwa [← hmiddle]

/-- **`median_update` is a sliding median.** Whatever the allocator left in its arrays, every
sequence of updates and clears of a filter of length at least one returns, stays inside the
arrays, and leaves a sorted window whose middle rank was the answer. -/
theorem sliding_median {length : ℤ} (hlength : 1 ≤ length) (buffer index : ℤ → ℤ)
    (calls : List Call) :
    ∃ feed, feeding.Run ⟨medianAlloc length buffer index, [], none⟩ calls feed ∧
      feed.filter.length = length ∧ Slides feed := by
  obtain ⟨feed, hrun, hfed⟩ :=
    System.Run.exists_of_progress feeding_progress (allocated_fed hlength buffer index) calls
  exact ⟨feed, hrun, hfed.length_eq, hfed.slides⟩

instance (feed : Feed) (call : Call) : Decidable (feeding.enabled feed call) :=
  inferInstanceAs (Decidable True)

/-- A ring of three cells: after a clear it fills and its oldest value leaves it. -/
theorem sliding_median_three :
    ∃ feed, feeding.Run ⟨medianAlloc 3 (fun _ ↦ 9) (fun _ ↦ 9), [], none⟩
      [.update 7, .clear, .update 30, .update 10, .update 20, .update 40] feed ∧
      feed.filter.length = 3 ∧ Slides feed ∧ feed.result = some 20 := by
  obtain ⟨feed, hrun, hlength, hslides⟩ := sliding_median (by decide : (1 : ℤ) ≤ 3) (fun _ ↦ 9)
    (fun _ ↦ 9) [.update 7, .clear, .update 30, .update 10, .update 20, .update 40]
  have hcomputed : ((feeding.execute ⟨medianAlloc 3 (fun _ ↦ 9) (fun _ ↦ 9), [], none⟩
      [.update 7, .clear, .update 30, .update 10, .update 20, .update 40]).any
        (·.result = some 20)) := by decide +kernel
  obtain ⟨last, hlast, hresult⟩ := System.Run.exists_of_execute hcomputed
  obtain rfl := hrun.unique hlast
  exact ⟨feed, hrun, hlength, hslides, of_decide_eq_true hresult⟩

end K210Firmware.Touch.Window
