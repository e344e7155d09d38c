import K210Firmware.Touch.Checked
import K210Firmware.Touch.Input
import K210Firmware.Touch.Window

/-!
# The response of the touch filter

With the shipped calibration the filter answers a sample with the calibrated image of two means of
medians, and no `int` operation on the way overflows. Once the two windows are full the answer
depends on the last `ml + nl - 1` samples only. For an even median length this takes one sample
more: the median that fills the window still has the rank of a window that is filling.
-/

namespace K210Firmware.Touch.Response

open Memory Median Mean Touch.Filter Ns2009 Input Window Checked Rings Transition

/-- A pair of raw values in the range of `ns2009_read`. -/
structure Sample where
  x : ℤ
  y : ℤ
  x_bounds : 0 ≤ x ∧ x ≤ sampleMax
  y_bounds : 0 ≤ y ∧ y ≤ sampleMax

/-- A call of `tsfilter_update` or of `tsfilter_clear`. -/
inductive Call
  | update (sample : Sample)
  | clear

/-- A filter, the samples passed to it since it was last empty, and its last answer. -/
structure Feed where
  filter : TsFilter
  history : List Sample
  output : Option Point

def filtering : System Feed Call Fault where
  enabled _ _ := True
  step feed
    | .update sample => do
      let (point, filter) ← tsfilterUpdate32 feed.filter sample.x sample.y
      return ⟨filter, feed.history ++ [sample], some point⟩
    | .clear => return ⟨tsfilterClear feed.filter, [], none⟩

/-- The filter after `tsfilter_alloc` and `tsfilter_setcal`. -/
def allocated (ml nl : ℤ) (stale : StaleArrays) : Feed :=
  ⟨tsfilterSetcal (tsfilterAlloc ml nl stale) calibration, [], none⟩

/-! ## The specification -/

/-- The answer of a sliding median after these values. -/
def medianOf (length : ℤ) (values : List ℤ) : ℤ :=
  (ranked (window length values) (medianRank length (values.length - 1))).getD 0

/-- The answers of a sliding median to these values, one after the other. -/
def medians (length : ℤ) (values : List ℤ) : List ℤ :=
  (List.range values.length).map fun call ↦ medianOf length (values.take (call + 1))

/-- The calibrated means of the medians of both coordinates. -/
def response (ml nl : ℤ) (history : List Sample) : Point :=
  calibrate calibration (meanOf nl (medians ml (history.map Sample.x)))
    (meanOf nl (medians ml (history.map Sample.y)))

/-- The number of samples after which the response has forgotten how many there were. -/
def settled (ml nl : ℤ) : ℤ := if ml % 2 = 1 then ml + nl - 1 else ml + nl

/-- The answer is the response to the history, and each mean filter holds the sum of its window. -/
structure Responds (ml nl : ℤ) (feed : Feed) : Prop where
  output : feed.history ≠ [] → feed.output = some (response ml nl feed.history)
  sumX : feed.filter.nx.sum = (window nl (medians ml (feed.history.map Sample.x))).sum
  sumY : feed.filter.ny.sum = (window nl (medians ml (feed.history.map Sample.y))).sum

theorem medians_append (length : ℤ) (values : List ℤ) (value : ℤ) :
    medians length (values ++ [value]) =
      medians length values ++ [medianOf length (values ++ [value])] := by
  rw [medians, List.length_append, List.length_singleton, List.range_succ, List.map_append, medians]
  congr 1
  · apply List.map_congr_left
    intro call hcall
    rw [List.mem_range] at hcall
    rw [List.take_append_of_le_length (by omega)]
  · rw [List.map_singleton, List.take_of_length_le (by simp)]

/-! ## What the response remembers -/

/-- In a settled history a median reads `ml` of the last `ml + nl - 1` values at a fixed rank. -/
theorem window_medians {ml nl : ℕ} (hml : 1 ≤ ml) (hnl : 1 ≤ nl) {values : List ℤ}
    (hsettled : settled ml nl ≤ values.length) :
    window nl (medians ml values) = (List.range nl).map fun place ↦
      (ranked (((window ((ml : ℤ) + nl - 1) values).drop place).take ml) (ml / 2)).getD 0 := by
  have hlong : ml + nl - 1 ≤ values.length ∧ (ml % 2 = 0 → ml + nl ≤ values.length) := by
    simp only [settled] at hsettled
    split_ifs at hsettled <;> omega
  have hcount : (medians ml values).length = values.length := by simp [medians]
  apply List.ext_getElem?
  intro place
  by_cases hplace : place < nl
  · have hcall : values.length - nl + place < values.length := by omega
    have hmedian : (window nl (medians ml values))[place]? =
        some (medianOf ml (values.take (values.length - nl + place + 1))) := by
      rw [window, List.rtake, List.getElem?_drop, hcount, Int.toNat_natCast, medians,
        List.getElem?_map, List.getElem?_range hcall]
      rfl
    have hwindow : window ml (values.take (values.length - nl + place + 1)) =
        ((window ((ml : ℤ) + nl - 1) values).drop place).take ml := by
      rw [window, window, List.rtake, List.rtake, List.length_take, List.drop_take,
        List.drop_drop]
      congr 1
      · omega
      · congr 1
        omega
    have hrank : medianRank ml ((values.take (values.length - nl + place + 1)).length - 1) =
        ml / 2 := by
      rw [medianRank, List.length_take, Int.toNat_natCast]
      omega
    rw [hmedian, medianOf, hwindow, hrank, List.getElem?_map, List.getElem?_range hplace]
    rfl
  · rw [List.getElem?_eq_none, List.getElem?_eq_none]
    · simpa using hplace
    · rw [window, List.rtake, List.length_drop, hcount, Int.toNat_natCast]
      omega

theorem window_map {Value : Type*} (length : ℤ) (field : Sample → Value) (history : List Sample) :
    window length (history.map field) = (window length history).map field := by
  rw [window, window, List.rtake, List.rtake, List.map_drop, List.length_map]

/-- **Memory.** Settled histories that end in the same `ml + nl - 1` samples have the same
response. -/
theorem response_congr {ml nl : ℤ} (hml : 1 ≤ ml) (hnl : 1 ≤ nl) {history other : List Sample}
    (hsettled : settled ml nl ≤ history.length) (hother : settled ml nl ≤ other.length)
    (hsame : window (ml + nl - 1) history = window (ml + nl - 1) other) :
    response ml nl history = response ml nl other := by
  lift ml to ℕ using by omega
  lift nl to ℕ using by omega
  have hmean (field : Sample → ℤ) :
      meanOf nl (medians ml (history.map field)) = meanOf nl (medians ml (other.map field)) := by
    rw [meanOf, meanOf,
      window_medians (by omega) (by omega) (by rwa [List.length_map]),
      window_medians (by omega) (by omega) (by rwa [List.length_map]),
      window_map, window_map, hsame]
  rw [response, response, hmean, hmean]

/-! ## One sample -/

/-- The two filters of one coordinate, after these values. -/
structure Axis (ml nl : ℤ) (median : MedianFilter) (mean : MeanFilter) (values : List ℤ) :
    Prop where
  median_valid : Median.Valid 0 sampleMax median
  median_length : median.length = ml
  median_keeps : Keeps median values
  mean_valid : Mean.Valid sampleMax mean
  mean_length : mean.length = nl
  mean_keeps : MeanKeeps mean (medians ml values)

/-- Bounds under which the counters and the sums of the filters are `int` values. -/
structure Lengths (ml nl : ℤ) : Prop where
  median_pos : 1 ≤ ml
  median_int : ml ≤ intMax
  mean_pos : 1 ≤ nl
  mean_sum : nl * 4095 < 2 ^ 31

variable {ml nl : ℤ} {median : MedianFilter} {mean : MeanFilter} {values : List ℤ}

theorem Axis.start (hlengths : Lengths ml nl) {buffer index ring : ℤ → ℤ} :
    Axis ml nl (medianAlloc ml buffer index) (meanAlloc nl ring) [] := by
  have hml := hlengths.median_pos
  have hnl := hlengths.mean_pos
  exact ⟨medianAlloc_valid (by omega) _ _ _ _, rfl, Holds.empty (show 0 < ml by omega) _,
    meanAlloc_valid (by omega) _ _, rfl, Holds.empty (show 0 < nl by omega) _⟩

theorem Axis.clear (h : Axis ml nl median mean values) :
    Axis ml nl (medianClear median) (meanClear mean) [] where
  median_valid := h.median_valid.clear
  median_length := h.median_length
  median_keeps :=
    Holds.empty (h.median_valid.position_nonneg.trans_lt h.median_valid.position_lt) _
  mean_valid := h.mean_valid.clear
  mean_length := h.mean_length
  mean_keeps := Holds.empty (h.mean_valid.index_nonneg.trans_lt h.mean_valid.index_lt) _

/-- One value passes through both filters without an overflow. -/
theorem Axis.update (h : Axis ml nl median mean values) (hlengths : Lengths ml nl) {value : ℤ}
    (hvalue : 0 ≤ value ∧ value ≤ sampleMax) :
    ∃ middle median' mean', medianUpdate32 median value = .ok (middle, median') ∧
      meanUpdate32 mean middle = .ok (meanOf nl (medians ml (values ++ [value])), mean') ∧
      Axis ml nl median' mean' (values ++ [value]) ∧
      (0 ≤ meanOf nl (medians ml (values ++ [value])) ∧
        meanOf nl (medians ml (values ++ [value])) ≤ sampleMax) := by
  obtain ⟨hmedian, rfl, hmedianKeeps, hmean, rfl, hmeanKeeps⟩ := h
  have hupper : sampleMax ≤ intMax := by decide
  obtain ⟨middle, median', hmedianRun, hmedian', hmedianLength, hmedianKeeps', hmiddle, hrank⟩ :=
    medianUpdate_window hmedian hupper hmedianKeeps hvalue
  have hmedianOf : medianOf median.length (values ++ [value]) = middle := by
    rw [medianOf, List.length_append, List.length_singleton, Nat.add_sub_cancel, hrank]
    rfl
  obtain ⟨mean', hmeanRun, hmean', hmeanLength, hmeanKeeps', hbounds⟩ :=
    meanUpdate_window hmean hmeanKeeps hmiddle
  rw [← hmedianOf, ← medians_append] at hmeanRun hmeanKeeps' hbounds
  rw [hmedianOf] at hmeanRun
  refine ⟨middle, median', mean', ?_, ?_, ⟨hmedian', hmedianLength, hmedianKeeps', hmean',
    hmeanLength, hmeanKeeps'⟩, hbounds⟩
  · rw [medianUpdate32_eq hmedian hlengths.median_int hupper hvalue]
    exact hmedianRun
  · rw [meanUpdate32_eq hmean (by decide) hlengths.mean_sum hmiddle]
    exact hmeanRun

theorem combine_checked (bound : ℤ) {offset left right divisor tx ty : ℤ} (hdivisor : 0 < divisor)
    (hbound : 0 ≤ bound ∧ bound < 2 ^ 31) (hleft : -2 ^ 31 ≤ left * tx ∧ left * tx < 2 ^ 31)
    (hfirst : -2 ^ 31 ≤ offset + left * tx ∧ offset + left * tx < 2 ^ 31)
    (hright : -2 ^ 31 ≤ right * ty ∧ right * ty < 2 ^ 31)
    (hsum : -2 ^ 31 ≤ offset + left * tx + right * ty ∧ offset + left * tx + right * ty < 2 ^ 31)
    (hquotient : -(bound * divisor) ≤ offset + left * tx + right * ty ∧
      offset + left * tx + right * ty ≤ bound * divisor) :
    combine .checked offset left right divisor tx ty =
      .ok ((offset + left * tx + right * ty).tdiv divisor) := by
  obtain ⟨hlower, hupper⟩ := tdiv_bounds _ divisor bound hdivisor hbound.1 hquotient.1 hquotient.2
  simp only [combine, Arithmetic.checked_int, Arithmetic.checked_divide]
  rw [int32_eq_ok hleft.1 hleft.2, ok_bind, int32_eq_ok hfirst.1 hfirst.2, ok_bind,
    int32_eq_ok hright.1 hright.2, ok_bind, int32_eq_ok hsum.1 hsum.2, ok_bind,
    divide32_eq_ok hdivisor.ne' (by omega) (by omega)]

/-- The shipped calibration of two 12-bit values does not overflow. -/
theorem calibrate32 {tx ty : ℤ} (htx : 0 ≤ tx ∧ tx ≤ sampleMax) (hty : 0 ≤ ty ∧ ty ≤ sampleMax) :
    combine .checked (calibration 2) (calibration 0) (calibration 1) (calibration 6) tx ty =
        .ok (calibrate calibration tx ty).x ∧
      combine .checked (calibration 5) (calibration 3) (calibration 4) (calibration 6) tx ty =
        .ok (calibrate calibration tx ty).y := by
  simp only [sampleMax] at htx hty
  constructor
  · change combine .checked 21542188 (-20) (-5806) 65536 tx ty = _
    exact combine_checked 400 (by omega) (by omega) (by omega) (by omega) (by omega)
      (by omega) (by omega)
  · change combine .checked (-361856) 4056 66 65536 tx ty = _
    exact combine_checked 400 (by omega) (by omega) (by omega) (by omega) (by omega)
      (by omega) (by omega)

/-! ## Every sequence of calls -/

/-- What every call keeps. -/
structure Filtered (ml nl : ℤ) (feed : Feed) : Prop where
  cal : feed.filter.cal = calibration
  x : Axis ml nl feed.filter.mx feed.filter.nx (feed.history.map Sample.x)
  y : Axis ml nl feed.filter.my feed.filter.ny (feed.history.map Sample.y)
  output : feed.history ≠ [] → feed.output = some (response ml nl feed.history)

theorem allocated_filtered (hlengths : Lengths ml nl) (stale : StaleArrays) :
    Filtered ml nl (allocated ml nl stale) :=
  ⟨rfl, .start hlengths, .start hlengths, fun hne ↦ absurd rfl hne⟩

theorem filtering_progress (hlengths : Lengths ml nl) (feed : Feed) (call : Call)
    (h : Filtered ml nl feed) : filtering.enabled feed call ∧
      ∃ next, filtering.step feed call = .ok next ∧ Filtered ml nl next := by
  refine ⟨trivial, ?_⟩
  cases call with
  | update sample =>
    obtain ⟨middleX, mx, nx, hmx, hnx, hx, htx⟩ := h.x.update hlengths sample.x_bounds
    obtain ⟨middleY, my, ny, hmy, hny, hy, hty⟩ := h.y.update hlengths sample.y_bounds
    obtain ⟨hcalX, hcalY⟩ := calibrate32 htx hty
    refine ⟨⟨{ feed.filter with mx, my, nx, ny }, feed.history ++ [sample],
      some (response ml nl (feed.history ++ [sample]))⟩, ?_, h.cal, ?_, ?_, fun _ ↦ rfl⟩
    · have hupdate := tsfilterUpdateWith_eq_ok hmx hmy hnx hny (h.cal ▸ hcalX) (h.cal ▸ hcalY)
      simp only [filtering, tsfilterUpdate32, hupdate, ok_bind, h.cal, response, List.map_append,
        List.map_singleton]
      rfl
    · simpa using hx
    · simpa using hy
  | clear =>
    exact ⟨⟨tsfilterClear feed.filter, [], none⟩, rfl, h.cal, h.x.clear, h.y.clear,
      fun hne ↦ absurd rfl hne⟩

theorem Filtered.responds {feed : Feed} (h : Filtered ml nl feed) : Responds ml nl feed where
  output := h.output
  sumX := by rw [h.x.mean_keeps.sum_eq h.x.mean_valid, h.x.mean_length]
  sumY := by rw [h.y.mean_keeps.sum_eq h.y.mean_valid, h.y.mean_length]

theorem Run.filtered (hlengths : Lengths ml nl) {stale : StaleArrays} {calls : List Call}
    {feed : Feed} (hrun : filtering.Run (allocated ml nl stale) calls feed) :
    Filtered ml nl feed := by
  apply hrun.invariant _ (allocated_filtered hlengths stale)
  intro state call next hstate _ hstep
  obtain ⟨_, other, hother, hnext⟩ := filtering_progress hlengths state call hstate
  rw [hstep] at hother
  cases hother
  exact hnext

/-- Answers after at least `threshold` samples depend on the last `ml + nl - 1` samples only. -/
def Forgets (ml nl threshold : ℤ) : Prop :=
  ∀ stale stale' calls calls' feed feed',
    filtering.Run (allocated ml nl stale) calls feed →
    filtering.Run (allocated ml nl stale') calls' feed' →
    threshold ≤ feed.history.length → threshold ≤ feed'.history.length →
    window (ml + nl - 1) feed.history = window (ml + nl - 1) feed'.history →
      feed.output = feed'.output

theorem forgets_settled (hlengths : Lengths ml nl) : Forgets ml nl (settled ml nl) := by
  have hml := hlengths.median_pos
  have hnl := hlengths.mean_pos
  intro stale stale' calls calls' feed feed' hrun hrun' hsettled hsettled' hsame
  have hne (history : List Sample) (hlong : settled ml nl ≤ history.length) : history ≠ [] := by
    rintro rfl
    simp only [settled, List.length_nil] at hlong
    split_ifs at hlong <;> omega
  rw [(Run.filtered hlengths hrun).output (hne _ hsettled),
    (Run.filtered hlengths hrun').output (hne _ hsettled'),
    response_congr hml hnl hsettled hsettled' hsame]

/-- **`tsfilter_update` is the calibrated mean of the median.** Every sequence of updates and
clears returns without an overflow, every answer is the response to the samples since the filter
was empty, and settled answers depend on the last `ml + nl - 1` samples only. -/
theorem filter_responds (hml : 1 ≤ ml) (hint : ml ≤ intMax) (hnl : 1 ≤ nl)
    (hsum : nl * 4095 < 2 ^ 31) :
    (∀ stale calls, ∃ feed, filtering.Run (allocated ml nl stale) calls feed ∧
      Responds ml nl feed) ∧ Forgets ml nl (settled ml nl) := by
  have hlengths : Lengths ml nl := ⟨hml, hint, hnl, hsum⟩
  refine ⟨fun stale calls ↦ ?_, forgets_settled hlengths⟩
  obtain ⟨feed, hrun, hfiltered⟩ := System.Run.exists_of_progress (filtering_progress hlengths)
    (allocated_filtered hlengths stale) calls
  exact ⟨feed, hrun, hfiltered.responds⟩

/-- The lengths that `ts_ns2009_probe` asks for. -/
theorem probed_filter_responds :
    (∀ stale calls, ∃ feed, filtering.Run (allocated 5 5 stale) calls feed ∧
      Responds 5 5 feed) ∧ Forgets 5 5 (settled 5 5) :=
  filter_responds (by decide) (by decide) (by decide) (by decide)

/-! ## An even median length -/

def lowest : Sample := ⟨0, 0, by decide, by decide⟩

def highest : Sample := ⟨4095, 4095, by decide, by decide⟩

/-- A median of two values answers with the lower one in the call that fills its window, and with
the upper one from then on. -/
theorem even_median_remembers : ¬ Forgets 2 1 (2 + 1 - 1) := by
  intro hforgets
  have hfilling := hforgets zeroArrays zeroArrays [.update lowest, .update highest]
    [.update lowest, .update lowest, .update highest] _ _
    (.cons trivial rfl (.cons trivial rfl (.nil _)))
    (.cons trivial rfl (.cons trivial rfl (.cons trivial rfl (.nil _)))) (by decide) (by decide) rfl
  exact absurd hfilling (by decide)

end K210Firmware.Touch.Response
