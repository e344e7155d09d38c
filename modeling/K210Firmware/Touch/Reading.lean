import K210Firmware.Touch.Setup

/-!
# Reading the touch screen through the heap

The blocks of a set-up driver hold the values that the pure driver works on. Each function of
the polling path, run on the blocks, returns what the pure function returns, leaves the blocks of
the pure result behind and touches no other block.
-/

namespace K210Firmware.Touch.Reading

open Memory Ns2009 Blocks Setup
open Touch.Filter (TsFilter Point)
open Median (MedianFilter)
open Mean (MeanFilter)

/-- The branch of a poll whose pressure lies in the contact range. -/
def contactPoll (pdata : Address) (readings : Readings) : Prog Object Unit := do
  let block ← loadAs Object.pdata? pdata
  let point ← tsfilterUpdate block.filter (raw readings.x) (raw readings.y)
  if block.press = 0 then
    store block.event (.event (pushEventBegin point.x point.y))
    modifyAs Object.pdata? .pdata pdata fun block ↦ { block with press := 1 }
  else if block.x ≠ point.x ∨ block.y ≠ point.y then
    store block.event (.event (pushEventMove point.x point.y))
  else pure ()
  modifyAs Object.pdata? .pdata pdata fun block ↦ { block with x := point.x, y := point.y }

/-- The branch of a poll whose pressure lies outside the contact range. -/
def releasePoll (pdata : Address) : Prog Object Unit := do
  let block ← loadAs Object.pdata? pdata
  if block.press ≠ 0 then
    tsfilterClear block.filter
    store block.event (.event (pushEventEnd block.x block.y))
    modifyAs Object.pdata? .pdata pdata fun block ↦ { block with press := 0 }
  else pure ()

def tsNs2009Poll (pdata : Address) (readings : Readings) : Prog Object Unit :=
  let (received, z1) := ns2009Read readings.z1 0
  if received then
    if z1 > 70 ∧ z1 < 2000 then contactPoll pdata readings else releasePoll pdata
  else do
    let block ← loadAs Object.pdata? pdata
    store block.event (.event pushEventNone)

/-- The status and the position; `type` is what `*type` held before. -/
def touchscreenRead (pdata : Address) (readings : Readings) (type : ℤ) :
    Prog Object (ℤ × Point) := do
  tsNs2009Poll pdata readings
  let block ← loadAs Object.pdata? pdata
  let event ← loadAs Object.event? block.event
  return Input.readEvent event type

/-! ## The components -/

variable {arena : Arena Object} {ptr : ℕ}

theorem medianUpdate_at {filter after : MedianFilter} {value result : ℤ}
    (h : MedianAt arena.heap ptr filter)
    (hrun : Median.medianUpdate filter value = .ok (result, after)) :
    Returns (medianUpdate ptr value) arena fun found last ↦ found = result ∧
      MedianAt last.heap ptr after ∧ SameOutside ptr (ptr + 3) arena last := by
  unfold medianUpdate
  refine returns_step (loadAs_eq_ok _ h.block rfl) ?_
  refine returns_step (loadAs_eq_ok _ h.buffer rfl) ?_
  refine returns_step (loadAs_eq_ok _ h.index rfl) ?_
  refine returns_step (computed_eq_ok hrun arena) ?_
  refine returns_step (store_eq_ok h.buffer _) ?_
  refine returns_step (store_eq_ok (by simp [h.index]; rfl) _) ?_
  refine returns_step (store_eq_ok (by simp [h.block]; rfl) _) ?_
  refine returns_pure ⟨rfl, ⟨?_, ?_, ?_⟩, rfl, fun address haddress ↦ ?_⟩
  · simp [h.block]
  · simp [h.buffer]
  · simp [h.index]
  · simp [show address ≠ ptr by omega, show address ≠ ptr + 1 by omega,
      show address ≠ ptr + 2 by omega]

theorem medianClear_at {filter : MedianFilter} (h : MedianAt arena.heap ptr filter) :
    Returns (medianClear ptr) arena fun _ last ↦
      MedianAt last.heap ptr (Median.medianClear filter) ∧
        SameOutside ptr (ptr + 3) arena last := by
  unfold medianClear
  rw [if_pos (Arena.ne_zero_of_cell h.block)]
  refine ⟨(), _, modifyAs_eq_ok _ _ h.block rfl, ⟨?_, ?_, ?_⟩, rfl, fun address haddress ↦ ?_⟩
  · simp [h.block, Median.medianClear]
  · simp [h.buffer, Median.medianClear]
  · simp [h.index, Median.medianClear]
  · simp [show address ≠ ptr by omega]

theorem meanUpdate_at {filter after : MeanFilter} {value result : ℤ}
    (h : MeanAt arena.heap ptr filter)
    (hrun : Mean.meanUpdate filter value = .ok (result, after)) :
    Returns (meanUpdate ptr value) arena fun found last ↦ found = result ∧
      MeanAt last.heap ptr after ∧ SameOutside ptr (ptr + 2) arena last := by
  unfold meanUpdate
  refine returns_step (loadAs_eq_ok _ h.block rfl) ?_
  refine returns_step (loadAs_eq_ok _ h.buffer rfl) ?_
  refine returns_step (computed_eq_ok hrun arena) ?_
  refine returns_step (store_eq_ok h.buffer _) ?_
  refine returns_step (store_eq_ok (by simp [h.block]; rfl) _) ?_
  refine returns_pure ⟨rfl, ⟨?_, ?_⟩, rfl, fun address haddress ↦ ?_⟩
  · simp [h.block]
  · simp [h.buffer]
  · simp [show address ≠ ptr by omega, show address ≠ ptr + 1 by omega]

theorem meanClear_at {filter : MeanFilter} (h : MeanAt arena.heap ptr filter) :
    Returns (meanClear ptr) arena fun _ last ↦
      MeanAt last.heap ptr (Mean.meanClear filter) ∧ SameOutside ptr (ptr + 2) arena last := by
  unfold meanClear
  rw [if_pos (Arena.ne_zero_of_cell h.block)]
  refine returns_step (loadAs_eq_ok _ h.block rfl) ?_
  refine returns_step (modifyAs_eq_ok _ _ h.buffer rfl) ?_
  refine ⟨(), _, modifyAs_eq_ok ⟨ptr + 1, filter.length, filter.index, filter.count, filter.sum⟩ _
    (by simp [h.block]) rfl, ⟨?_, ?_⟩, rfl, fun address haddress ↦ ?_⟩
  · simp [h.block, Mean.meanClear]
  · simp [h.buffer, Mean.meanClear]
  · simp [show address ≠ ptr by omega, show address ≠ ptr + 1 by omega]

/-! ## The filter -/

section Filter

variable {last : Arena Object} {filter after : TsFilter}

theorem FilterAt.setMx {mx : MedianFilter} (h : FilterAt arena.heap ptr filter)
    (hmx : MedianAt last.heap (ptr + 1) mx) (hsame : SameOutside (ptr + 1) (ptr + 4) arena last) :
    FilterAt last.heap ptr { filter with mx } where
  block := (hsame.cell ptr (by omega)).trans h.block
  mx := hmx
  my := h.my.sameOutside hsame (by omega)
  nx := h.nx.sameOutside hsame (by omega)
  ny := h.ny.sameOutside hsame (by omega)

theorem FilterAt.setMy {my : MedianFilter} (h : FilterAt arena.heap ptr filter)
    (hmy : MedianAt last.heap (ptr + 4) my) (hsame : SameOutside (ptr + 4) (ptr + 7) arena last) :
    FilterAt last.heap ptr { filter with my } where
  block := (hsame.cell ptr (by omega)).trans h.block
  mx := h.mx.sameOutside hsame (by omega)
  my := hmy
  nx := h.nx.sameOutside hsame (by omega)
  ny := h.ny.sameOutside hsame (by omega)

theorem FilterAt.setNx {nx : MeanFilter} (h : FilterAt arena.heap ptr filter)
    (hnx : MeanAt last.heap (ptr + 7) nx) (hsame : SameOutside (ptr + 7) (ptr + 9) arena last) :
    FilterAt last.heap ptr { filter with nx } where
  block := (hsame.cell ptr (by omega)).trans h.block
  mx := h.mx.sameOutside hsame (by omega)
  my := h.my.sameOutside hsame (by omega)
  nx := hnx
  ny := h.ny.sameOutside hsame (by omega)

theorem FilterAt.setNy {ny : MeanFilter} (h : FilterAt arena.heap ptr filter)
    (hny : MeanAt last.heap (ptr + 9) ny) (hsame : SameOutside (ptr + 9) (ptr + 11) arena last) :
    FilterAt last.heap ptr { filter with ny } where
  block := (hsame.cell ptr (by omega)).trans h.block
  mx := h.mx.sameOutside hsame (by omega)
  my := h.my.sameOutside hsame (by omega)
  nx := h.nx.sameOutside hsame (by omega)
  ny := hny

theorem tsfilterUpdate_at {x y : ℤ} {point : Point} (h : FilterAt arena.heap ptr filter)
    (hrun : Filter.tsfilterUpdate filter x y = .ok (point, after)) :
    Returns (tsfilterUpdate ptr x y) arena fun found last ↦ found = point ∧
      FilterAt last.heap ptr after ∧ SameOutside ptr (ptr + 11) arena last := by
  obtain ⟨⟨medianX, mx⟩, hmx, hrun⟩ := bind_eq_ok.mp hrun
  obtain ⟨⟨medianY, my⟩, hmy, hrun⟩ := bind_eq_ok.mp hrun
  obtain ⟨⟨tx, nx⟩, hnx, hrun⟩ := bind_eq_ok.mp hrun
  obtain ⟨⟨ty, ny⟩, hny, hrun⟩ := bind_eq_ok.mp hrun
  cases hrun
  unfold tsfilterUpdate
  refine returns_step (loadAs_eq_ok _ h.block rfl) ?_
  apply (medianUpdate_at h.mx hmx).bind
  rintro _ first ⟨rfl, hmx, hfirst⟩
  have h₁ := FilterAt.setMx h hmx hfirst
  apply (medianUpdate_at h₁.my hmy).bind
  rintro _ second ⟨rfl, hmy, hsecond⟩
  have h₂ := FilterAt.setMy h₁ hmy hsecond
  apply (meanUpdate_at h₂.nx hnx).bind
  rintro _ third ⟨rfl, hnx, hthird⟩
  have h₃ := FilterAt.setNx h₂ hnx hthird
  apply (meanUpdate_at h₃.ny hny).bind
  rintro _ fourth ⟨rfl, hny, hfourth⟩
  refine returns_pure ⟨rfl, FilterAt.setNy h₃ hny hfourth, ?_, fun address haddress ↦ ?_⟩
  · rw [hfourth.next, hthird.next, hsecond.next, hfirst.next]
  · rw [hfourth.cell address (by omega), hthird.cell address (by omega),
      hsecond.cell address (by omega), hfirst.cell address (by omega)]

theorem tsfilterClear_at (h : FilterAt arena.heap ptr filter) :
    Returns (tsfilterClear ptr) arena fun _ last ↦
      FilterAt last.heap ptr (Filter.tsfilterClear filter) ∧
        SameOutside ptr (ptr + 11) arena last := by
  unfold tsfilterClear
  rw [if_pos (Arena.ne_zero_of_cell h.block)]
  refine returns_step (loadAs_eq_ok _ h.block rfl) ?_
  apply (medianClear_at h.mx).bind
  intro _ first ⟨hmx, hfirst⟩
  have h₁ := FilterAt.setMx h hmx hfirst
  apply (medianClear_at h₁.my).bind
  intro _ second ⟨hmy, hsecond⟩
  have h₂ := FilterAt.setMy h₁ hmy hsecond
  apply (meanClear_at h₂.nx).bind
  intro _ third ⟨hnx, hthird⟩
  have h₃ := FilterAt.setNx h₂ hnx hthird
  apply (meanClear_at h₃.ny).mono
  intro _ fourth ⟨hny, hfourth⟩
  refine ⟨FilterAt.setNy h₃ hny hfourth, ?_, fun address haddress ↦ ?_⟩
  · rw [hfourth.next, hthird.next, hsecond.next, hfirst.next]
  · rw [hfourth.cell address (by omega), hthird.cell address (by omega),
      hsecond.cell address (by omega), hfirst.cell address (by omega)]

end Filter

/-! ## One poll -/

section Poll

variable {last : Arena Object} {driver after : Pdata} {readings : Readings} {log : PollLog}

/-- The filter and the event record are replaced, and then the fields of the driver data. -/
theorem DriverAt.setFilter {filter : TsFilter} (h : DriverAt arena.heap ptr driver)
    (hfilter : FilterAt last.heap (ptr + 1) filter)
    (hsame : SameOutside (ptr + 1) (ptr + 12) arena last) :
    DriverAt last.heap ptr { driver with filter } where
  block := (hsame.cell ptr (by omega)).trans h.block
  filter := hfilter
  event := (hsame.cell (ptr + 12) (by omega)).trans h.event

theorem DriverAt.setEvent (h : DriverAt arena.heap ptr driver) (event : TsEvent) :
    DriverAt (arena.replace (ptr + 12) (some (.event event))).heap ptr { driver with event } where
  block := by simp [h.block]
  filter := h.filter.congr fun address _ _ ↦ by simp [show address ≠ ptr + 12 by omega]
  event := by simp [h.event]

theorem DriverAt.setFields (h : DriverAt arena.heap ptr driver) (x y press : ℤ) :
    DriverAt (arena.replace ptr (some (.pdata ⟨ptr + 1, ptr + 12, x, y, press⟩))).heap ptr
      { driver with x, y, press } where
  block := by simp [h.block]
  filter := h.filter.congr fun address _ _ ↦ by simp [show address ≠ ptr by omega]
  event := by simp [h.event]

theorem contactPoll_at (h : DriverAt arena.heap ptr driver)
    (hrun : Ns2009.contactPoll driver readings = .ok (after, log)) :
    Returns (contactPoll ptr readings) arena fun _ last ↦ DriverAt last.heap ptr after := by
  obtain ⟨⟨point, filter⟩, hupdate, hrun⟩ := bind_eq_ok.mp hrun
  cases hrun
  unfold contactPoll
  refine returns_step (loadAs_eq_ok _ h.block rfl) ?_
  apply (tsfilterUpdate_at h.filter hupdate).bind
  intro found updated ⟨hfound, hfilter, hsame⟩
  rw [hfound]
  have hupdated := DriverAt.setFilter h hfilter hsame
  by_cases hpress : driver.press = 0
  · simp only [hpress, if_true]
    refine returns_step (store_eq_ok hupdated.event _) ?_
    have hevent := DriverAt.setEvent hupdated (pushEventBegin point.x point.y)
    refine returns_step (modifyAs_eq_ok _ _ hevent.block rfl) ?_
    have hpressed := DriverAt.setFields hevent driver.x driver.y 1
    exact ⟨(), _, modifyAs_eq_ok _ _ hpressed.block rfl,
      DriverAt.setFields hpressed point.x point.y 1⟩
  · simp only [hpress, if_false]
    by_cases hmoved : driver.x ≠ point.x ∨ driver.y ≠ point.y
    · simp only [hmoved, if_true]
      refine returns_step (store_eq_ok hupdated.event _) ?_
      have hevent := DriverAt.setEvent hupdated (pushEventMove point.x point.y)
      exact ⟨(), _, modifyAs_eq_ok _ _ hevent.block rfl,
        DriverAt.setFields hevent point.x point.y driver.press⟩
    · simp only [hmoved, if_false]
      exact ⟨(), _, modifyAs_eq_ok _ _ hupdated.block rfl,
        DriverAt.setFields hupdated point.x point.y driver.press⟩

theorem releasePoll_at (h : DriverAt arena.heap ptr driver) :
    Returns (releasePoll ptr) arena fun _ last ↦
      DriverAt last.heap ptr (Ns2009.releasePoll driver).1 := by
  unfold releasePoll Ns2009.releasePoll
  refine returns_step (loadAs_eq_ok _ h.block rfl) ?_
  by_cases hpress : driver.press = 0
  · simp only [hpress, ne_eq, not_true_eq_false, if_false]
    exact returns_pure h
  · simp only [hpress, ne_eq, not_false_eq_true, if_true]
    apply (tsfilterClear_at h.filter).bind
    intro _ cleared ⟨hfilter, hsame⟩
    have hcleared := DriverAt.setFilter h hfilter hsame
    refine returns_step (store_eq_ok hcleared.event _) ?_
    have hevent := DriverAt.setEvent hcleared (pushEventEnd driver.x driver.y)
    exact ⟨(), _, modifyAs_eq_ok _ _ hevent.block rfl,
      DriverAt.setFields hevent driver.x driver.y 0⟩

/-- **One poll** of the blocks does what the poll of the driver that they hold does. -/
theorem tsNs2009Poll_at (h : DriverAt arena.heap ptr driver)
    (hrun : Ns2009.tsNs2009Poll driver readings = .ok (after, log)) :
    Returns (tsNs2009Poll ptr readings) arena fun _ last ↦ DriverAt last.heap ptr after := by
  unfold Ns2009.tsNs2009Poll at hrun
  unfold tsNs2009Poll
  simp only at hrun ⊢
  by_cases hreceived : (ns2009Read readings.z1 0).1
  · rw [if_pos hreceived] at hrun ⊢
    split_ifs at hrun ⊢ with hrange
    · exact contactPoll_at h hrun
    · have hpair : Ns2009.releasePoll driver = (after, log) := Except.ok.inj hrun
      have hrelease := releasePoll_at h
      rwa [hpair] at hrelease
  · rw [if_neg hreceived] at hrun ⊢
    cases hrun
    refine returns_step (loadAs_eq_ok _ h.block rfl) ?_
    exact ⟨(), _, store_eq_ok h.event _, DriverAt.setEvent h pushEventNone⟩

theorem touchscreenRead_at (h : DriverAt arena.heap ptr driver) {type : ℤ} {status : ℤ × Point}
    (hrun : Input.touchscreenRead driver readings type = .ok (after, status)) :
    Returns (touchscreenRead ptr readings type) arena fun found last ↦
      found = status ∧ DriverAt last.heap ptr after := by
  obtain ⟨⟨polled, log⟩, hpoll, hrun⟩ := bind_eq_ok.mp hrun
  cases hrun
  unfold touchscreenRead
  apply (tsNs2009Poll_at h hpoll).bind
  intro _ last hat
  refine returns_step (loadAs_eq_ok _ hat.block rfl) ?_
  refine returns_step (loadAs_eq_ok _ hat.event rfl) ?_
  exact returns_pure ⟨rfl, hat⟩

end Poll

end K210Firmware.Touch.Reading
