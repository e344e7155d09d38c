import K210Firmware.Touch.Mean
import K210Firmware.Touch.Median
import Mathlib.Data.Fin.VecNotation

/-!
# The touch filter

`tsfilter.c` passes each raw coordinate through a sliding median and a running mean, and maps the
pair of means to the screen with a seven-entry calibration. Its four components are reached
through pointers in C; here the filter holds them, as it does after a complete allocation.
-/

namespace K210Firmware.Touch.Filter

open Memory Median Mean

structure Point where
  x : ℤ
  y : ℤ
  deriving DecidableEq, Repr

/-- The coefficients of a calibration are numbered with literals. -/
instance neZero_seven : NeZero 7 := ⟨Nat.succ_ne_zero 6⟩

/-- `struct tsfilter_t`. -/
structure TsFilter where
  mx : MedianFilter
  my : MedianFilter
  nx : MeanFilter
  ny : MeanFilter
  cal : Fin 7 → ℤ

/-- What the allocator left in the six arrays of a filter. -/
structure StaleArrays where
  mxBuffer : ℤ → ℤ
  mxIndex : ℤ → ℤ
  myBuffer : ℤ → ℤ
  myIndex : ℤ → ℤ
  nxBuffer : ℤ → ℤ
  nyBuffer : ℤ → ℤ

/-- A `tsfilter_alloc` all of whose allocations succeed. -/
def tsfilterAlloc (ml nl : ℤ) (stale : StaleArrays) : TsFilter where
  mx := medianAlloc ml stale.mxBuffer stale.mxIndex
  my := medianAlloc ml stale.myBuffer stale.myIndex
  nx := meanAlloc nl stale.nxBuffer
  ny := meanAlloc nl stale.nyBuffer
  cal := ![1, 0, 0, 0, 1, 0, 1]

def tsfilterSetcal (filter : TsFilter) (cal : Fin 7 → ℤ) : TsFilter := { filter with cal }

/-- `(offset + left * tx + right * ty) / divisor`. -/
def combine (arith : Arithmetic) (offset left right divisor tx ty : ℤ) : Except Fault ℤ := do
  let sum ← arith.int (offset + (← arith.int (left * tx)))
  let sum ← arith.int (sum + (← arith.int (right * ty)))
  arith.divide sum divisor

/-- `tsfilter_update` over the given arithmetic. -/
def tsfilterUpdateWith (arith : Arithmetic) (filter : TsFilter) (x y : ℤ) :
    Except Fault (Point × TsFilter) := do
  let (tx, mx) ← medianUpdateWith arith filter.mx x
  let (ty, my) ← medianUpdateWith arith filter.my y
  let (tx, nx) ← meanUpdateWith arith filter.nx tx
  let (ty, ny) ← meanUpdateWith arith filter.ny ty
  let x ← combine arith (filter.cal 2) (filter.cal 0) (filter.cal 1) (filter.cal 6) tx ty
  let y ← combine arith (filter.cal 5) (filter.cal 3) (filter.cal 4) (filter.cal 6) tx ty
  return (⟨x, y⟩, { filter with mx, my, nx, ny })

def tsfilterUpdate (filter : TsFilter) (x y : ℤ) : Except Fault (Point × TsFilter) :=
  tsfilterUpdateWith .unbounded filter x y

/-- The image of a pair of means when nothing overflows. -/
def calibrate (cal : Fin 7 → ℤ) (tx ty : ℤ) : Point where
  x := (cal 2 + cal 0 * tx + cal 1 * ty).tdiv (cal 6)
  y := (cal 5 + cal 3 * tx + cal 4 * ty).tdiv (cal 6)

def tsfilterClear (filter : TsFilter) : TsFilter where
  mx := medianClear filter.mx
  my := medianClear filter.my
  nx := meanClear filter.nx
  ny := meanClear filter.ny
  cal := filter.cal

/-- All four components are well formed and hold values in `[0, upper]`. -/
structure Valid (upper : ℤ) (filter : TsFilter) : Prop where
  mx : Median.Valid 0 upper filter.mx
  my : Median.Valid 0 upper filter.my
  nx : Mean.Valid upper filter.nx
  ny : Mean.Valid upper filter.ny

/-- No component holds a sample, whatever its arrays contain. -/
structure Empty (filter : TsFilter) : Prop where
  mx : filter.mx.count = 0
  my : filter.my.count = 0
  nx : filter.nx.count = 0
  ny : filter.ny.count = 0

theorem tsfilterAlloc_valid {ml nl : ℤ} (hml : 0 < ml) (hnl : 0 < nl) (stale : StaleArrays)
    (cal : Fin 7 → ℤ) (upper : ℤ) : Valid upper (tsfilterSetcal (tsfilterAlloc ml nl stale) cal) :=
  ⟨medianAlloc_valid hml _ _ _ _, medianAlloc_valid hml _ _ _ _, meanAlloc_valid hnl _ _,
    meanAlloc_valid hnl _ _⟩

theorem tsfilterAlloc_empty (ml nl : ℤ) (stale : StaleArrays) (cal : Fin 7 → ℤ) :
    Empty (tsfilterSetcal (tsfilterAlloc ml nl stale) cal) :=
  ⟨rfl, rfl, rfl, rfl⟩

theorem Valid.clear {upper : ℤ} {filter : TsFilter} (h : Valid upper filter) :
    Valid upper (tsfilterClear filter) :=
  ⟨h.mx.clear, h.my.clear, h.nx.clear, h.ny.clear⟩

theorem tsfilterClear_empty (filter : TsFilter) : Empty (tsfilterClear filter) :=
  ⟨rfl, rfl, rfl, rfl⟩

/-- An update returns when its components and its calibration do. -/
theorem tsfilterUpdateWith_eq_ok {arith : Arithmetic} {filter : TsFilter} {x y : ℤ}
    {medianX medianY meanX meanY : ℤ} {mx my : MedianFilter} {nx ny : MeanFilter} {point : Point}
    (hmx : medianUpdateWith arith filter.mx x = .ok (medianX, mx))
    (hmy : medianUpdateWith arith filter.my y = .ok (medianY, my))
    (hnx : meanUpdateWith arith filter.nx medianX = .ok (meanX, nx))
    (hny : meanUpdateWith arith filter.ny medianY = .ok (meanY, ny))
    (hx : combine arith (filter.cal 2) (filter.cal 0) (filter.cal 1) (filter.cal 6) meanX meanY =
      .ok point.x)
    (hy : combine arith (filter.cal 5) (filter.cal 3) (filter.cal 4) (filter.cal 6) meanX meanY =
      .ok point.y) :
    tsfilterUpdateWith arith filter x y = .ok (point, { filter with mx, my, nx, ny }) := by
  simp only [tsfilterUpdateWith, hmx, hmy, hnx, hny, hx, hy, ok_bind]
  rfl

/-- **One sample.** The filter returns the calibrated image of two values within the bounds of its
samples; for an empty filter these are the raw values themselves. -/
theorem tsfilterUpdate_spec {upper : ℤ} {filter : TsFilter} (h : Valid upper filter)
    (hupper : upper ≤ intMax) {x y : ℤ} (hx : 0 ≤ x ∧ x ≤ upper) (hy : 0 ≤ y ∧ y ≤ upper) :
    ∃ tx ty after, tsfilterUpdate filter x y = .ok (calibrate filter.cal tx ty, after) ∧
      Valid upper after ∧ after.cal = filter.cal ∧ (0 ≤ tx ∧ tx ≤ upper) ∧
      (0 ≤ ty ∧ ty ≤ upper) ∧ (Empty filter → tx = x ∧ ty = y) := by
  obtain ⟨medianX, mx, hmx, hmxUpdated, hmxValid⟩ := medianUpdate_spec h.mx hupper hx
  obtain ⟨medianY, my, hmy, hmyUpdated, hmyValid⟩ := medianUpdate_spec h.my hupper hy
  have hmedianX := hmxUpdated.result_mem h.mx hmxValid
  have hmedianY := hmyUpdated.result_mem h.my hmyValid
  obtain ⟨meanX, nx, hnx, hnxUpdated, hnxValid⟩ := meanUpdate_spec h.nx hmedianX
  obtain ⟨meanY, ny, hny, hnyUpdated, hnyValid⟩ := meanUpdate_spec h.ny hmedianY
  refine ⟨meanX, meanY, { filter with mx, my, nx, ny },
    tsfilterUpdateWith_eq_ok hmx hmy hnx hny rfl rfl,
    ⟨hmxValid, hmyValid, hnxValid, hnyValid⟩, rfl, hnxUpdated.result_bounds h.nx hnxValid,
    hnyUpdated.result_bounds h.ny hnyValid, ?_⟩
  intro hempty
  rw [hnxUpdated.result_of_empty h.nx hnxValid hempty.nx,
    hnyUpdated.result_of_empty h.ny hnyValid hempty.ny,
    hmxUpdated.result_of_empty h.mx hmxValid hempty.mx,
    hmyUpdated.result_of_empty h.my hmyValid hempty.my]
  exact ⟨rfl, rfl⟩

end K210Firmware.Touch.Filter
