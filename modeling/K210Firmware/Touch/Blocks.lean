import K210Firmware.Library.Allocation
import K210Firmware.Touch.Ns2009

/-!
# The blocks of the touch driver

The driver data, its filter, the four components with their arrays and the event record are
allocated one by one. Here every pointer of the C structures is an address, and the constructors
and destructors of `median.c`, `mean.c`, `tsfilter.c` and `ns2009.c` are programs that allocate,
use and free blocks. An allocation that succeeds returns a block with arbitrary contents.
-/

namespace K210Firmware.Touch.Blocks

open Memory Median Mean Touch.Filter Ns2009

/-- `struct median_filter_t`. -/
structure MedianBlock where
  buffer : Address
  index : Address
  length : ℤ
  position : ℤ
  count : ℤ

/-- `struct mean_filter_t`. -/
structure MeanBlock where
  buffer : Address
  length : ℤ
  index : ℤ
  count : ℤ
  sum : ℤ

/-- `struct tsfilter_t`. -/
structure TsFilterBlock where
  mx : Address
  my : Address
  nx : Address
  ny : Address
  cal : Fin 7 → ℤ

/-- `struct ts_ns2009_pdata_t`. -/
structure PdataBlock where
  filter : Address
  event : Address
  x : ℤ
  y : ℤ
  press : ℤ

inductive Object
  | median (block : MedianBlock)
  | mean (block : MeanBlock)
  | tsfilter (block : TsFilterBlock)
  | pdata (block : PdataBlock)
  | event (event : TsEvent)
  | array (block : Block ℤ)

namespace Object

def median? : Object → Option MedianBlock
  | median block => some block
  | _ => none

def mean? : Object → Option MeanBlock
  | mean block => some block
  | _ => none

def tsfilter? : Object → Option TsFilterBlock
  | tsfilter block => some block
  | _ => none

def pdata? : Object → Option PdataBlock
  | pdata block => some block
  | _ => none

def event? : Object → Option TsEvent
  | event record => some record
  | _ => none

def array? : Object → Option (Block ℤ)
  | array block => some block
  | _ => none

end Object

/-! ## The answers of the allocator -/

/-- The three allocations of `median_alloc`; a success shows what the block contains. -/
structure MedianAnswers where
  filter : Option MedianBlock
  buffer : Option (ℤ → ℤ)
  index : Option (ℤ → ℤ)

/-- The two allocations of `mean_alloc`. -/
structure MeanAnswers where
  filter : Option MeanBlock
  buffer : Option (ℤ → ℤ)

/-- The allocations of `tsfilter_alloc`. -/
structure FilterAnswers where
  filter : Option TsFilterBlock
  mx : MedianAnswers
  my : MedianAnswers
  nx : MeanAnswers
  ny : MeanAnswers

/-- The transfer and the allocations of `ts_ns2009_probe`. -/
structure ProbeAnswers where
  reply : I2cReply
  pdata : Option PdataBlock
  filter : FilterAnswers
  event : Option TsEvent

/-- What the allocator leaves in the blocks of a filter when it grants all of them. -/
structure FilterLeftovers where
  filter : TsFilterBlock
  mx : MedianBlock
  my : MedianBlock
  nx : MeanBlock
  ny : MeanBlock
  arrays : StaleArrays

def FilterLeftovers.answers (left : FilterLeftovers) : FilterAnswers where
  filter := some left.filter
  mx := ⟨some left.mx, some left.arrays.mxBuffer, some left.arrays.mxIndex⟩
  my := ⟨some left.my, some left.arrays.myBuffer, some left.arrays.myIndex⟩
  nx := ⟨some left.nx, some left.arrays.nxBuffer⟩
  ny := ⟨some left.ny, some left.arrays.nyBuffer⟩

/-! ## `median.c` and `mean.c` -/

def medianAlloc (length : ℤ) (answers : MedianAnswers) : Prog Object Address :=
  if length ≤ 0 then return 0
  else do
    let filter ← malloc (answers.filter.map .median)
    if filter = 0 then return 0
    else
      let buffer ← malloc (answers.buffer.map fun leftover ↦ .array ⟨length, leftover⟩)
      let index ← malloc (answers.index.map fun leftover ↦ .array ⟨length, leftover⟩)
      modifyAs Object.median? .median filter fun block ↦ { block with buffer, index }
      if buffer = 0 ∨ index = 0 then
        freeIf buffer
        freeIf index
        free filter
        return 0
      else
        modifyAs Object.median? .median filter fun block ↦
          { block with length, position := 0, count := 0 }
        return filter

def medianFree (filter : Address) : Prog Object Unit :=
  if filter ≠ 0 then do
    let block ← loadAs Object.median? filter
    freeIf block.buffer
    freeIf block.index
    free filter
  else return ()

/-- The call reads its three blocks, and writes to all of them. -/
def medianUpdate (filter : Address) (value : ℤ) : Prog Object ℤ := do
  let block ← loadAs Object.median? filter
  let buffer ← loadAs Object.array? block.buffer
  let index ← loadAs Object.array? block.index
  let (result, after) ← computed (Median.medianUpdate
    ⟨buffer, index, block.length, block.position, block.count⟩ value)
  store block.buffer (.array after.buffer)
  store block.index (.array after.index)
  store filter (.median
    ⟨block.buffer, block.index, after.length, after.position, after.count⟩)
  return result

def medianClear (filter : Address) : Prog Object Unit :=
  if filter ≠ 0 then
    modifyAs Object.median? .median filter fun block ↦ { block with position := 0, count := 0 }
  else return ()

def meanAlloc (length : ℤ) (answers : MeanAnswers) : Prog Object Address :=
  if length ≤ 0 then return 0
  else do
    let filter ← malloc (answers.filter.map .mean)
    if filter = 0 then return 0
    else
      let buffer ← malloc (answers.buffer.map fun leftover ↦ .array ⟨length, leftover⟩)
      modifyAs Object.mean? .mean filter fun block ↦ { block with buffer }
      if buffer = 0 then
        free filter
        return 0
      else
        modifyAs Object.array? .array buffer fun block ↦ block.fill length 0
        modifyAs Object.mean? .mean filter fun block ↦
          { block with length, index := 0, count := 0, sum := 0 }
        return filter

def meanFree (filter : Address) : Prog Object Unit :=
  if filter ≠ 0 then do
    let block ← loadAs Object.mean? filter
    freeIf block.buffer
    free filter
  else return ()

def meanUpdate (filter : Address) (value : ℤ) : Prog Object ℤ := do
  let block ← loadAs Object.mean? filter
  let buffer ← loadAs Object.array? block.buffer
  let (result, after) ← computed (Mean.meanUpdate
    ⟨buffer, block.length, block.index, block.count, block.sum⟩ value)
  store block.buffer (.array after.buffer)
  store filter (.mean ⟨block.buffer, after.length, after.index, after.count, after.sum⟩)
  return result

def meanClear (filter : Address) : Prog Object Unit :=
  if filter ≠ 0 then do
    let block ← loadAs Object.mean? filter
    modifyAs Object.array? .array block.buffer fun buffer ↦ buffer.fill block.length 0
    modifyAs Object.mean? .mean filter fun block ↦
      { block with index := 0, count := 0, sum := 0 }
  else return ()

/-! ## `tsfilter.c`

The null tests before `median_free`, `mean_free` and their like are those of the callees. -/

/-- The calibration of a filter that has not been given one. -/
def identityCal : Fin 7 → ℤ := ![1, 0, 0, 0, 1, 0, 1]

/-- A component that could not be allocated makes the call free the others, not the filter. -/
def tsfilterAlloc (ml nl : ℤ) (answers : FilterAnswers) : Prog Object Address :=
  if ml ≤ 0 ∨ nl ≤ 0 then return 0
  else do
    let filter ← malloc (answers.filter.map .tsfilter)
    if filter = 0 then return 0
    else
      let mx ← medianAlloc ml answers.mx
      let my ← medianAlloc ml answers.my
      let nx ← meanAlloc nl answers.nx
      let ny ← meanAlloc nl answers.ny
      store filter (.tsfilter ⟨mx, my, nx, ny, identityCal⟩)
      if mx = 0 ∨ my = 0 ∨ nx = 0 ∨ ny = 0 then
        medianFree mx
        medianFree my
        meanFree nx
        meanFree ny
        return filter
      else return filter

def tsfilterFree (filter : Address) : Prog Object Unit :=
  if filter ≠ 0 then do
    let block ← loadAs Object.tsfilter? filter
    medianFree block.mx
    medianFree block.my
    meanFree block.nx
    meanFree block.ny
    free filter
  else return ()

def tsfilterSetcal (filter : Address) (cal : Fin 7 → ℤ) : Prog Object Unit :=
  if filter ≠ 0 then
    modifyAs Object.tsfilter? .tsfilter filter fun block ↦ { block with cal }
  else return ()

def tsfilterUpdate (filter : Address) (x y : ℤ) : Prog Object Point := do
  let block ← loadAs Object.tsfilter? filter
  let tx ← medianUpdate block.mx x
  let ty ← medianUpdate block.my y
  let tx ← meanUpdate block.nx tx
  let ty ← meanUpdate block.ny ty
  return calibrate block.cal tx ty

def tsfilterClear (filter : Address) : Prog Object Unit :=
  if filter ≠ 0 then do
    let block ← loadAs Object.tsfilter? filter
    medianClear block.mx
    medianClear block.my
    meanClear block.nx
    meanClear block.ny
  else return ()

/-! ## The components in the heap -/

variable {arena : Arena Object} {heap heap' : Heap Object} {ptr first last : ℕ} {length : ℤ}

/-- A median filter at the three addresses from `ptr`. -/
structure MedianAt (heap : Heap Object) (ptr : ℕ) (filter : MedianFilter) : Prop where
  block : heap.cell ptr =
    some (.median ⟨ptr + 1, ptr + 2, filter.length, filter.position, filter.count⟩)
  buffer : heap.cell (ptr + 1) = some (.array filter.buffer)
  index : heap.cell (ptr + 2) = some (.array filter.index)

/-- A mean filter at the two addresses from `ptr`. -/
structure MeanAt (heap : Heap Object) (ptr : ℕ) (filter : MeanFilter) : Prop where
  block : heap.cell ptr =
    some (.mean ⟨ptr + 1, filter.length, filter.index, filter.count, filter.sum⟩)
  buffer : heap.cell (ptr + 1) = some (.array filter.buffer)

theorem MedianAt.congr {filter : MedianFilter} (h : MedianAt heap ptr filter)
    (hsame : ∀ address : ℕ, ptr ≤ address → address < ptr + 3 →
      heap'.cell address = heap.cell address) : MedianAt heap' ptr filter where
  block := (hsame ptr (by omega) (by omega)).trans h.block
  buffer := (hsame (ptr + 1) (by omega) (by omega)).trans h.buffer
  index := (hsame (ptr + 2) (by omega) (by omega)).trans h.index

theorem MeanAt.congr {filter : MeanFilter} (h : MeanAt heap ptr filter)
    (hsame : ∀ address : ℕ, ptr ≤ address → address < ptr + 2 →
      heap'.cell address = heap.cell address) : MeanAt heap' ptr filter where
  block := (hsame ptr (by omega) (by omega)).trans h.block
  buffer := (hsame (ptr + 1) (by omega) (by omega)).trans h.buffer

/-- Every allocation of the component succeeds. -/
def MedianAnswers.Granted (answers : MedianAnswers) : Prop :=
  answers.filter.isSome ∧ answers.buffer.isSome ∧ answers.index.isSome

def MeanAnswers.Granted (answers : MeanAnswers) : Prop :=
  answers.filter.isSome ∧ answers.buffer.isSome

theorem MedianAnswers.Granted.exists {answers : MedianAnswers} (h : answers.Granted) :
    ∃ leftover buffer index, answers = ⟨some leftover, some buffer, some index⟩ := by
  obtain ⟨hfilter, hbuffer, hindex⟩ := h
  obtain ⟨leftover, hleftover⟩ := Option.isSome_iff_exists.mp hfilter
  obtain ⟨buffer, hbuffer⟩ := Option.isSome_iff_exists.mp hbuffer
  obtain ⟨index, hindex⟩ := Option.isSome_iff_exists.mp hindex
  exact ⟨leftover, buffer, index, by rw [← hleftover, ← hbuffer, ← hindex]⟩

theorem MeanAnswers.Granted.exists {answers : MeanAnswers} (h : answers.Granted) :
    ∃ leftover buffer, answers = ⟨some leftover, some buffer⟩ := by
  obtain ⟨hfilter, hbuffer⟩ := h
  obtain ⟨leftover, hleftover⟩ := Option.isSome_iff_exists.mp hfilter
  obtain ⟨buffer, hbuffer⟩ := Option.isSome_iff_exists.mp hbuffer
  exact ⟨leftover, buffer, by rw [← hleftover, ← hbuffer]⟩

theorem medianAlloc_granted (hlength : 0 < length) (leftover : MedianBlock) (buffer index : ℤ → ℤ) :
    Returns (medianAlloc length ⟨some leftover, some buffer, some index⟩) arena
      fun ptr after ↦ ptr = arena.next ∧ Grows arena after ∧ after.next = arena.next + 3 ∧
        MedianAt after.heap arena.next (Median.medianAlloc length buffer index) := by
  unfold medianAlloc
  rw [if_neg (not_le.mpr hlength)]
  apply returns_step rfl
  rw [if_neg Arena.next_ne_zero]
  apply returns_step rfl
  apply returns_step rfl
  refine returns_step (modifyAs_eq_ok leftover _ (by simp [Nat.add_assoc]) rfl) ?_
  rw [if_neg (by simp)]
  refine returns_step (modifyAs_eq_ok
    { leftover with buffer := arena.next + 1, index := arena.next + 2 } _
    (by simp [Nat.add_assoc]) rfl) ?_
  apply returns_pure
  refine ⟨rfl, ⟨?_, fun address haddress ↦ ?_⟩, rfl, ⟨?_, ?_, ?_⟩⟩
  · simp [Nat.add_assoc]
  · simp [haddress.ne, show address ≠ arena.next + 1 by omega,
      show address ≠ arena.next + 1 + 1 by omega]
  · simp [Nat.add_assoc, Median.medianAlloc]
  · simp [Nat.add_assoc, Median.medianAlloc]
  · simp [Nat.add_assoc, Median.medianAlloc]

/-- A refused allocation gives back the blocks that were granted. -/
theorem medianAlloc_refused (hlength : 0 < length) {answers : MedianAnswers}
    (h : ¬ answers.Granted) :
    Returns (medianAlloc length answers) arena fun ptr after ↦ ptr = 0 ∧ Grows arena after := by
  have hnotlt {address : ℕ} (haddress : address < arena.next) (count : ℕ) :
      address ≠ arena.next + count := by omega
  unfold medianAlloc
  rw [if_neg (not_le.mpr hlength)]
  rcases answers with ⟨_ | leftover, buffer, index⟩
  · exact returns_step rfl (returns_pure ⟨rfl, .refl arena⟩)
  apply returns_step rfl
  rw [if_neg Arena.next_ne_zero]
  rcases buffer with _ | buffer
  · apply returns_step rfl
    rcases index with _ | index
    · apply returns_step rfl
      refine returns_step (modifyAs_eq_ok leftover _ (by simp) rfl) ?_
      rw [if_pos (.inl rfl)]
      refine returns_step (freeIf_zero _) (returns_step (freeIf_zero _) ?_)
      refine returns_step (free_eq_ok (by simp; rfl)) (returns_pure ⟨rfl, by simp, ?_⟩)
      intro address haddress
      simp [haddress.ne]
    · apply returns_step rfl
      refine returns_step (modifyAs_eq_ok leftover _ (by simp) rfl) ?_
      rw [if_pos (.inl rfl)]
      refine returns_step (freeIf_zero _) (returns_step (freeIf_eq_ok (by simp; rfl)) ?_)
      refine returns_step (free_eq_ok (by simp; rfl))
        (returns_pure ⟨rfl, by simp [Nat.add_assoc], ?_⟩)
      intro address haddress
      simp [haddress.ne, hnotlt haddress]
  · apply returns_step rfl
    rcases index with _ | index
    · apply returns_step rfl
      refine returns_step (modifyAs_eq_ok leftover _ (by simp) rfl) ?_
      rw [if_pos (.inr rfl)]
      refine returns_step (freeIf_eq_ok (by simp; rfl)) (returns_step (freeIf_zero _) ?_)
      refine returns_step (free_eq_ok (by simp; rfl))
        (returns_pure ⟨rfl, by simp [Nat.add_assoc], ?_⟩)
      intro address haddress
      simp [haddress.ne, hnotlt haddress]
    · exact absurd ⟨rfl, rfl, rfl⟩ h

theorem meanAlloc_granted (hlength : 0 < length) (leftover : MeanBlock) (buffer : ℤ → ℤ) :
    Returns (meanAlloc length ⟨some leftover, some buffer⟩) arena
      fun ptr after ↦ ptr = arena.next ∧ Grows arena after ∧ after.next = arena.next + 2 ∧
        MeanAt after.heap arena.next (Mean.meanAlloc length buffer) := by
  unfold meanAlloc
  rw [if_neg (not_le.mpr hlength)]
  apply returns_step rfl
  rw [if_neg Arena.next_ne_zero]
  apply returns_step rfl
  refine returns_step (modifyAs_eq_ok leftover _ (by simp) rfl) ?_
  rw [if_neg (by simp)]
  refine returns_step (modifyAs_eq_ok ⟨length, buffer⟩ _ (by simp) rfl) ?_
  refine returns_step (modifyAs_eq_ok { leftover with buffer := arena.next + 1 } _
    (by simp) rfl) ?_
  apply returns_pure
  refine ⟨rfl, ⟨?_, fun address haddress ↦ ?_⟩, rfl, ⟨?_, ?_⟩⟩
  · simp [Nat.add_assoc]
  · simp [haddress.ne, show address ≠ arena.next + 1 by omega]
  · simp [Mean.meanAlloc]
  · simp [Mean.meanAlloc]

theorem meanAlloc_refused (hlength : 0 < length) {answers : MeanAnswers} (h : ¬ answers.Granted) :
    Returns (meanAlloc length answers) arena fun ptr after ↦ ptr = 0 ∧ Grows arena after := by
  unfold meanAlloc
  rw [if_neg (not_le.mpr hlength)]
  rcases answers with ⟨_ | leftover, _ | buffer⟩
  · exact returns_step rfl (returns_pure ⟨rfl, .refl arena⟩)
  · exact returns_step rfl (returns_pure ⟨rfl, .refl arena⟩)
  · apply returns_step rfl
    rw [if_neg Arena.next_ne_zero]
    apply returns_step rfl
    refine returns_step (modifyAs_eq_ok leftover _ (by simp) rfl) ?_
    rw [if_pos rfl]
    refine returns_step (free_eq_ok (by simp; rfl)) (returns_pure ⟨rfl, by simp, ?_⟩)
    intro address haddress
    simp [haddress.ne]
  · exact absurd ⟨rfl, rfl⟩ h

theorem medianFree_at {filter : MedianFilter} (h : MedianAt arena.heap ptr filter) :
    Returns (medianFree ptr) arena fun _ after ↦ SameOutside ptr (ptr + 3) arena after := by
  unfold medianFree
  rw [if_pos (Arena.ne_zero_of_cell h.block)]
  refine returns_step (loadAs_eq_ok _ h.block rfl) ?_
  refine returns_step (freeIf_eq_ok h.buffer) ?_
  refine returns_step (freeIf_eq_ok (by simp [h.index]; rfl)) ?_
  refine ⟨(), _, free_eq_ok (by simp [h.block]; rfl), rfl, fun address haddress ↦ ?_⟩
  simp [show address ≠ ptr by omega, show address ≠ ptr + 1 by omega,
    show address ≠ ptr + 2 by omega]

theorem meanFree_at {filter : MeanFilter} (h : MeanAt arena.heap ptr filter) :
    Returns (meanFree ptr) arena fun _ after ↦ SameOutside ptr (ptr + 2) arena after := by
  unfold meanFree
  rw [if_pos (Arena.ne_zero_of_cell h.block)]
  refine returns_step (loadAs_eq_ok _ h.block rfl) ?_
  refine returns_step (freeIf_eq_ok h.buffer) ?_
  refine ⟨(), _, free_eq_ok (by simp [h.block]; rfl), rfl, fun address haddress ↦ ?_⟩
  simp [show address ≠ ptr by omega, show address ≠ ptr + 1 by omega]

def medianKind : Kind Object where
  count := 3
  Held heap ptr := ∃ filter, MedianAt heap ptr filter
  destroy := medianFree
  congr := fun ⟨filter, h⟩ hsame ↦ ⟨filter, h.congr hsame⟩
  destroy_null _ := rfl
  destroy_held := fun ⟨_, h⟩ ↦ medianFree_at h

def meanKind : Kind Object where
  count := 2
  Held heap ptr := ∃ filter, MeanAt heap ptr filter
  destroy := meanFree
  congr := fun ⟨filter, h⟩ hsame ↦ ⟨filter, h.congr hsame⟩
  destroy_null _ := rfl
  destroy_held := fun ⟨_, h⟩ ↦ meanFree_at h

theorem medianAlloc_constructs (hlength : 0 < length) (answers : MedianAnswers) :
    medianKind.Constructs (medianAlloc length answers) answers.Granted := by
  intro arena
  by_cases hgranted : answers.Granted
  · obtain ⟨leftover, buffer, index, rfl⟩ := hgranted.exists
    apply (medianAlloc_granted hlength leftover buffer index).mono
    rintro _ after ⟨rfl, hgrows, hnext, hat⟩
    exact ⟨hgrows, .inr ⟨le_rfl, hnext.ge, _, hat⟩, by simp [hgranted]⟩
  · apply (medianAlloc_refused hlength hgranted).mono
    rintro _ after ⟨rfl, hgrows⟩
    exact ⟨hgrows, .inl rfl, by simp [hgranted]⟩

theorem meanAlloc_constructs (hlength : 0 < length) (answers : MeanAnswers) :
    meanKind.Constructs (meanAlloc length answers) answers.Granted := by
  intro arena
  by_cases hgranted : answers.Granted
  · obtain ⟨leftover, buffer, rfl⟩ := hgranted.exists
    apply (meanAlloc_granted hlength leftover buffer).mono
    rintro _ after ⟨rfl, hgrows, hnext, hat⟩
    exact ⟨hgrows, .inr ⟨le_rfl, hnext.ge, _, hat⟩, by simp [hgranted]⟩
  · apply (meanAlloc_refused hlength hgranted).mono
    rintro _ after ⟨rfl, hgrows⟩
    exact ⟨hgrows, .inl rfl, by simp [hgranted]⟩

/-! ## The filter in the heap -/

/-- A filter and its components at the eleven addresses from `ptr`. -/
structure FilterAt (heap : Heap Object) (ptr : ℕ) (filter : TsFilter) : Prop where
  block : heap.cell ptr = some (.tsfilter ⟨ptr + 1, ptr + 4, ptr + 7, ptr + 9, filter.cal⟩)
  mx : MedianAt heap (ptr + 1) filter.mx
  my : MedianAt heap (ptr + 4) filter.my
  nx : MeanAt heap (ptr + 7) filter.nx
  ny : MeanAt heap (ptr + 9) filter.ny

theorem FilterAt.congr {filter : TsFilter} (h : FilterAt heap ptr filter)
    (hsame : ∀ address : ℕ, ptr ≤ address → address < ptr + 11 →
      heap'.cell address = heap.cell address) : FilterAt heap' ptr filter where
  block := (hsame ptr (by omega) (by omega)).trans h.block
  mx := h.mx.congr fun address _ _ ↦ hsame address (by omega) (by omega)
  my := h.my.congr fun address _ _ ↦ hsame address (by omega) (by omega)
  nx := h.nx.congr fun address _ _ ↦ hsame address (by omega) (by omega)
  ny := h.ny.congr fun address _ _ ↦ hsame address (by omega) (by omega)

/-- The allocations of the four components succeed. -/
def FilterAnswers.Components (answers : FilterAnswers) : Prop :=
  answers.mx.Granted ∧ answers.my.Granted ∧ answers.nx.Granted ∧ answers.ny.Granted

/-- A filter with a null component. -/
def Broken (heap : Heap Object) (ptr : ℕ) : Prop :=
  ∃ block, heap.cell ptr = some (.tsfilter block) ∧
    (block.mx = 0 ∨ block.my = 0 ∨ block.nx = 0 ∨ block.ny = 0)

/-- The destructors of the four components, in blocks one after the other, leave the rest alone. -/
theorem freeComponents {Value : Type} {rest : Prog Object Value} {mx my nx ny : Address}
    {first second third fourth last : ℕ} {result : Value → Arena Object → Prop}
    (hfirst : first ≤ second) (hsecond : second ≤ third) (hthird : third ≤ fourth)
    (hfourth : fourth ≤ last) (hmx : medianKind.Slot arena.heap mx first second)
    (hmy : medianKind.Slot arena.heap my second third)
    (hnx : meanKind.Slot arena.heap nx third fourth)
    (hny : meanKind.Slot arena.heap ny fourth last)
    (hrest : ∀ after, SameOutside first last arena after → Returns rest after result) :
    Returns (do
      medianFree mx
      medianFree my
      meanFree nx
      meanFree ny
      rest) arena result := by
  apply hmx.destroy.bind
  intro _ freed₁ hfreed₁
  have hmy := hmy.sameOutside hfreed₁ (.inr le_rfl)
  have hnx := hnx.sameOutside hfreed₁ (.inr hsecond)
  have hny := hny.sameOutside hfreed₁ (.inr (hsecond.trans hthird))
  apply hmy.destroy.bind
  intro _ freed₂ hfreed₂
  have hnx := hnx.sameOutside hfreed₂ (.inr le_rfl)
  have hny := hny.sameOutside hfreed₂ (.inr hthird)
  apply hnx.destroy.bind
  intro _ freed₃ hfreed₃
  have hny := hny.sameOutside hfreed₃ (.inr le_rfl)
  apply hny.destroy.bind
  intro _ freed₄ hfreed₄
  have hbefore : SameOutside first fourth arena freed₃ :=
    (hfreed₁.trans hfreed₂ le_rfl hfirst hsecond).trans hfreed₃ le_rfl (hfirst.trans hsecond) hthird
  exact hrest freed₄
    (hbefore.trans hfreed₄ le_rfl ((hfirst.trans hsecond).trans hthird) hfourth)

/-- A filter that lacks a component is returned all the same. -/
theorem tsfilterAlloc_broken {ml nl : ℤ} (hml : 0 < ml) (hnl : 0 < nl) {answers : FilterAnswers}
    {leftover : TsFilterBlock} (hfilter : answers.filter = some leftover)
    (hcomponents : ¬ answers.Components) :
    Returns (tsfilterAlloc ml nl answers) arena fun ptr after ↦
      ptr = arena.next ∧ Grows arena after ∧ Broken after.heap ptr := by
  unfold tsfilterAlloc
  rw [if_neg (by omega), hfilter]
  apply returns_step rfl
  rw [if_neg Arena.next_ne_zero]
  set pushed := arena.push (.tsfilter leftover)
  have hpushed : pushed.heap.cell arena.next = some (.tsfilter leftover) := by simp [pushed]
  have hnext : pushed.next = arena.next + 1 := rfl
  apply (medianAlloc_constructs hml answers.mx pushed).bind
  intro mx first ⟨hgrows₁, hmx, hmxNull⟩
  apply (medianAlloc_constructs hml answers.my first).bind
  intro my second ⟨hgrows₂, hmy, hmyNull⟩
  apply (meanAlloc_constructs hnl answers.nx second).bind
  intro nx third ⟨hgrows₃, hnx, hnxNull⟩
  apply (meanAlloc_constructs hnl answers.ny third).bind
  intro ny fourth ⟨hgrows₄, hny, hnyNull⟩
  have hmissing : mx = 0 ∨ my = 0 ∨ nx = 0 ∨ ny = 0 := by
    rw [hmxNull, hmyNull, hnxNull, hnyNull]
    unfold FilterAnswers.Components at hcomponents
    tauto
  have hgrows := (hgrows₁.trans hgrows₂).trans (hgrows₃.trans hgrows₄)
  have hcell : fourth.heap.cell arena.next = some (.tsfilter leftover) :=
    (hgrows.cell arena.next (by omega)).trans hpushed
  refine returns_step (store_eq_ok hcell _) ?_
  rw [if_pos hmissing]
  have hstored := SameOutside.replace fourth arena.next
    (some (.tsfilter ⟨mx, my, nx, ny, identityCal⟩))
  have hle₁ := hgrows₁.next_le
  have hle₂ := hgrows₂.next_le
  have hle₃ := hgrows₃.next_le
  -- Each component outlives the ones freed before it.
  have hmx := ((hmx.grows ((hgrows₂.trans hgrows₃).trans hgrows₄) le_rfl).sameOutside hstored
    (by omega))
  have hmy := ((hmy.grows (hgrows₃.trans hgrows₄) le_rfl).sameOutside hstored (by omega))
  have hnx := ((hnx.grows hgrows₄ le_rfl).sameOutside hstored (by omega))
  have hny := hny.sameOutside hstored (by omega)
  apply freeComponents hle₁ hle₂ hle₃ hgrows₄.next_le hmx hmy hnx hny
  intro freed hfreed
  apply returns_pure
  have hbefore := (Grows.push arena (.tsfilter leftover)).trans hgrows
  refine ⟨rfl, hfreed.grows (hstored.grows hbefore le_rfl) (by omega),
    ⟨mx, my, nx, ny, identityCal⟩, ?_, hmissing⟩
  calc
    freed.heap.cell arena.next = _ := hfreed.cell _ (by omega)
    _ = some (.tsfilter ⟨mx, my, nx, ny, identityCal⟩) := by simp [hcell]

theorem MedianAt.grows {before after : Arena Object} {filter : MedianFilter}
    (h : MedianAt before.heap ptr filter) (hgrows : Grows before after)
    (hlast : ptr + 3 ≤ before.next) : MedianAt after.heap ptr filter :=
  h.congr fun address _ hupper ↦ hgrows.cell address (by omega)

theorem MeanAt.grows {before after : Arena Object} {filter : MeanFilter}
    (h : MeanAt before.heap ptr filter) (hgrows : Grows before after)
    (hlast : ptr + 2 ≤ before.next) : MeanAt after.heap ptr filter :=
  h.congr fun address _ hupper ↦ hgrows.cell address (by omega)

theorem MedianAt.sameOutside {before after : Arena Object} {filter : MedianFilter}
    (h : MedianAt before.heap ptr filter) (hsame : SameOutside first last before after)
    (hapart : ptr + 3 ≤ first ∨ last ≤ ptr) : MedianAt after.heap ptr filter :=
  h.congr fun address _ _ ↦ hsame.cell address (by omega)

theorem MeanAt.sameOutside {before after : Arena Object} {filter : MeanFilter}
    (h : MeanAt before.heap ptr filter) (hsame : SameOutside first last before after)
    (hapart : ptr + 2 ≤ first ∨ last ≤ ptr) : MeanAt after.heap ptr filter :=
  h.congr fun address _ _ ↦ hsame.cell address (by omega)

theorem tsfilterAlloc_granted {ml nl : ℤ} (hml : 0 < ml) (hnl : 0 < nl) (left : FilterLeftovers) :
    Returns (tsfilterAlloc ml nl left.answers) arena fun ptr after ↦
      ptr = arena.next ∧ Grows arena after ∧ after.next = arena.next + 11 ∧
        FilterAt after.heap arena.next (Filter.tsfilterAlloc ml nl left.arrays) := by
  unfold tsfilterAlloc
  rw [if_neg (by omega)]
  apply returns_step rfl
  rw [if_neg Arena.next_ne_zero]
  set pushed := arena.push (.tsfilter left.filter)
  have hpushed : pushed.heap.cell arena.next = some (.tsfilter left.filter) := by simp [pushed]
  have hnext : pushed.next = arena.next + 1 := rfl
  apply (medianAlloc_granted hml left.mx left.arrays.mxBuffer left.arrays.mxIndex).bind
  rintro _ first ⟨rfl, hgrows₁, hnext₁, hmx⟩
  apply (medianAlloc_granted hml left.my left.arrays.myBuffer left.arrays.myIndex).bind
  rintro _ second ⟨rfl, hgrows₂, hnext₂, hmy⟩
  apply (meanAlloc_granted hnl left.nx left.arrays.nxBuffer).bind
  rintro _ third ⟨rfl, hgrows₃, hnext₃, hnx⟩
  apply (meanAlloc_granted hnl left.ny left.arrays.nyBuffer).bind
  rintro _ fourth ⟨rfl, hgrows₄, hnext₄, hny⟩
  have hgrows := (hgrows₁.trans hgrows₂).trans (hgrows₃.trans hgrows₄)
  have hcell : fourth.heap.cell arena.next = some (.tsfilter left.filter) :=
    (hgrows.cell arena.next (by omega)).trans hpushed
  refine returns_step (store_eq_ok hcell _) ?_
  rw [if_neg (by simp)]
  apply returns_pure
  have hfirst : first.next = arena.next + 4 := by omega
  have hsecond : second.next = arena.next + 7 := by omega
  have hthird : third.next = arena.next + 9 := by omega
  have hfourth : fourth.next = arena.next + 11 := by omega
  rw [hnext] at hmx
  rw [hfirst] at hmy
  rw [hsecond] at hnx
  rw [hthird] at hny
  rw [hnext, hfirst, hsecond, hthird]
  have hstored := SameOutside.replace fourth arena.next
    (some (.tsfilter ⟨arena.next + 1, arena.next + 4, arena.next + 7, arena.next + 9,
      identityCal⟩))
  refine ⟨rfl, hstored.grows ((Grows.push arena _).trans hgrows) le_rfl, hfourth, ?_, ?_, ?_, ?_,
    ?_⟩
  · simp [hcell, Filter.tsfilterAlloc, identityCal]
  · exact (hmx.grows ((hgrows₂.trans hgrows₃).trans hgrows₄) (by omega)).sameOutside hstored
      (by omega)
  · exact (hmy.grows (hgrows₃.trans hgrows₄) (by omega)).sameOutside hstored (by omega)
  · exact (hnx.grows hgrows₄ (by omega)).sameOutside hstored (by omega)
  · exact hny.sameOutside hstored (by omega)

/-- What `tsfilter_alloc` returns, by the answers of the allocator. -/
inductive FilterOutcome (ml nl : ℤ) (answers : FilterAnswers) (first : ℕ) (after : Arena Object) :
    ℕ → Prop
  | null : answers.filter = none → FilterOutcome ml nl answers first after 0
  | broken : answers.filter.isSome → ¬ answers.Components → Broken after.heap first →
      FilterOutcome ml nl answers first after first
  | whole (arrays : StaleArrays) : answers.filter.isSome → answers.Components →
      after.next = first + 11 →
      FilterAt after.heap first (Filter.tsfilterAlloc ml nl arrays) →
        FilterOutcome ml nl answers first after first

theorem exists_leftovers {answers : FilterAnswers} (hfilter : answers.filter.isSome)
    (hcomponents : answers.Components) : ∃ left : FilterLeftovers, answers = left.answers := by
  rcases answers with ⟨granted, mxAnswers, myAnswers, nxAnswers, nyAnswers⟩
  obtain ⟨hmx, hmy, hnx, hny⟩ := hcomponents
  obtain ⟨filter, hgranted⟩ := Option.isSome_iff_exists.mp hfilter
  obtain ⟨mx, mxBuffer, mxIndex, hmx⟩ := hmx.exists
  obtain ⟨my, myBuffer, myIndex, hmy⟩ := hmy.exists
  obtain ⟨nx, nxBuffer, hnx⟩ := hnx.exists
  obtain ⟨ny, nyBuffer, hny⟩ := hny.exists
  refine ⟨⟨filter, mx, my, nx, ny, mxBuffer, mxIndex, myBuffer, myIndex, nxBuffer, nyBuffer⟩, ?_⟩
  simp only at hgranted hmx hmy hnx hny
  rw [hgranted, hmx, hmy, hnx, hny]
  rfl

theorem tsfilterAlloc_returns {ml nl : ℤ} (hml : 0 < ml) (hnl : 0 < nl)
    (answers : FilterAnswers) :
    Returns (tsfilterAlloc ml nl answers) arena fun ptr after ↦
      Grows arena after ∧ FilterOutcome ml nl answers arena.next after ptr := by
  rcases hfilter : answers.filter with _ | leftover
  · unfold tsfilterAlloc
    rw [if_neg (by omega), hfilter]
    exact returns_step rfl (returns_pure ⟨.refl arena, .null hfilter⟩)
  have hsome : answers.filter.isSome := by rw [hfilter]; rfl
  by_cases hcomponents : answers.Components
  · obtain ⟨left, hanswers⟩ := exists_leftovers hsome hcomponents
    rw [hanswers]
    apply (tsfilterAlloc_granted hml hnl left).mono
    rintro _ after ⟨rfl, hgrows, hnext, hat⟩
    exact ⟨hgrows, .whole left.arrays (hanswers ▸ hsome) (hanswers ▸ hcomponents) hnext hat⟩
  · apply (tsfilterAlloc_broken hml hnl hfilter hcomponents).mono
    rintro _ after ⟨rfl, hgrows, hbroken⟩
    exact ⟨hgrows, .broken hsome hcomponents hbroken⟩

theorem tsfilterSetcal_returns (cal : Fin 7 → ℤ)
    (h : ptr = 0 ∨ ∃ block, arena.heap.cell ptr = some (.tsfilter block)) :
    Returns (tsfilterSetcal ptr cal) arena fun _ after ↦ SameOutside ptr (ptr + 1) arena after ∧
      ∀ block, arena.heap.cell ptr = some (.tsfilter block) →
        after.heap.cell ptr = some (.tsfilter { block with cal }) := by
  unfold tsfilterSetcal
  by_cases hptr : ptr = 0
  · rw [if_neg (not_not.mpr hptr)]
    refine returns_pure ⟨⟨rfl, fun _ _ ↦ rfl⟩, fun block hblock ↦ ?_⟩
    exact absurd hptr (Arena.ne_zero_of_cell hblock)
  · obtain ⟨block, hblock⟩ := h.resolve_left hptr
    rw [if_pos hptr]
    refine ⟨(), _, modifyAs_eq_ok block _ hblock rfl, SameOutside.replace .., fun other hother ↦ ?_⟩
    obtain rfl : block = other := by
      rw [hblock] at hother
      cases hother
      rfl
    simp [hblock]

end K210Firmware.Touch.Blocks
