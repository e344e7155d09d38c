import K210Firmware.Kernel.Pages
import K210Firmware.Library.Transition
import Mathlib.Data.List.Perm.Basic

/-!
# The kernel heap

`slab.c` serves small requests from zones, each cut into chunks of one size, and large requests
with whole pages. Every function holds `heap_sem` for a part of its work only: a request for a new
zone and the release of pages unlock the heap in between. A call is therefore a sequence of
sections; what is left to do between two sections is a `Job`, and threads and their jobs
interleave freely.
-/

namespace K210Firmware.Kernel.Slab

open Memory Extent Pages

/-- `RT_ALIGN` on a 64-bit size, for `align` a power of two. -/
def rtAlign (size align : ℕ) : ℕ := (size + (align - 1)) % 2 ^ 64 / align * align

/-- `slab_zone`. The chunks of `z_freechunk` are linked by `c_next`; the zones of one index are
linked by `z_next`, which is kept with `zone_array` and `zone_free`. -/
structure SlabZone where
  zMagic : ℤ
  zNfree : ℕ
  zNmax : ℕ
  zBaseptr : ℕ
  zUindex : ℕ
  zChunksize : ℕ
  zZoneindex : ℤ
  zFreechunk : List ℕ

def zallocSlabMagic : ℤ := 0x51ab51ab
def zallocZoneLimit : ℕ := 16 * 1024
def zallocMinZoneSize : ℕ := 32 * 1024
def zallocMaxZoneSize : ℕ := 128 * 1024
def nzones : ℤ := 72
def zoneReleaseThresh : ℕ := 2
def minChunkSize : ℕ := 8
/-- `sizeof(slab_zone)` on a 64-bit machine. -/
def sizeofSlabZone : ℕ := 56

inductive PageType
  | free
  | small
  | large
  deriving DecidableEq, Repr

/-- `struct memusage`. -/
structure Memusage where
  type : PageType
  size : ℕ
  deriving DecidableEq, Repr

/-- The variables of `slab.c`. Pages and zones are named by their page number; `zone` is the header
at the start of a page. -/
structure SlabHeap where
  heapStart : ℕ
  heapEnd : ℕ
  zoneSize : ℕ
  zoneLimit : ℕ
  zonePageCnt : ℕ
  rtPageList : List RtPageHead
  /-- The first page of the array `memusage`, and its entries. -/
  memusage : ℕ
  usage : Block Memusage
  zone : ℕ → SlabZone
  zoneArray : Block (List ℕ)
  zoneFree : List ℕ
  zoneFreeCnt : ℕ
  usedMem : ℕ
  maxMem : ℕ

/-- The index of a page in the array `memusage`. -/
def SlabHeap.btokup (heap : SlabHeap) (page : ℕ) : ℤ := page - heap.heapStart / rtMmPageSize

/-- `zoneindex`: the index and the rounded size. -/
def zoneindex (bytes : ℕ) : ℤ × ℕ :=
  if bytes < 128 then
    let n := rtAlign bytes 8
    (n / 8 - 1, n)
  else if bytes < 256 then
    let n := rtAlign bytes 16
    (n / 16 + 7, n)
  else if bytes < 8192 then
    if bytes < 512 then
      let n := rtAlign bytes 32
      (n / 32 + 15, n)
    else if bytes < 1024 then
      let n := rtAlign bytes 64
      (n / 64 + 23, n)
    else if bytes < 2048 then
      let n := rtAlign bytes 128
      (n / 128 + 31, n)
    else if bytes < 4096 then
      let n := rtAlign bytes 256
      (n / 256 + 39, n)
    else
      let n := rtAlign bytes 512
      (n / 512 + 47, n)
  else if bytes < 16384 then
    let n := rtAlign bytes 1024
    (n / 1024 + 55, n)
  else (0, bytes)

/-! ## The start -/

/-- The loop that doubles `zone_size`, at most `fuel` times. -/
def growZoneSize (limsize : ℕ) : ℕ → ℕ → ℕ
  | 0, zoneSize => zoneSize
  | fuel + 1, zoneSize =>
      if zoneSize < zallocMaxZoneSize ∧ zoneSize * 2 < limsize / 1024 then
        growZoneSize limsize fuel (zoneSize * 2)
      else zoneSize

/-- The pages of the array `memusage`: its four bytes a page, in whole pages. -/
def usagePages (npages : ℕ) : ℕ := rtAlign (npages * 4) rtMmPageSize / rtMmPageSize

/-- `rt_system_heap_init`, or `none` for addresses that leave no page. What the memory held before,
`cell` and `zone`, is arbitrary. -/
def rtSystemHeapInit (beginAddr endAddr : ℕ) (cell : ℤ → Memusage) (zone : ℕ → SlabZone) :
    Except Fault (Option SlabHeap) :=
  let heapStart := rtAlign beginAddr rtMmPageSize
  let heapEnd := endAddr / rtMmPageSize * rtMmPageSize
  if heapStart ≥ heapEnd then return none
  else do
    let limsize := (heapEnd - heapStart) % 2 ^ 32
    let npages := limsize / rtMmPageSize
    let rtPageList ← rtPageInit heapStart npages
    -- two doublings reach the maximum
    let zoneSize := growZoneSize limsize 2 zallocMinZoneSize
    let zoneLimit :=
      if zoneSize / 4 > zallocZoneLimit then zallocZoneLimit else zoneSize / 4
    let taken := rtPageAlloc (usagePages npages) rtPageList
    return some
      { heapStart, heapEnd, zoneSize, zoneLimit
        zonePageCnt := zoneSize / rtMmPageSize
        rtPageList := taken.2
        memusage := taken.1.getD 0
        usage := ⟨if taken.1 = none then 0 else npages, cell⟩
        zone
        zoneArray := ⟨nzones, fun _ ↦ []⟩
        zoneFree := []
        zoneFreeCnt := 0
        usedMem := 0
        maxMem := 0 }

/-! ## Sections of `rt_malloc` and `rt_free` -/

/-- The work of a call between two sections. -/
inductive Job
  /-- `rt_malloc` has the pages of a large block, and `used_mem` does not count them yet. -/
  | largeTaken (page size : ℕ)
  /-- `rt_malloc` has unlocked the heap to allocate a zone. -/
  | zoneWanted (size : ℕ) (zi : ℤ)
  /-- `rt_malloc` has the pages of a zone. -/
  | zoneTaken (z size : ℕ) (zi : ℤ)
  /-- `rt_free` has yet to give pages back. -/
  | pageFree (addr npages : ℕ)
  deriving DecidableEq, Repr

/-- How a section ends: the call returns a pointer, or goes on. -/
inductive Outcome
  | done (ptr : ℕ)
  | wait (job : Job)
  deriving DecidableEq, Repr

/-- The statistics of an allocation. -/
def SlabHeap.account (heap : SlabHeap) (size : ℕ) : SlabHeap :=
  { heap with
    usedMem := heap.usedMem + size
    maxMem := if heap.usedMem + size > heap.maxMem then heap.usedMem + size else heap.maxMem }

def SlabHeap.setZone (heap : SlabHeap) (z : ℕ) (zone : SlabZone) : SlabHeap :=
  { heap with zone := Function.update heap.zone z zone }

def SlabHeap.setChain (heap : SlabHeap) (zi : ℤ) (chain : List ℕ) : Except Fault SlabHeap := do
  let zoneArray ← heap.zoneArray.write zi chain
  return { heap with zoneArray }

/-- The zone leaves `zone_array` when its last free chunk is taken. -/
def dropExhausted (zi : ℤ) (zNfree : ℕ) (zNext : List ℕ) (heap : SlabHeap) : Except Fault SlabHeap :=
  if zNfree = 0 then heap.setChain zi zNext else return heap

/-- `rt_malloc` from the first zone `z` of its index: never-used space before freed chunks. -/
def takeChunk (zi : ℤ) (size z : ℕ) (zNext : List ℕ) (heap : SlabHeap) :
    Except Fault (ℕ × SlabHeap) := do
  let zone := heap.zone z
  rtAssert (zone.zNfree > 0)
  let heap ← dropExhausted zi (zone.zNfree - 1) zNext heap
  if zone.zUindex + 1 ≠ zone.zNmax then
    return (zone.zBaseptr + (zone.zUindex + 1) * size,
      (heap.setZone z { zone with
        zNfree := zone.zNfree - 1
        zUindex := zone.zUindex + 1 }).account zone.zChunksize)
  else
    match zone.zFreechunk with
    | [] => throw .nullPointer
    | chunk :: cNext =>
        return (chunk,
          (heap.setZone z { zone with
            zNfree := zone.zNfree - 1
            zFreechunk := cNext }).account zone.zChunksize)

/-- The offset of the chunks in a zone. -/
def chunkOffset (size : ℕ) : ℕ :=
  if (size ||| (size - 1)) + 1 = size * 2 then rtAlign sizeofSlabZone size
  else rtAlign sizeofSlabZone minChunkSize

/-- The header of a zone whose first chunk is handed out. -/
def newZone (zoneSize z size : ℕ) (zi : ℤ) : SlabZone where
  zMagic := zallocSlabMagic
  zNfree := (zoneSize - chunkOffset size) / size - 1
  zNmax := (zoneSize - chunkOffset size) / size
  zBaseptr := rtMmPageSize * z + chunkOffset size
  zUindex := 0
  zChunksize := size
  zZoneindex := zi
  zFreechunk := []

/-- `rt_malloc` from a fresh zone. -/
def formatZone (z size : ℕ) (zi : ℤ) (heap : SlabHeap) : Except Fault (ℕ × SlabHeap) := do
  let chain ← heap.zoneArray.read zi
  let heap ← heap.setChain zi (z :: chain)
  let zone := newZone heap.zoneSize z size zi
  return (zone.zBaseptr, (heap.setZone z zone).account size)

/-- The loops that describe the pages of a zone in `memusage`. -/
def setUsage (kup : ℤ) (count : ℕ) (entry : ℕ → Memusage) (usage : Block Memusage) :
    Except Fault (Block Memusage) :=
  (List.range count).foldlM (fun usage (off : ℕ) ↦ usage.write (kup + off) (entry off)) usage

/-- `rt_malloc` up to its first unlock. -/
def rtMalloc (size : ℕ) (heap : SlabHeap) : Except Fault (Outcome × SlabHeap) :=
  if size = 0 then return (.done 0, heap)
  else if size ≥ heap.zoneLimit then
    let size := rtAlign size rtMmPageSize
    match rtPageAlloc (size / rtMmPageSize) heap.rtPageList with
    | (none, rtPageList) => return (.done 0, { heap with rtPageList })
    | (some page, rtPageList) => return (.wait (.largeTaken page size), { heap with rtPageList })
  else do
    let zi := (zoneindex size).1
    let size := (zoneindex size).2
    rtAssert (zi < nzones)
    match ← heap.zoneArray.read zi with
    | z :: zNext => do
        let (chunk, heap) ← takeChunk zi size z zNext heap
        return (.done chunk, heap)
    | [] =>
        match heap.zoneFree with
        | z :: zNext => do
            let (chunk, heap) ← formatZone z size zi
              { heap with zoneFree := zNext, zoneFreeCnt := heap.zoneFreeCnt - 1 }
            return (.done chunk, heap)
        | [] => return (.wait (.zoneWanted size zi), heap)

/-- A zone enters `zone_free`, or leaves it at once when `zone_free` is long enough: the zone that
`rt_free` takes from it then is the one that has just entered. -/
def storeFreeZone (z : ℕ) (heap : SlabHeap) : Except Fault (Option Job × SlabHeap) :=
  if heap.zoneFreeCnt + 1 > zoneReleaseThresh then do
    let usage ← setUsage (heap.btokup z) heap.zonePageCnt (fun _ ↦ ⟨.free, 0⟩) heap.usage
    return (some (.pageFree (rtMmPageSize * z) (heap.zoneSize / rtMmPageSize)), { heap with usage })
  else
    return (none,
      { heap with zoneFree := z :: heap.zoneFree, zoneFreeCnt := heap.zoneFreeCnt + 1 })

/-- The end of `rt_free` for zone `z` with its chain `linked`. -/
def relinkZone (z : ℕ) (zone : SlabZone) (linked : List ℕ) (heap : SlabHeap) :
    Except Fault (Option Job × SlabHeap) :=
  -- z->z_next is null or z is not the head, unless z is the only zone of its chain
  if zone.zNfree = zone.zNmax ∧ linked ≠ [z] then
    if z ∉ linked then throw .nullPointer
    else do
      let heap ← heap.setChain zone.zZoneindex (linked.erase z)
      storeFreeZone z (heap.setZone z { zone with zMagic := -1 })
  else do
    let heap ← heap.setChain zone.zZoneindex linked
    return (none, heap.setZone z zone)

/-- `rt_free` for a chunk of zone `z`. -/
def freeChunk (ptr z : ℕ) (heap : SlabHeap) : Except Fault (Option Job × SlabHeap) := do
  let zone := heap.zone z
  rtAssert (zone.zMagic = zallocSlabMagic)
  let chain ← heap.zoneArray.read zone.zZoneindex
  relinkZone z
    { zone with zNfree := zone.zNfree + 1, zFreechunk := ptr :: zone.zFreechunk }
    (if zone.zNfree = 0 then z :: chain else chain)
    { heap with usedMem := heap.usedMem - zone.zChunksize }

/-- `rt_free` up to the release of pages. -/
def rtFree (ptr : ℕ) (heap : SlabHeap) : Except Fault (Option Job × SlabHeap) :=
  if ptr = 0 then return (none, heap)
  else do
    let kup ← heap.usage.read (heap.btokup (ptr / rtMmPageSize))
    if kup.type = .large then do
      let usage ← heap.usage.write (heap.btokup (ptr / rtMmPageSize)) { kup with size := 0 }
      return (some (.pageFree ptr kup.size),
        { heap with usage, usedMem := heap.usedMem - kup.size * rtMmPageSize })
    else freeChunk ptr (ptr / rtMmPageSize - kup.size) heap

/-- The next section of a call. `size : 30` holds the page count of a large block. -/
def resume (job : Job) (heap : SlabHeap) : Except Fault (Outcome × SlabHeap) :=
  match job with
  | .largeTaken page size => do
      let usage ← heap.usage.write (heap.btokup page) ⟨.large, size / rtMmPageSize % 2 ^ 30⟩
      return (.done (rtMmPageSize * page), ({ heap with usage } : SlabHeap).account size)
  | .zoneWanted size zi =>
      match rtPageAlloc (heap.zoneSize / rtMmPageSize) heap.rtPageList with
      | (none, rtPageList) => return (.done 0, { heap with rtPageList })
      | (some z, rtPageList) => return (.wait (.zoneTaken z size zi), { heap with rtPageList })
  | .zoneTaken z size zi => do
      let usage ← setUsage (heap.btokup z) heap.zonePageCnt (fun off ↦ ⟨.small, off⟩) heap.usage
      let (chunk, heap) ← formatZone z size zi { heap with usage }
      return (.done chunk, heap)
  | .pageFree addr npages => do
      let rtPageList ← rtPageFree addr npages heap.rtPageList
      return (.done 0, { heap with rtPageList })

/-- The total, used and greatest used size that `rt_memory_info` stores. -/
def rtMemoryInfo (heap : SlabHeap) : ℕ × ℕ × ℕ :=
  ((heap.heapEnd - heap.heapStart) % 2 ^ 32, heap.usedMem % 2 ^ 32, heap.maxMem % 2 ^ 32)

def getFreeHeapSize (heap : SlabHeap) : ℕ :=
  let (total, used, _) := rtMemoryInfo heap
  (total + 2 ^ 32 - used) % 2 ^ 32

/-! ## Threads and their calls -/

/-- A block in the hands of a thread: the pointer and the size that was asked for. -/
structure Held where
  ptr : ℕ
  nbytes : ℕ
  deriving DecidableEq, Repr

/-- A call between two sections, with the size it was asked for. -/
structure Call where
  job : Job
  nbytes : ℕ
  deriving DecidableEq, Repr

structure State where
  heap : SlabHeap
  held : List Held
  calls : List Call

inductive Event
  | malloc (size : ℕ)
  | free (block : Held)
  | resume (call : Call)

/-- The end of a section of a call that asked for `nbytes`. -/
def State.settle (state : State) (nbytes : ℕ) (heap : SlabHeap) : Outcome → State
  | .done 0 => { state with heap }
  | .done ptr => { state with heap, held := ⟨ptr, nbytes⟩ :: state.held }
  | .wait job => { state with heap, calls := ⟨job, nbytes⟩ :: state.calls }

/-- Sizes are 64-bit; a thread frees what it holds. -/
def Enabled (state : State) : Event → Prop
  | .malloc size => size < 2 ^ 64
  | .free block => block ∈ state.held
  | .resume call => call ∈ state.calls

instance (state : State) : (event : Event) → Decidable (Enabled state event)
  | .malloc size => inferInstanceAs (Decidable (size < 2 ^ 64))
  | .free block => inferInstanceAs (Decidable (block ∈ state.held))
  | .resume call => inferInstanceAs (Decidable (call ∈ state.calls))

def step (state : State) : Event → Except Fault State
  | .malloc size => do
      let (outcome, heap) ← rtMalloc size state.heap
      return state.settle size heap outcome
  | .free block => do
      let (job, heap) ← rtFree block.ptr state.heap
      let state := { state with heap, held := state.held.erase block }
      return { state with calls := (job.map (Call.mk · 0)).toList ++ state.calls }
  | .resume call => do
      let (outcome, heap) ← resume call.job state.heap
      let state := { state with heap, calls := state.calls.erase call }
      return state.settle call.nbytes heap outcome

/-- Any number of threads calling `rt_malloc` and `rt_free` in any order of their sections. -/
def system : Transition.System State Event Fault := ⟨Enabled, step⟩

instance (state : State) (event : Event) : Decidable (system.enabled state event) :=
  inferInstanceAs (Decidable (Enabled state event))

end K210Firmware.Kernel.Slab
