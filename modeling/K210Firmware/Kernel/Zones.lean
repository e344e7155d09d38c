import K210Firmware.Kernel.Slab
import Mathlib.Tactic.Linarith
import Mathlib.Tactic.IntervalCases

/-!
# Zones and their chunks

What holds between sections for one zone of `slab.c`, given the pointers that threads hold: a chunk
that has been handed out once is either held by exactly one thread or on the list of freed chunks,
and `z_nfree` counts the rest. The header keeps the layout of the zone, which follows from the
request that the zone was made for.
-/

namespace K210Firmware.Kernel.Slab

open Memory Extent Pages

section Rounding

theorem rtAlign_spec {size align : ℕ} (hpos : 0 < align) (h : size + align ≤ 2 ^ 64) :
    size ≤ rtAlign size align ∧ rtAlign size align < size + align ∧
      align ∣ rtAlign size align := by
  rw [rtAlign, Nat.mod_eq_of_lt (by omega)]
  have hdiv := Nat.div_add_mod (size + (align - 1)) align
  have hmod := Nat.mod_lt (size + (align - 1)) hpos
  rw [Nat.mul_comm] at hdiv
  exact ⟨by omega, by omega, Nat.dvd_mul_left ..⟩

/-- The chunk size of a zone index. -/
def chunkSize (zi : ℤ) : ℕ :=
  if zi < 16 then (zi.toNat + 1) * 8
  else if zi < 24 then (zi.toNat - 7) * 16
  else if zi < 32 then (zi.toNat - 15) * 32
  else if zi < 40 then (zi.toNat - 23) * 64
  else if zi < 48 then (zi.toNat - 31) * 128
  else if zi < 56 then (zi.toNat - 39) * 256
  else if zi < 64 then (zi.toNat - 47) * 512
  else (zi.toNat - 55) * 1024

/-- What a size class with chunks of `8 * unit` bytes guarantees. -/
structure Rounded (bytes : ℕ) (zi : ℤ) (size : ℕ) : Prop where
  index_nonneg : 0 ≤ zi
  index_lt : zi < nzones
  le : bytes ≤ size
  waste : size ≤ bytes + 7 + bytes / 8
  aligned : 8 ∣ size
  size_eq : size = chunkSize zi
  small : bytes < 8192 → size ≤ 8192
  le_limit : size ≤ 16384

theorem rounded_of_class {bytes align size : ℕ} {zi : ℤ} (shift : ℤ)
    (hsize : bytes ≤ size ∧ size < bytes + align ∧ align ∣ size) (hzi : zi = size / align + shift)
    (hclass : align = 8 ∧ shift = -1 ∧ 0 < bytes ∧ bytes < 128 ∨
      align = 16 ∧ shift = 7 ∧ 128 ≤ bytes ∧ bytes < 256 ∨
      align = 32 ∧ shift = 15 ∧ 256 ≤ bytes ∧ bytes < 512 ∨
      align = 64 ∧ shift = 23 ∧ 512 ≤ bytes ∧ bytes < 1024 ∨
      align = 128 ∧ shift = 31 ∧ 1024 ≤ bytes ∧ bytes < 2048 ∨
      align = 256 ∧ shift = 39 ∧ 2048 ≤ bytes ∧ bytes < 4096 ∨
      align = 512 ∧ shift = 47 ∧ 4096 ≤ bytes ∧ bytes < 8192 ∨
      align = 1024 ∧ shift = 55 ∧ 8192 ≤ bytes ∧ bytes < 16384) :
    Rounded bytes zi size := by
  have hindex : zi < nzones := by
    unfold nzones
    rcases hclass with h | h | h | h | h | h | h | h <;> obtain ⟨rfl, rfl, _, _⟩ := h <;> omega
  have hchunk : size = chunkSize zi := by
    unfold chunkSize
    rcases hclass with h | h | h | h | h | h | h | h <;> obtain ⟨rfl, rfl, _, _⟩ := h <;>
      split_ifs <;> omega
  rcases hclass with h | h | h | h | h | h | h | h <;> obtain ⟨rfl, rfl, _, _⟩ := h <;>
    exact ⟨by omega, hindex, by omega, by omega, by omega, hchunk, by omega, by omega⟩

/-- A request below 16 KiB is rounded up to a multiple of eight by at most an eighth or seven bytes,
and its index determines the chunk size. -/
theorem zoneindex_rounded {bytes : ℕ} (hpos : 0 < bytes) (hlt : bytes < 16384) :
    Rounded bytes (zoneindex bytes).1 (zoneindex bytes).2 := by
  have hround (align : ℕ) (halign : 0 < align) (hle : align ≤ 1024) :=
    @rtAlign_spec bytes align halign (by omega)
  unfold zoneindex
  split_ifs
  · exact rounded_of_class (-1) (hround 8 (by omega) (by omega)) rfl
      (.inl ⟨rfl, rfl, by omega, by omega⟩)
  · exact rounded_of_class 7 (hround 16 (by omega) (by omega)) rfl
      (.inr (.inl ⟨rfl, rfl, by omega, by omega⟩))
  · exact rounded_of_class 15 (hround 32 (by omega) (by omega)) rfl
      (.inr (.inr (.inl ⟨rfl, rfl, by omega, by omega⟩)))
  · exact rounded_of_class 23 (hround 64 (by omega) (by omega)) rfl
      (.inr (.inr (.inr (.inl ⟨rfl, rfl, by omega, by omega⟩))))
  · exact rounded_of_class 31 (hround 128 (by omega) (by omega)) rfl
      (.inr (.inr (.inr (.inr (.inl ⟨rfl, rfl, by omega, by omega⟩)))))
  · exact rounded_of_class 39 (hround 256 (by omega) (by omega)) rfl
      (.inr (.inr (.inr (.inr (.inr (.inl ⟨rfl, rfl, by omega, by omega⟩))))))
  · exact rounded_of_class 47 (hround 512 (by omega) (by omega)) rfl
      (.inr (.inr (.inr (.inr (.inr (.inr (.inl ⟨rfl, rfl, by omega, by omega⟩)))))))
  · exact rounded_of_class 55 (hround 1024 (by omega) (by omega)) rfl
      (.inr (.inr (.inr (.inr (.inr (.inr (.inr (⟨rfl, rfl, by omega, by omega⟩))))))))

theorem rounded_of_zoneindex {bytes size : ℕ} {zi : ℤ} (hpos : 0 < bytes) (hlt : bytes < 16384)
    (hindex : zoneindex bytes = (zi, size)) : Rounded bytes zi size := by
  have hrounded := zoneindex_rounded hpos hlt
  rwa [hindex] at hrounded

/-- Requests of one index are served with chunks of one size. -/
theorem zoneindex_congr {bytes other : ℕ} (hpos : 0 < bytes) (hlt : bytes < 16384)
    (hpos' : 0 < other) (hlt' : other < 16384) (h : (zoneindex bytes).1 = (zoneindex other).1) :
    (zoneindex bytes).2 = (zoneindex other).2 := by
  rw [(zoneindex_rounded hpos hlt).size_eq, (zoneindex_rounded hpos' hlt').size_eq, h]

end Rounding

/-- The sizes fixed by `rt_system_heap_init`. -/
structure Layout (heapStart heapEnd zoneSize zoneLimit zonePageCnt : ℕ) (entries chains : ℤ) :
    Prop where
  start_pos : 0 < heapStart
  start_lt : heapStart < heapEnd
  start_aligned : heapStart % 4096 = 0
  end_aligned : heapEnd % 4096 = 0
  size_lt : heapEnd - heapStart < 2 ^ 32
  limit_cases : zoneLimit = 8192 ∨ zoneLimit = 16384
  zone_room : 4 * zoneLimit ≤ zoneSize
  zone_pages : zonePageCnt * 4096 = zoneSize
  entries_eq : entries = ((heapEnd - heapStart) / 4096 : ℕ)
  chains_eq : chains = nzones

/-- The header of a zone at page `z`, as it stays while the zone serves one size. -/
structure Header (zoneSize zoneLimit z : ℕ) (zone : SlabZone) : Prop where
  request : ∃ bytes, 0 < bytes ∧ bytes < zoneLimit ∧
    zoneindex bytes = (zone.zZoneindex, zone.zChunksize)
  baseptr : zone.zBaseptr = rtMmPageSize * z + chunkOffset zone.zChunksize
  nmax : zone.zNmax = (zoneSize - chunkOffset zone.zChunksize) / zone.zChunksize

section Header

variable {zoneSize zoneLimit z : ℕ} {zone : SlabZone}

theorem chunkOffset_spec {size : ℕ} (hpos : 0 < size) (hle : size ≤ 16384) (hdvd : 8 ∣ size) :
    sizeofSlabZone ≤ chunkOffset size ∧ chunkOffset size < sizeofSlabZone + size ∧
      8 ∣ chunkOffset size := by
  have hsize : 8 ≤ size := Nat.le_of_dvd hpos hdvd
  have hpower := @rtAlign_spec sizeofSlabZone size hpos (by unfold sizeofSlabZone; omega)
  unfold chunkOffset
  split_ifs
  · exact ⟨hpower.1, hpower.2.1, hdvd.trans hpower.2.2⟩
  · refine ⟨by decide, ?_, by decide⟩
    have hround : rtAlign sizeofSlabZone minChunkSize = sizeofSlabZone := by decide
    omega

/-- What the sizes of a heap guarantee about its zones. -/
structure Fits (zoneSize zoneLimit : ℕ) : Prop where
  cases : zoneLimit = 8192 ∨ zoneLimit = 16384
  room : 4 * zoneLimit ≤ zoneSize

theorem Fits.limit_le (h : Fits zoneSize zoneLimit) : zoneLimit ≤ 16384 := by
  rcases h.cases with h | h <;> omega

theorem rounded_le_limit (h : Fits zoneSize zoneLimit) {bytes : ℕ} (hpos : 0 < bytes)
    (hlt : bytes < zoneLimit) : (zoneindex bytes).2 ≤ zoneLimit := by
  have hrounded := zoneindex_rounded hpos (hlt.trans_le h.limit_le)
  have hsmall := hrounded.small
  have hle := hrounded.le_limit
  rcases h.cases with h | h <;> omega

theorem Header.chunksize (h : Header zoneSize zoneLimit z zone) (hfits : Fits zoneSize zoneLimit) :
    8 ≤ zone.zChunksize ∧ zone.zChunksize ≤ zoneLimit ∧ 8 ∣ zone.zChunksize ∧
      0 ≤ zone.zZoneindex ∧ zone.zZoneindex < nzones := by
  obtain ⟨bytes, hpos, hlt, hrequest⟩ := h.request
  have hrounded := zoneindex_rounded hpos (hlt.trans_le hfits.limit_le)
  have hle := rounded_le_limit hfits hpos hlt
  rw [hrequest] at hrounded hle
  have hsize : 0 < zone.zChunksize := hpos.trans_le hrounded.le
  exact ⟨Nat.le_of_dvd hsize hrounded.aligned, hle, hrounded.aligned, hrounded.index_nonneg,
    hrounded.index_lt⟩

/-- A zone has room for at least two chunks, so a fresh zone still has a free one. -/
theorem Header.two_le_nmax (h : Header zoneSize zoneLimit z zone)
    (hfits : Fits zoneSize zoneLimit) : 2 ≤ zone.zNmax := by
  obtain ⟨hpos, hle, hdvd, _⟩ := h.chunksize hfits
  obtain ⟨_, hoffset, _⟩ :=
    chunkOffset_spec (Nat.lt_of_lt_of_le (by decide) hpos) (hle.trans hfits.limit_le) hdvd
  rw [h.nmax, Nat.le_div_iff_mul_le (Nat.lt_of_lt_of_le (by decide) hpos)]
  have hroom := hfits.room
  have hlimit := hfits.cases
  unfold sizeofSlabZone at hoffset
  omega

/-- The chunks lie behind the header, inside the zone. -/
theorem Header.chunk_within (h : Header zoneSize zoneLimit z zone)
    (hfits : Fits zoneSize zoneLimit) {index : ℕ} (hindex : index < zone.zNmax) :
    rtMmPageSize * z + sizeofSlabZone ≤ zone.zBaseptr + index * zone.zChunksize ∧
      zone.zBaseptr + index * zone.zChunksize + zone.zChunksize ≤ rtMmPageSize * z + zoneSize ∧
      8 ∣ zone.zBaseptr + index * zone.zChunksize := by
  obtain ⟨hpos, hle, hdvd, _⟩ := h.chunksize hfits
  obtain ⟨hheader, hoffset, haligned⟩ :=
    chunkOffset_spec (Nat.lt_of_lt_of_le (by decide) hpos) (hle.trans hfits.limit_le) hdvd
  have hroom := hfits.room
  have hlimit := hfits.cases
  have hcells : (index + 1) * zone.zChunksize ≤ zoneSize - chunkOffset zone.zChunksize := by
    refine (Nat.mul_le_mul_right _ hindex).trans ?_
    rw [h.nmax]
    exact Nat.div_mul_le_self _ _
  rw [Nat.succ_mul] at hcells
  rw [h.baseptr]
  refine ⟨by omega, ?_, ?_⟩
  · unfold sizeofSlabZone at hoffset
    omega
  · refine Nat.dvd_add (Nat.dvd_add ?_ haligned) (hdvd.mul_left index)
    exact Nat.dvd_mul_right_of_dvd (by decide) z

theorem newZone_header {bytes size : ℕ} {zi : ℤ}
    (hpos : 0 < bytes) (hlt : bytes < zoneLimit) (hindex : zoneindex bytes = (zi, size)) :
    Header zoneSize zoneLimit z (newZone zoneSize z size zi) :=
  ⟨⟨bytes, hpos, hlt, hindex⟩, rfl, rfl⟩

end Header

/-! ## The chunks of a zone -/

/-- A chunk of the zone that has been handed out at least once. -/
def SlabZone.Chunk (zone : SlabZone) (ptr : ℕ) : Prop :=
  ∃ index ≤ zone.zUindex, ptr = zone.zBaseptr + index * zone.zChunksize

/-- The pointer lies in the extent of pages. -/
def InRun (run : Extent) (ptr : ℕ) : Prop := run.Holds (ptr / rtMmPageSize)

instance (run : Extent) (ptr : ℕ) : Decidable (InRun run ptr) :=
  inferInstanceAs (Decidable (run.Holds _))

/-- The books of a zone that occupies `run`: every chunk handed out before is held once or free
once, and what is held inside the zone is a chunk that was asked for with its size. -/
structure Chunks (zone : SlabZone) (run : Extent) (held : List Held) : Prop where
  uindex_lt : zone.zUindex < zone.zNmax
  nfree : zone.zNfree + zone.zUindex + 1 = zone.zNmax + zone.zFreechunk.length
  freechunk : ∀ ptr ∈ zone.zFreechunk, zone.Chunk ptr
  own : ∀ block ∈ held, InRun run block.ptr →
    zone.Chunk block.ptr ∧ zone.zChunksize = (zoneindex block.nbytes).2
  once : ∀ ptr, zone.Chunk ptr → (held.map Held.ptr).count ptr + zone.zFreechunk.count ptr = 1
  users : zone.zFreechunk.length + held.countP (fun block ↦ decide (InRun run block.ptr)) =
    zone.zUindex + 1

namespace Chunks

variable {zone : SlabZone} {run : Extent} {held rest : List Held} {block : Held}

theorem perm (h : Chunks zone run held) (hperm : held.Perm rest) : Chunks zone run rest where
  uindex_lt := h.uindex_lt
  nfree := h.nfree
  freechunk := h.freechunk
  own block hblock := h.own block (hperm.mem_iff.mpr hblock)
  once ptr hchunk := (hperm.map Held.ptr).count_eq ptr ▸ h.once ptr hchunk
  users := hperm.countP_eq _ ▸ h.users

/-- A block in another extent does not concern the zone. -/
theorem cons_iff (houtside : ¬ InRun run block.ptr)
    (hchunks : ∀ ptr, zone.Chunk ptr → InRun run ptr) :
    Chunks zone run (block :: held) ↔ Chunks zone run held := by
  have hcount (ptr : ℕ) (hptr : zone.Chunk ptr) :
      ((block :: held).map Held.ptr).count ptr = (held.map Held.ptr).count ptr := by
    refine List.count_cons_of_ne ?_
    rintro rfl
    exact houtside (hchunks _ hptr)
  have husers : (block :: held).countP (fun block ↦ decide (InRun run block.ptr)) =
      held.countP (fun block ↦ decide (InRun run block.ptr)) :=
    List.countP_cons_of_neg (by simpa using houtside)
  constructor
  · intro h
    refine ⟨h.uindex_lt, h.nfree, h.freechunk, fun other hother ↦ ?_, fun ptr hptr ↦ ?_, ?_⟩
    · exact h.own other (List.mem_cons_of_mem _ hother)
    · rw [← hcount ptr hptr]
      exact h.once ptr hptr
    · rw [← husers]
      exact h.users
  · intro h
    refine ⟨h.uindex_lt, h.nfree, h.freechunk, fun other hother hin ↦ ?_, fun ptr hptr ↦ ?_, ?_⟩
    · rcases List.mem_cons.mp hother with rfl | hother
      · exact absurd hin houtside
      · exact h.own other hother hin
    · rw [hcount ptr hptr]
      exact h.once ptr hptr
    · rw [husers]
      exact h.users

theorem nfree_le (h : Chunks zone run held) : zone.zNfree ≤ zone.zNmax := by
  have husers := h.users
  have hnfree := h.nfree
  omega

/-- A thread that holds a chunk keeps the zone from being entirely free. -/
theorem nfree_lt (h : Chunks zone run held) (hblock : block ∈ held) (hin : InRun run block.ptr) :
    zone.zNfree < zone.zNmax := by
  have hpos : 0 < held.countP (fun block ↦ decide (InRun run block.ptr)) :=
    List.countP_pos_iff.mpr ⟨block, hblock, decide_eq_true hin⟩
  have husers := h.users
  have hnfree := h.nfree
  omega

/-- A zone is entirely free if and only if no thread holds a block in it. -/
theorem nfree_eq_iff (h : Chunks zone run held) :
    zone.zNfree = zone.zNmax ↔ ∀ block ∈ held, ¬ InRun run block.ptr := by
  constructor
  · intro hfree block hblock hin
    exact (h.nfree_lt hblock hin).ne hfree
  · intro hnone
    have hzero : held.countP (fun block ↦ decide (InRun run block.ptr)) = 0 :=
      List.countP_eq_zero.mpr fun block hblock ↦ by simpa using hnone block hblock
    have husers := h.users
    have hnfree := h.nfree
    omega

/-- Handing out the next never-used chunk. -/
theorem takeFresh (h : Chunks zone run held) (hsize : 0 < zone.zChunksize)
    (hfresh : zone.zUindex + 1 < zone.zNmax) (hfree : 0 < zone.zNfree)
    (hptr : block.ptr = zone.zBaseptr + (zone.zUindex + 1) * zone.zChunksize)
    (hnbytes : zone.zChunksize = (zoneindex block.nbytes).2) (hin : InRun run block.ptr) :
    Chunks { zone with zNfree := zone.zNfree - 1, zUindex := zone.zUindex + 1 } run
      (block :: held) := by
  have hnew : ¬ zone.Chunk block.ptr := by
    rintro ⟨index, hindex, heq⟩
    have hlt : index * zone.zChunksize < (zone.zUindex + 1) * zone.zChunksize :=
      Nat.mul_lt_mul_of_pos_right (Nat.lt_succ_of_le hindex) hsize
    omega
  have hchunk {ptr : ℕ} (hptr : zone.Chunk ptr) : SlabZone.Chunk
      { zone with zNfree := zone.zNfree - 1, zUindex := zone.zUindex + 1 } ptr := by
    obtain ⟨index, hindex, heq⟩ := hptr
    exact ⟨index, Nat.le_succ_of_le hindex, heq⟩
  refine ⟨hfresh, ?_, fun ptr hptr ↦ hchunk (h.freechunk ptr hptr), fun other hother hin' ↦ ?_,
    fun ptr hchunk' ↦ ?_, ?_⟩
  · have hnfree := h.nfree
    simp only
    omega
  · rcases List.mem_cons.mp hother with rfl | hother
    · exact ⟨⟨zone.zUindex + 1, Nat.le_refl _, hptr⟩, hnbytes⟩
    · obtain ⟨hold, hsame⟩ := h.own other hother hin'
      exact ⟨hchunk hold, hsame⟩
  · obtain ⟨index, hindex, heq⟩ := hchunk'
    rw [List.map_cons]
    rcases Nat.lt_or_ge zone.zUindex index with hlast | hle
    · obtain rfl : index = zone.zUindex + 1 := Nat.le_antisymm hindex hlast
      obtain rfl : ptr = block.ptr := heq.trans hptr.symm
      have hheld : (held.map Held.ptr).count block.ptr = 0 := by
        refine List.count_eq_zero.mpr fun hmem ↦ ?_
        obtain ⟨other, hother, hsame⟩ := List.mem_map.mp hmem
        exact hnew (hsame ▸ (h.own other hother (hsame ▸ hin)).1)
      have hfreed : zone.zFreechunk.count block.ptr = 0 :=
        List.count_eq_zero.mpr fun hmem ↦ hnew (h.freechunk _ hmem)
      rw [List.count_cons_self, hheld, hfreed]
    · have hold : zone.Chunk ptr := ⟨index, hle, heq⟩
      have hne : block.ptr ≠ ptr := by
        rintro rfl
        exact hnew hold
      rw [List.count_cons_of_ne hne]
      exact h.once ptr hold
  · rw [List.countP_cons_of_pos (by simpa using hin)]
    have husers := h.users
    simp only
    omega

/-- Handing out the first freed chunk. -/
theorem takeFreed {cNext : List ℕ} (h : Chunks zone run held) (hfree : 0 < zone.zNfree)
    (hlist : zone.zFreechunk = block.ptr :: cNext)
    (hnbytes : zone.zChunksize = (zoneindex block.nbytes).2) (hin : InRun run block.ptr) :
    Chunks { zone with zNfree := zone.zNfree - 1, zFreechunk := cNext } run (block :: held) := by
  have hchunk : zone.Chunk block.ptr := h.freechunk block.ptr (hlist ▸ List.mem_cons_self ..)
  have hlength : zone.zFreechunk.length = cNext.length + 1 := by rw [hlist, List.length_cons]
  refine ⟨h.uindex_lt, ?_, fun ptr hptr ↦ ?_, fun other hother hin' ↦ ?_, fun ptr hptr ↦ ?_, ?_⟩
  · have hnfree := h.nfree
    simp only
    omega
  · exact h.freechunk ptr (hlist ▸ List.mem_cons_of_mem _ hptr)
  · rcases List.mem_cons.mp hother with rfl | hother
    · exact ⟨hchunk, hnbytes⟩
    · exact h.own other hother hin'
  · have honce := h.once ptr hptr
    rw [hlist, List.count_cons] at honce
    rw [List.map_cons, List.count_cons]
    simp only
    omega
  · rw [List.countP_cons_of_pos (by simpa using hin)]
    have husers := h.users
    simp only
    omega

/-- Taking a chunk back. -/
theorem give (h : Chunks zone run (block :: held)) (hin : InRun run block.ptr) (magic : ℤ) :
    Chunks { zone with
      zMagic := magic
      zNfree := zone.zNfree + 1
      zFreechunk := block.ptr :: zone.zFreechunk } run held := by
  have hchunk : zone.Chunk block.ptr := (h.own block (List.mem_cons_self ..) hin).1
  refine ⟨h.uindex_lt, ?_, fun ptr hptr ↦ ?_, fun other hother hin' ↦ ?_, fun ptr hptr ↦ ?_, ?_⟩
  · have hnfree := h.nfree
    simp only [List.length_cons]
    omega
  · rcases List.mem_cons.mp hptr with rfl | hptr
    · exact hchunk
    · exact h.freechunk ptr hptr
  · exact h.own other (List.mem_cons_of_mem _ hother) hin'
  · have honce := h.once ptr hptr
    rw [List.map_cons, List.count_cons] at honce
    simp only [List.count_cons]
    omega
  · have husers := h.users
    rw [List.countP_cons_of_pos (by simpa using hin)] at husers
    simp only [List.length_cons]
    omega

/-- A fresh zone, whose first chunk has been handed out. -/
theorem ofNew {zoneSize z size : ℕ} {zi : ℤ} (hnmax : 2 ≤ (newZone zoneSize z size zi).zNmax)
    (hnone : ∀ block ∈ held, ¬ InRun run block.ptr)
    (hptr : block.ptr = (newZone zoneSize z size zi).zBaseptr)
    (hnbytes : size = (zoneindex block.nbytes).2) (hin : InRun run block.ptr) :
    Chunks (newZone zoneSize z size zi) run (block :: held) := by
  set zone := newZone zoneSize z size zi with hzone
  have hchunk (ptr : ℕ) : zone.Chunk ptr ↔ ptr = block.ptr := by
    rw [hptr]
    constructor
    · rintro ⟨index, hindex, heq⟩
      obtain rfl : index = 0 := Nat.le_zero.mp hindex
      rw [heq, Nat.zero_mul, Nat.add_zero]
    · rintro rfl
      exact ⟨0, Nat.le_refl _, by rw [Nat.zero_mul, Nat.add_zero]⟩
  refine ⟨Nat.lt_of_lt_of_le Nat.two_pos hnmax, ?_, nofun, fun other hother hin' ↦ ?_,
    fun ptr hptr ↦ ?_, ?_⟩
  · have hnfree : zone.zNfree = zone.zNmax - 1 := rfl
    have hindex : zone.zUindex = 0 := rfl
    have hlist : zone.zFreechunk.length = 0 := rfl
    omega
  · rcases List.mem_cons.mp hother with rfl | hother
    · exact ⟨(hchunk _).mpr rfl, hnbytes⟩
    · exact absurd hin' (hnone other hother)
  · obtain rfl := (hchunk ptr).mp hptr
    have hheld : (held.map Held.ptr).count block.ptr = 0 := by
      refine List.count_eq_zero.mpr fun hmem ↦ ?_
      obtain ⟨other, hother, hsame⟩ := List.mem_map.mp hmem
      exact hnone other hother (hsame ▸ hin)
    have hfreed : zone.zFreechunk.count block.ptr = 0 := List.count_nil
    rw [List.map_cons, List.count_cons_self, hheld, hfreed]
  · have hzero : held.countP (fun block ↦ decide (InRun run block.ptr)) = 0 :=
      List.countP_eq_zero.mpr fun block hblock ↦ by simpa using hnone block hblock
    rw [List.countP_cons_of_pos (by simpa using hin), hzero]
    rfl

end Chunks

end K210Firmware.Kernel.Slab
