import K210Firmware.Library.Heap

/-!
# Programs that allocate

An arena numbers the blocks it hands out and never reuses a number, so that a freed block can be
told from one allocated later at the same place. Programs over an arena fault where they use a
block that is not live. `Returns` says that a program comes to an end, and how; its rules follow
the program text.
-/

namespace K210Firmware.Memory

/-- A heap and the number of the next block. -/
structure Arena (Object : Type) where
  heap : Heap Object
  next : ℕ
  next_pos : 0 < next
  null : heap.cell 0 = none
  fresh : ∀ address : ℕ, next ≤ address → heap.cell address = none

namespace Arena

variable {Object : Type} (arena : Arena Object)

/-- No block has been allocated yet. -/
def start : Arena Object := ⟨Heap.empty, 1, Nat.one_pos, rfl, fun _ _ ↦ rfl⟩

/-- The block `arena.next` is live from now on. -/
def push (object : Object) : Arena Object where
  heap := arena.heap.set arena.next (some object)
  next := arena.next + 1
  next_pos := Nat.succ_pos arena.next
  null := (Heap.cell_set_of_ne (Nat.ne_of_lt arena.next_pos) _).trans arena.null
  fresh address h := (Heap.cell_set_of_ne (Nat.ne_of_gt h) _).trans
    (arena.fresh address (Nat.le_of_succ_le h))

/-- A live block gets new contents, or none when it is freed. -/
def replace (address : Address) (object : Option Object) : Arena Object where
  heap := arena.heap.set address ((arena.heap.cell address).bind fun _ ↦ object)
  next := arena.next
  next_pos := arena.next_pos
  null := by
    by_cases h : 0 = address
    · rw [← h, Heap.cell_set_self, arena.null, Option.bind_none]
    · rw [Heap.cell_set_of_ne h, arena.null]
  fresh other hother := by
    by_cases h : other = address
    · rw [h, Heap.cell_set_self, arena.fresh address (h ▸ hother), Option.bind_none]
    · rw [Heap.cell_set_of_ne h, arena.fresh other hother]

variable {arena}

@[simp]
theorem push_next (object : Object) : (arena.push object).next = arena.next + 1 := rfl

@[simp]
theorem replace_next (address : Address) (object : Option Object) :
    (arena.replace address object).next = arena.next := rfl

@[simp]
theorem cell_push (object : Object) (address : Address) :
    (arena.push object).heap.cell address =
      if address = arena.next then some object else arena.heap.cell address :=
  Function.update_apply ..

@[simp]
theorem cell_replace (address : Address) (object : Option Object) (other : Address) :
    (arena.replace address object).heap.cell other =
      if other = address then (arena.heap.cell address).bind fun _ ↦ object
      else arena.heap.cell other :=
  Function.update_apply ..

@[simp]
theorem next_ne_zero : arena.next ≠ 0 := Nat.ne_of_gt arena.next_pos

theorem ne_zero_of_cell {address : Address} {object : Object}
    (h : arena.heap.cell address = some object) : address ≠ 0 := by
  rintro rfl
  rw [arena.null] at h
  cases h

theorem lt_next_of_cell {address : ℕ} {object : Object}
    (h : arena.heap.cell address = some object) : address < arena.next := by
  by_contra hle
  rw [arena.fresh address (Nat.le_of_not_lt hle)] at h
  cases h

end Arena

/-- A program over an arena. -/
abbrev Prog (Object Value : Type) := StateT (Arena Object) (Except Fault) Value

section Operations

variable {Object : Type}

/-- An allocation: a null pointer, or a new block with what the allocator left in it. -/
def malloc : Option Object → Prog Object Address
  | none => fun arena ↦ .ok (0, arena)
  | some leftover => fun arena ↦ .ok (arena.next, arena.push leftover)

/-- A read of a live block that holds the kind of object it is read as. -/
def loadAs {Part : Type} (part : Object → Option Part) (address : Address) : Prog Object Part :=
  fun arena ↦ do
    match part (← arena.heap.load address) with
    | none => .error .wrongObject
    | some value => .ok (value, arena)

def store (address : Address) (object : Object) : Prog Object Unit := fun arena ↦ do
  let _ ← arena.heap.load address
  return ((), arena.replace address (some object))

def free (address : Address) : Prog Object Unit := fun arena ↦ do
  let _ ← arena.heap.load address
  return ((), arena.replace address none)

/-- An assignment to some fields of a live block. -/
def modifyAs {Part : Type} (part : Object → Option Part) (whole : Part → Object)
    (address : Address) (change : Part → Part) : Prog Object Unit := do
  let value ← loadAs part address
  store address (whole (change value))

/-- `if (p) free(p)`. -/
def freeIf (address : Address) : Prog Object Unit :=
  if address ≠ 0 then free address else pure ()

/-- A computation that touches no block. -/
def computed {Value : Type} (outcome : Except Fault Value) : Prog Object Value := fun arena ↦ do
  return (← outcome, arena)

end Operations

/-! ## Programs that return -/

section Returns

variable {Object Value Result : Type} {arena : Arena Object} {program : Prog Object Value}
  {next : Value → Prog Object Result} {address : Address} {fault : Fault}

/-- The program ends, with a result and an arena that satisfy the postcondition. -/
def Returns (program : Prog Object Value) (arena : Arena Object)
    (post : Value → Arena Object → Prop) : Prop :=
  ∃ value after, program arena = .ok (value, after) ∧ post value after

/-- The program runs into undefined behaviour. -/
def Faults (program : Prog Object Value) (arena : Arena Object) (fault : Fault) : Prop :=
  program arena = .error fault

theorem Returns.mono {post weaker : Value → Arena Object → Prop}
    (h : Returns program arena post) (hweaker : ∀ value after, post value after →
      weaker value after) : Returns program arena weaker := by
  obtain ⟨value, after, hrun, hpost⟩ := h
  exact ⟨value, after, hrun, hweaker value after hpost⟩

theorem returns_pure {value : Value} {post : Value → Arena Object → Prop}
    (h : post value arena) : Returns (pure value) arena post :=
  ⟨value, arena, rfl, h⟩

/-- A step whose outcome is known hands over to the next. -/
theorem bind_eq_of_run {value : Value} {after : Arena Object}
    (hrun : program arena = .ok (value, after)) : (program >>= next) arena = next value after := by
  calc
    (program >>= next) arena = (program arena >>= fun pair ↦ next pair.1 pair.2) := rfl
    _ = next value after := by rw [hrun, ok_bind]

/-- **Sequence rule.** -/
theorem Returns.bind {middle : Value → Arena Object → Prop} {post : Result → Arena Object → Prop}
    (hfirst : Returns program arena middle)
    (hnext : ∀ value after, middle value after → Returns (next value) after post) :
    Returns (program >>= next) arena post := by
  obtain ⟨value, after, hrun, hmiddle⟩ := hfirst
  obtain ⟨result, last, hrest, hpost⟩ := hnext value after hmiddle
  exact ⟨result, last, (bind_eq_of_run hrun).trans hrest, hpost⟩

/-- A program that returns may be followed by one that does not. -/
theorem Returns.bind_faults {middle : Value → Arena Object → Prop}
    (hfirst : Returns program arena middle)
    (hnext : ∀ value after, middle value after → Faults (next value) after fault) :
    Faults (program >>= next) arena fault := by
  obtain ⟨value, after, hrun, hmiddle⟩ := hfirst
  exact (bind_eq_of_run hrun).trans (hnext value after hmiddle)

theorem Faults.bind (h : Faults program arena fault) (next : Value → Prog Object Result) :
    Faults (program >>= next) arena fault := by
  calc
    (program >>= next) arena = (program arena >>= fun pair ↦ next pair.1 pair.2) := rfl
    _ = .error fault := by rw [show program arena = .error fault from h]; rfl

theorem returns_step {value : Value} {after : Arena Object} {post : Result → Arena Object → Prop}
    (hrun : program arena = .ok (value, after)) (hnext : Returns (next value) after post) :
    Returns (program >>= next) arena post := by
  obtain ⟨result, last, hrest, hpost⟩ := hnext
  exact ⟨result, last, (bind_eq_of_run hrun).trans hrest, hpost⟩

theorem faults_step {value : Value} {after : Arena Object}
    (hrun : program arena = .ok (value, after)) (hnext : Faults (next value) after fault) :
    Faults (program >>= next) arena fault :=
  (bind_eq_of_run hrun).trans hnext

theorem load_of_cell {object : Object} (h : arena.heap.cell address = some object) :
    arena.heap.load address = .ok object :=
  Heap.load_eq_ok (Arena.ne_zero_of_cell h) h

theorem loadAs_eq_ok {Part : Type} {part : Object → Option Part} {object : Object} (value : Part)
    (hcell : arena.heap.cell address = some object) (hpart : part object = some value) :
    loadAs part address arena = .ok (value, arena) := by
  unfold loadAs
  rw [load_of_cell hcell, ok_bind, hpart]

theorem computed_eq_ok {outcome : Except Fault Value} {value : Value} (h : outcome = .ok value)
    (arena : Arena Object) : computed outcome arena = .ok (value, arena) := by
  unfold computed
  rw [h, ok_bind]
  rfl

theorem store_eq_ok {held : Object} (hcell : arena.heap.cell address = some held)
    (object : Object) :
    store address object arena = .ok ((), arena.replace address (some object)) := by
  unfold store
  rw [load_of_cell hcell, ok_bind]
  rfl

theorem free_eq_ok {held : Object} (hcell : arena.heap.cell address = some held) :
    free address arena = .ok ((), arena.replace address none) := by
  unfold free
  rw [load_of_cell hcell, ok_bind]
  rfl

theorem freeIf_eq_ok {held : Object} (hcell : arena.heap.cell address = some held) :
    freeIf address arena = .ok ((), arena.replace address none) := by
  unfold freeIf
  rw [if_pos (Arena.ne_zero_of_cell hcell), free_eq_ok hcell]

theorem freeIf_zero (arena : Arena Object) : freeIf 0 arena = .ok ((), arena) := rfl

theorem modifyAs_eq_ok {Part : Type} {part : Object → Option Part} {whole : Part → Object}
    (value : Part) (change : Part → Part) (hcell : arena.heap.cell address = some (whole value))
    (hpart : part (whole value) = some value) :
    modifyAs part whole address change arena =
      .ok ((), arena.replace address (some (whole (change value)))) := by
  calc
    modifyAs part whole address change arena = store address (whole (change value)) arena :=
      bind_eq_of_run (loadAs_eq_ok value hcell hpart)
    _ = _ := store_eq_ok hcell _

theorem faults_loadAs_null {Part : Type} (part : Object → Option Part) (arena : Arena Object) :
    Faults (loadAs part 0) arena .nullPointer := rfl

theorem Faults.modifyAs {Part : Type} {part : Object → Option Part} (whole : Part → Object)
    (change : Part → Part) (h : Faults (loadAs part address) arena fault) :
    Faults (modifyAs part whole address change) arena fault :=
  Faults.bind h _

/-- A block that is not null and not live has been freed. -/
theorem load_dead (hne : address ≠ 0) (hcell : arena.heap.cell address = none) :
    arena.heap.load address = .error .deadObject := by
  unfold Heap.load
  rw [if_neg hne, hcell]

theorem faults_loadAs_dead {Part : Type} {part : Object → Option Part} (hne : address ≠ 0)
    (hcell : arena.heap.cell address = none) :
    Faults (loadAs part address) arena .deadObject := by
  unfold Faults loadAs
  rw [load_dead hne hcell]
  rfl

end Returns

/-! ## What a program leaves alone -/

section Frames

variable {Object : Type} {before middle after : Arena Object}

/-- Blocks may be added, and nothing below them changes. -/
structure Grows (before after : Arena Object) : Prop where
  next_le : before.next ≤ after.next
  cell : ∀ address : ℕ, address < before.next → after.heap.cell address = before.heap.cell address

/-- Nothing changes outside the blocks from `first` up to `last`. -/
structure SameOutside (first last : ℕ) (before after : Arena Object) : Prop where
  next : after.next = before.next
  cell : ∀ address : ℕ, address < first ∨ last ≤ address →
    after.heap.cell address = before.heap.cell address

theorem Grows.refl (arena : Arena Object) : Grows arena arena :=
  ⟨Nat.le_refl _, fun _ _ ↦ rfl⟩

theorem Grows.trans (hfirst : Grows before middle) (hsecond : Grows middle after) :
    Grows before after where
  next_le := Nat.le_trans hfirst.next_le hsecond.next_le
  cell address h := (hsecond.cell address (Nat.lt_of_lt_of_le h hfirst.next_le)).trans
    (hfirst.cell address h)

/-- A change above the old blocks only adds to them. -/
theorem SameOutside.grows {first last : ℕ} (h : SameOutside first last middle after)
    (hgrows : Grows before middle) (hfirst : before.next ≤ first) : Grows before after where
  next_le := h.next.symm ▸ hgrows.next_le
  cell address haddress := (h.cell address (.inl (Nat.lt_of_lt_of_le haddress hfirst))).trans
    (hgrows.cell address haddress)

theorem SameOutside.trans {first last lower upper : ℕ} (h : SameOutside first last before middle)
    (hsecond : SameOutside last upper middle after) (hlower : lower ≤ first) (hle : first ≤ last)
    (hupper : last ≤ upper) : SameOutside lower upper before after where
  next := hsecond.next.trans h.next
  cell address haddress :=
    (hsecond.cell address (by omega)).trans (h.cell address (by omega))

theorem Grows.push (arena : Arena Object) (object : Object) : Grows arena (arena.push object) where
  next_le := Nat.le_succ arena.next
  cell address h := by rw [Arena.cell_push, if_neg (Nat.ne_of_lt h)]

theorem SameOutside.replace (arena : Arena Object) (address : ℕ) (object : Option Object) :
    SameOutside address (address + 1) arena (arena.replace address object) where
  next := rfl
  cell other h := by rw [Arena.cell_replace, if_neg (h.elim Nat.ne_of_lt Nat.ne_of_gt)]

end Frames

/-! ## Objects of several blocks -/

/-- Objects made of `count` consecutive blocks, with the destructor that releases them. -/
structure Kind (Object : Type) where
  count : ℕ
  Held : Heap Object → ℕ → Prop
  destroy : Address → Prog Object Unit
  congr : ∀ {heap heap' : Heap Object} {ptr : ℕ}, Held heap ptr →
    (∀ address : ℕ, ptr ≤ address → address < ptr + count →
      heap'.cell address = heap.cell address) → Held heap' ptr
  destroy_null : ∀ arena, destroy 0 arena = .ok ((), arena)
  destroy_held : ∀ {arena : Arena Object} {ptr : ℕ}, Held arena.heap ptr →
    Returns (destroy ptr) arena fun _ after ↦ SameOutside ptr (ptr + count) arena after

namespace Kind

variable {Object : Type} {kind : Kind Object} {arena : Arena Object} {heap heap' : Heap Object}
  {ptr first last : ℕ}

/-- What a constructor leaves among the blocks from `first` up to `last`: nothing and a null
pointer, or an object. -/
def Slot (kind : Kind Object) (heap : Heap Object) (ptr first last : ℕ) : Prop :=
  ptr = 0 ∨ (first ≤ ptr ∧ ptr + kind.count ≤ last ∧ kind.Held heap ptr)

theorem Slot.congr (h : kind.Slot heap ptr first last)
    (hsame : ∀ address : ℕ, first ≤ address → address < last →
      heap'.cell address = heap.cell address) : kind.Slot heap' ptr first last := by
  rcases h with hnull | ⟨hfirst, hlast, hheld⟩
  · exact .inl hnull
  · refine .inr ⟨hfirst, hlast, kind.congr hheld fun address hlower hupper ↦ ?_⟩
    exact hsame address (Nat.le_trans hfirst hlower) (Nat.lt_of_lt_of_le hupper hlast)

theorem Slot.grows {before after : Arena Object} (h : kind.Slot before.heap ptr first last)
    (hgrows : Grows before after) (hlast : last ≤ before.next) :
    kind.Slot after.heap ptr first last :=
  h.congr fun address _ hupper ↦ hgrows.cell address (Nat.lt_of_lt_of_le hupper hlast)

theorem Slot.sameOutside {before after : Arena Object} {lower upper : ℕ}
    (h : kind.Slot before.heap ptr first last) (hsame : SameOutside lower upper before after)
    (hapart : last ≤ lower ∨ upper ≤ first) : kind.Slot after.heap ptr first last :=
  h.congr fun address hfirst hlast ↦ hsame.cell address (by omega)

/-- The destructor accepts whatever the constructor left. -/
theorem Slot.destroy (h : kind.Slot arena.heap ptr first last) :
    Returns (kind.destroy ptr) arena fun _ after ↦ SameOutside first last arena after := by
  rcases h with rfl | ⟨hfirst, hlast, hheld⟩
  · exact ⟨(), arena, kind.destroy_null arena, rfl, fun _ _ ↦ rfl⟩
  · apply (kind.destroy_held hheld).mono
    intro _ after hsame
    exact ⟨hsame.next, fun address haddress ↦ hsame.cell address (by omega)⟩

/-- The constructor returns an object exactly if all its allocations are granted. -/
def Constructs (kind : Kind Object) (program : Prog Object Address) (granted : Prop) : Prop :=
  ∀ arena, Returns program arena fun ptr after ↦ Grows arena after ∧
    kind.Slot after.heap ptr arena.next after.next ∧ (ptr = 0 ↔ ¬ granted)

end Kind

end K210Firmware.Memory
