import OsProjects.Lib.Memory
import OsProjects.Lib.Double

/-!
# Block metadata

`struct MallocMetadata` as it lies in memory, shared by the three allocators.
The layout is malloc_4's: `size` at `0`, the flags `is_free`, `is_mmap`,
`is_huge` at `8`, `9`, `10`, `next` at `16` and `prev` at `24`, 32 bytes in all.
malloc_3 has no `is_huge` and malloc_2 only `is_free`; the missing flags are
padding bytes there, so the other offsets and the size are the same.

`Mem.header m p` reads the structure at `p`, and each field has its own store.
Structures at addresses that are `Apart` do not overlap; on a set of pairwise
apart addresses (`Slots`) a store changes one field of one header.
-/

namespace OsProjects

/-- The fields of `struct MallocMetadata`. A null pointer is `0`. -/
structure MallocMetadata where
  size : Nat
  isFree : Bool
  isMmap : Bool
  isHuge : Bool
  next : Nat
  prev : Nat
  deriving DecidableEq, Repr

namespace Malloc

/-- `sizeof(MallocMetadata)`. -/
def metaSize : Nat := 32

/-- `MAX_ALLOC_SIZE`, `1e8`. -/
def maxAllocSize : Nat := 100000000

/-- `(double)size > MAX_ALLOC_SIZE`. -/
def exceedsMax (size : Nat) : Bool := decide (maxAllocSize < toDouble size)

theorem exceedsMax_iff {size : Nat} : exceedsMax size = true ↔ maxAllocSize < size := by
  rw [exceedsMax, decide_eq_true_iff]
  exact lt_toDouble_iff (by decide)

/-- A size that `smalloc` refuses. -/
def Refused (size : Nat) : Prop := size = 0 ∨ exceedsMax size = true

instance (size : Nat) : Decidable (Refused size) := inferInstanceAs (Decidable (_ ∨ _))

theorem not_refused {size : Nat} : ¬Refused size ↔ 0 < size ∧ size ≤ maxAllocSize := by
  rw [Refused, not_or, exceedsMax_iff]
  omega

/-- `num * size` on `size_t`. -/
def product (num size : Nat) : Nat := num * size % 2 ^ 64

/-- `a - b` on `size_t`. -/
def subSize (a b : Nat) : Nat := (2 ^ 64 + a - b) % 2 ^ 64

theorem subSize_of_le {a b : Nat} (h : b ≤ a) (ha : a < 2 ^ 64) : subSize a b = a - b := by
  rw [subSize, show 2 ^ 64 + a - b = (a - b) + 2 ^ 64 by omega, Nat.add_mod_right,
    Nat.mod_eq_of_lt (by omega)]

/-- `meta_from_ptr`. -/
def metaFromPtr (p : Nat) : Nat := p - metaSize

/-- `ptr_from_meta`. -/
def ptrFromMeta (m : Nat) : Nat := m + metaSize

@[simp] theorem metaFromPtr_ptrFromMeta (m : Nat) : metaFromPtr (ptrFromMeta m) = m :=
  Nat.add_sub_cancel m metaSize

theorem ptrFromMeta_ne_zero (x : Nat) : ptrFromMeta x ≠ 0 := by
  unfold ptrFromMeta metaSize
  omega

theorem ptrFromMeta_inj {x y : Nat} (h : ptrFromMeta x = ptrFromMeta y) : x = y := by
  unfold ptrFromMeta at h
  omega

/-- Sizes with their metadata. -/
theorem sum_add_meta (f : Nat → Nat) (l : List Nat) :
    (l.map f).sum + l.length * metaSize = (l.map fun x => metaSize + f x).sum := by
  induction l with
  | nil => rfl
  | cons x l ih =>
    simp only [List.map_cons, List.sum_cons, List.length_cons, Nat.succ_mul]
    omega

/-- Two structures at these addresses do not overlap. -/
def Apart (p q : Nat) : Prop := p + metaSize ≤ q ∨ q + metaSize ≤ p

/-- Pairwise apart addresses. -/
def Slots (A : Set Nat) : Prop := ∀ p ∈ A, ∀ q ∈ A, p = q ∨ Apart p q

theorem Slots.mono {A B : Set Nat} (h : Slots B) (sub : A ⊆ B) : Slots A :=
  fun p hp q hq => h p (sub hp) q (sub hq)

/-- Addresses of blocks that do not overlap: none is null or wraps around. -/
structure Places (A : Set Nat) : Prop where
  slots : Slots A
  pos : ∀ x ∈ A, x ≠ 0
  lt : ∀ x ∈ A, x < 2 ^ 64

theorem Places.mono {A B : Set Nat} (h : Places B) (sub : A ⊆ B) : Places A :=
  ⟨h.slots.mono sub, fun x hx => h.pos x (sub hx), fun x hx => h.lt x (sub hx)⟩

/-- The byte ranges of the structures at `A`. -/
def metaRanges (A : Set Nat) : Set (Nat × Nat) := {r | r.1 ∈ A ∧ r.2 = metaSize}

theorem touches_sub {A B : Set Nat} {mem mem' : Mem} (sub : A ⊆ B)
    (h : Mem.Touches (metaRanges A) mem mem') : Mem.Touches (metaRanges B) mem mem' :=
  h.mono fun r hr => ⟨r, ⟨sub hr.1, hr.2⟩, le_refl _, le_refl _⟩

/-! ## The operating system -/

/-- The answers of the operating system during one call. The allocators make at
most one call for each argument, so the answers are functions of it. `none` is
`(void*)-1`, which is also `MAP_FAILED`. -/
structure Os where
  /-- `sbrk(increment)`. -/
  sbrk : Nat → Option Nat
  /-- `mmap` of an anonymous region of this length, with or without `MAP_HUGETLB`. -/
  mmap : Bool → Nat → Option Nat
  /-- `sysconf(_SC_PAGESIZE)`. -/
  pageSize : Nat

/-- `(void*)-1` as an address. -/
def failed : Nat := 2 ^ 64 - 1

/-! ## The client -/

/-- A call of the client, or a byte it writes. -/
inductive Call where
  | smalloc (size : Nat)
  | scalloc (num size : Nat)
  | sfree (p : Nat)
  | srealloc (oldp size : Nat)
  | write (a : Nat) (b : UInt8)

end Malloc

namespace Mem

open Malloc

/-- The structure at `p`. -/
def header (m : Mem) (p : Nat) : MallocMetadata where
  size := m.loadLE p 8
  isFree := m (p + 8) != 0
  isMmap := m (p + 9) != 0
  isHuge := m (p + 10) != 0
  next := m.loadLE (p + 16) 8
  prev := m.loadLE (p + 24) 8

/-- A `bool` as its byte. -/
def boolByte (b : Bool) : UInt8 := if b then 1 else 0

/-- `p->size = v`. -/
def setSize (m : Mem) (p v : Nat) : Mem := m.storeLE p 8 v

/-- `p->is_free = b`. -/
def setIsFree (m : Mem) (p : Nat) (b : Bool) : Mem := m.store8 (p + 8) (boolByte b)

/-- `p->is_mmap = b`. -/
def setIsMmap (m : Mem) (p : Nat) (b : Bool) : Mem := m.store8 (p + 9) (boolByte b)

/-- `p->is_huge = b`. -/
def setIsHuge (m : Mem) (p : Nat) (b : Bool) : Mem := m.store8 (p + 10) (boolByte b)

/-- `p->next = q`. -/
def setNext (m : Mem) (p q : Nat) : Mem := m.storeLE (p + 16) 8 q

/-- `p->prev = q`. -/
def setPrev (m : Mem) (p q : Nat) : Mem := m.storeLE (p + 24) 8 q

theorem boolByte_bne (b : Bool) : (boolByte b != 0) = b := by cases b <;> rfl

/-- A header only depends on its own bytes. -/
theorem header_congr {m m' : Mem} {p : Nat} (h : ∀ x, p ≤ x → x < p + metaSize → m' x = m x) :
    m'.header p = m.header p := by
  simp only [metaSize] at h
  simp only [header, h (p + 8) (by omega) (by omega), h (p + 9) (by omega) (by omega),
    h (p + 10) (by omega) (by omega), MallocMetadata.mk.injEq, true_and]
  exact ⟨loadLE_congr fun x lo hi => h x (by omega) (by omega),
    loadLE_congr fun x lo hi => h x (by omega) (by omega),
    loadLE_congr fun x lo hi => h x (by omega) (by omega)⟩

/-- A header off the touched ranges is unchanged. -/
theorem Touches.header_eq {R : Set (Nat × Nat)} {m m' : Mem} (h : Touches R m m') {p : Nat}
    (off : ∀ r ∈ R, p + metaSize ≤ r.1 ∨ r.1 + r.2 ≤ p) : m'.header p = m.header p :=
  header_congr fun x lo hi => h x fun r hr => by have := off r hr; omega

theorem header_size_lt (m : Mem) (p : Nat) : (m.header p).size < 2 ^ 64 := loadLE_lt m p 8

theorem header_next_lt (m : Mem) (p : Nat) : (m.header p).next < 2 ^ 64 := loadLE_lt m (p + 16) 8

theorem header_prev_lt (m : Mem) (p : Nat) : (m.header p).prev < 2 ^ 64 := loadLE_lt m (p + 24) 8

/-! ## One store, one field -/

theorem touches_setSize {A : Set Nat} {p v : Nat} {m : Mem} (hp : p ∈ A) :
    Touches (metaRanges A) m (m.setSize p v) :=
  touches_storeLE (r := (p, metaSize)) ⟨hp, rfl⟩ (by simp) (by simp [metaSize])

theorem touches_setIsFree {A : Set Nat} {p : Nat} {b : Bool} {m : Mem} (hp : p ∈ A) :
    Touches (metaRanges A) m (m.setIsFree p b) :=
  touches_store8 (r := (p, metaSize)) ⟨hp, rfl⟩ (by simp) (by simp [metaSize])

theorem touches_setIsMmap {A : Set Nat} {p : Nat} {b : Bool} {m : Mem} (hp : p ∈ A) :
    Touches (metaRanges A) m (m.setIsMmap p b) :=
  touches_store8 (r := (p, metaSize)) ⟨hp, rfl⟩ (by simp) (by simp [metaSize])

theorem touches_setIsHuge {A : Set Nat} {p : Nat} {b : Bool} {m : Mem} (hp : p ∈ A) :
    Touches (metaRanges A) m (m.setIsHuge p b) :=
  touches_store8 (r := (p, metaSize)) ⟨hp, rfl⟩ (by simp) (by simp [metaSize])

theorem touches_setNext {A : Set Nat} {p v : Nat} {m : Mem} (hp : p ∈ A) :
    Touches (metaRanges A) m (m.setNext p v) :=
  touches_storeLE (r := (p, metaSize)) ⟨hp, rfl⟩ (by simp) (by simp [metaSize])

theorem touches_setPrev {A : Set Nat} {p v : Nat} {m : Mem} (hp : p ∈ A) :
    Touches (metaRanges A) m (m.setPrev p v) :=
  touches_storeLE (r := (p, metaSize)) ⟨hp, rfl⟩ (by simp) (by simp [metaSize])

@[simp] theorem header_setSize_self (m : Mem) (p v : Nat) :
    (m.setSize p v).header p = { m.header p with size := v % 2 ^ 64 } := by
  simp only [header, setSize, loadLE_storeLE, MallocMetadata.mk.injEq]
  refine ⟨rfl, ?_, ?_, ?_, ?_, ?_⟩
  all_goals first | exact loadLE_storeLE_of_disjoint (by omega) | simp [storeLE]

@[simp] theorem header_setIsFree_self (m : Mem) (p : Nat) (b : Bool) :
    (m.setIsFree p b).header p = { m.header p with isFree := b } := by
  simp only [header, setIsFree, MallocMetadata.mk.injEq]
  refine ⟨?_, ?_, ?_, ?_, ?_, ?_⟩
  all_goals first | exact loadLE_store8_of_ne (by omega) | simp [store8, boolByte_bne]

@[simp] theorem header_setIsMmap_self (m : Mem) (p : Nat) (b : Bool) :
    (m.setIsMmap p b).header p = { m.header p with isMmap := b } := by
  simp only [header, setIsMmap, MallocMetadata.mk.injEq]
  refine ⟨?_, ?_, ?_, ?_, ?_, ?_⟩
  all_goals first | exact loadLE_store8_of_ne (by omega) | simp [store8, boolByte_bne]

@[simp] theorem header_setIsHuge_self (m : Mem) (p : Nat) (b : Bool) :
    (m.setIsHuge p b).header p = { m.header p with isHuge := b } := by
  simp only [header, setIsHuge, MallocMetadata.mk.injEq]
  refine ⟨?_, ?_, ?_, ?_, ?_, ?_⟩
  all_goals first | exact loadLE_store8_of_ne (by omega) | simp [store8, boolByte_bne]

@[simp] theorem header_setNext_self (m : Mem) (p v : Nat) :
    (m.setNext p v).header p = { m.header p with next := v % 2 ^ 64 } := by
  simp only [header, setNext, loadLE_storeLE, MallocMetadata.mk.injEq]
  refine ⟨?_, ?_, ?_, ?_, rfl, ?_⟩
  all_goals first | exact loadLE_storeLE_of_disjoint (by omega) | simp [storeLE]

@[simp] theorem header_setPrev_self (m : Mem) (p v : Nat) :
    (m.setPrev p v).header p = { m.header p with prev := v % 2 ^ 64 } := by
  simp only [header, setPrev, loadLE_storeLE, MallocMetadata.mk.injEq]
  refine ⟨?_, ?_, ?_, ?_, ?_, rfl⟩
  all_goals first | exact loadLE_storeLE_of_disjoint (by omega) | simp [storeLE]

/-- Clearing a flag that is clear. -/
theorem setIsFree_false_eq_self {m : Mem} {p : Nat} (h : (m.header p).isFree = false) : m.setIsFree p false = m := by
  simp only [header, bne_eq_false_iff_eq] at h
  funext a
  simp only [setIsFree, store8]
  split_ifs with e
  · rw [e, h]
    rfl
  · rfl

/-- A structure apart from the touched one is unchanged. -/
theorem header_of_apart {m m' : Mem} {p q : Nat} (h : Touches (metaRanges {q}) m m') (apart : Apart p q) :
    m'.header p = m.header p := by
  refine h.header_eq fun r hr => ?_
  obtain ⟨start, len⟩ := hr
  rw [Set.mem_singleton_iff] at start
  rw [start, len]
  exact apart

end Mem

namespace Malloc.Slots

open Mem

variable {A : Set Nat} {m : Mem} {p q : Nat} (hA : Slots A) (hp : p ∈ A) (hq : q ∈ A)
include hA hp hq

theorem header_setSize (v : Nat) : (m.setSize q v).header p =
    if p = q then { m.header p with size := v % 2 ^ 64 } else m.header p := by
  split_ifs with e
  · rw [e, header_setSize_self]
  · exact header_of_apart (touches_setSize rfl) ((hA p hp q hq).resolve_left e)

theorem header_setIsFree (b : Bool) : (m.setIsFree q b).header p =
    if p = q then { m.header p with isFree := b } else m.header p := by
  split_ifs with e
  · rw [e, header_setIsFree_self]
  · exact header_of_apart (touches_setIsFree rfl) ((hA p hp q hq).resolve_left e)

theorem header_setIsMmap (b : Bool) : (m.setIsMmap q b).header p =
    if p = q then { m.header p with isMmap := b } else m.header p := by
  split_ifs with e
  · rw [e, header_setIsMmap_self]
  · exact header_of_apart (touches_setIsMmap rfl) ((hA p hp q hq).resolve_left e)

theorem header_setIsHuge (b : Bool) : (m.setIsHuge q b).header p =
    if p = q then { m.header p with isHuge := b } else m.header p := by
  split_ifs with e
  · rw [e, header_setIsHuge_self]
  · exact header_of_apart (touches_setIsHuge rfl) ((hA p hp q hq).resolve_left e)

theorem header_setNext (v : Nat) : (m.setNext q v).header p =
    if p = q then { m.header p with next := v % 2 ^ 64 } else m.header p := by
  split_ifs with e
  · rw [e, header_setNext_self]
  · exact header_of_apart (touches_setNext rfl) ((hA p hp q hq).resolve_left e)

theorem header_setPrev (v : Nat) : (m.setPrev q v).header p =
    if p = q then { m.header p with prev := v % 2 ^ 64 } else m.header p := by
  split_ifs with e
  · rw [e, header_setPrev_self]
  · exact header_of_apart (touches_setPrev rfl) ((hA p hp q hq).resolve_left e)

end Malloc.Slots

attribute [irreducible] Mem.header Mem.setSize Mem.setIsFree Mem.setIsMmap Mem.setIsHuge Mem.setNext Mem.setPrev

end OsProjects
