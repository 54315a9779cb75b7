import OsProjects.Malloc.Mmap

/-!
# The whole memory of the buddy allocators

`Inv listed s B M` joins the heap with blocks `B` and the mmap list `M`: no block
of one meets a block of the other. `Held` are the blocks in the hands of the
client. Every public function is then described by what it does to the held
blocks: at most one is added and at most one goes, and all others keep their
size and their bytes (`Keeps`).
-/

namespace OsProjects.Malloc.Buddy

open Links Tiling

/-- The end of the heap. `heap_base` is null before `buddy_init` and `(void*)-1` when
its `sbrk` failed; there is no heap then. -/
def State.heapEnd (s : State) : Nat :=
  if s.heapBase = 0 ∨ s.heapBase = failed then s.heapBase else s.heapBase + totalHeapSize

theorem State.heapEnd_le (s : State) : s.heapEnd ≤ s.heapBase + totalHeapSize := by
  unfold State.heapEnd
  split_ifs <;> omega

theorem State.heapEnd_congr {s s' : State} (base : s'.heapBase = s.heapBase) : s'.heapEnd = s.heapEnd := by
  unfold State.heapEnd
  rw [base]

/-- The bytes a block takes in all: an mmap block's `size` leaves its metadata out. -/
def State.extent (s : State) (x : Nat) : Nat := if s.isMmap x then metaSize + s.size x else s.size x

/-- The bytes a block has for the client. -/
def State.usable (s : State) (x : Nat) : Nat := if s.isMmap x then s.size x else subSize (s.size x) metaSize

structure Inv (listed : Prop) (s : State) (B : Set Nat) (M : List Nat) : Prop where
  heap : HeapInv listed s s.heapEnd B ∅
  maps : MmapInv s M
  off : ∀ x ∈ M, x + metaSize + s.size x ≤ s.heapBase ∨ s.heapEnd ≤ x
  boot : s.initialized = false → s.heapBase = 0 ∧ M = [] ∧ ∀ k, s.freeLists k = 0

/-- The blocks in the hands of the client. -/
def Held (s : State) (B : Set Nat) (M : List Nat) : Set Nat := {x | x ∈ B ∧ s.isFree x = false ∨ x ∈ M}

/-- A block keeps its size and its bytes. -/
structure Keeps (s s' : State) (x : Nat) : Prop where
  size : s'.size x = s.size x
  isMmap : s'.isMmap x = s.isMmap x
  bytes : ∀ a, x + metaSize ≤ a → a < x + s.extent x → s'.mem a = s.mem a

variable {listed : Prop} {ed : Edition} {os : Os} {s s' s'' : State} {m n x y z : Nat} {A B B' : Set Nat}
  {M M' : List Nat}

theorem State.extent_congr (hdr : s'.mem.header x = s.mem.header x) : s'.extent x = s.extent x := by
  unfold State.extent State.isMmap State.size
  rw [hdr]

theorem State.usable_congr (hdr : s'.mem.header x = s.mem.header x) : s'.usable x = s.usable x := by
  unfold State.usable State.isMmap State.size
  rw [hdr]

theorem Keeps.refl (s : State) (x : Nat) : Keeps s s x := ⟨rfl, rfl, fun _ _ _ => rfl⟩

theorem Keeps.extent_eq (h : Keeps s s' x) : s'.extent x = s.extent x := by
  unfold State.extent
  rw [h.size, h.isMmap]

theorem Keeps.trans (h : Keeps s s' x) (h' : Keeps s' s'' x) : Keeps s s'' x :=
  ⟨h'.size.trans h.size, h'.isMmap.trans h.isMmap, fun a lo hi =>
    (h'.bytes a lo (h.extent_eq.symm ▸ hi)).trans (h.bytes a lo hi)⟩

/-- Stores to headers that do not lie inside the block. -/
theorem keeps_of_touches (touches : Mem.Touches (metaRanges A) s.mem s'.mem) (size : s'.size x = s.size x)
    (mmap : s'.isMmap x = s.isMmap x) (off : ∀ a ∈ A, a ≤ x ∨ x + s.extent x ≤ a) : Keeps s s' x := by
  refine ⟨size, mmap, fun a lo hi => touches a fun r hr => ?_⟩
  have := off r.1 hr.1
  rw [hr.2]
  omega

namespace Inv

theorem extent_heap (h : Inv listed s B M) (hx : x ∈ B) : s.extent x = s.size x := by
  unfold State.extent
  rw [h.heap.notMmap x hx]
  rfl

theorem extent_map (h : Inv listed s B M) (hx : x ∈ M) : s.extent x = metaSize + s.size x := by
  unfold State.extent
  rw [h.maps.isMmap x hx]
  rfl

theorem usable_eq (h : Inv listed s B M) (hx : x ∈ B ∨ x ∈ M) : metaSize + s.usable x = s.extent x := by
  unfold State.usable State.extent
  rcases hx with hx | hx
  · have large := h.heap.le_size hx
    have lt := h.heap.lt x hx
    have le : metaSize ≤ s.size x := by rw [metaSize]; omega
    rw [h.heap.notMmap x hx]
    simp only [Bool.false_eq_true, if_false]
    rw [subSize_of_le le (by omega)]
    omega
  · rw [h.maps.isMmap x hx]
    rfl

/-- No heap block is larger than the largest order. -/
theorem usable_le (h : Inv listed s B M) (hx : x ∈ B) : s.usable x ≤ 131040 := by
  have whole := h.usable_eq (.inl hx)
  obtain ⟨k, order, size, -⟩ := h.heap.size_cases hx
  have top := blockSize_le order
  have word : metaSize = 32 := rfl
  rw [h.extent_heap hx, size] at whole
  rw [blockSize_maxOrder] at top
  omega

theorem mem_heap (h : Inv listed s B M) (hx : x ∈ B) : s.heapBase ≤ x ∧ x + s.size x ≤ s.heapEnd :=
  ⟨h.heap.tiles.lower x hx, h.heap.tiles.upper x hx⟩

theorem le_extent (h : Inv listed s B M) (hx : x ∈ B ∨ x ∈ M) : 128 ≤ s.extent x := by
  rcases hx with hx | hx
  · rw [h.extent_heap hx]
    exact h.heap.le_size hx
  · rw [h.extent_map hx]
    have := h.maps.large x hx
    have : mmapThreshold = 131072 := rfl
    omega

/-- **No two blocks overlap**, on the heap or off it. -/
theorem apart (h : Inv listed s B M) (hx : x ∈ B ∨ x ∈ M) (hy : y ∈ B ∨ y ∈ M) (ne : x ≠ y) :
    x + s.extent x ≤ y ∨ y + s.extent y ≤ x := by
  rcases hx with hx | hx <;> rcases hy with hy | hy
  · rw [h.extent_heap hx, h.extent_heap hy]
    exact h.heap.tiles.apart x hx y hy ne
  · rw [h.extent_heap hx, h.extent_map hy]
    have := h.mem_heap hx
    have := h.off y hy
    have := h.heap.tiles.pos x hx
    omega
  · rw [h.extent_heap hy, h.extent_map hx]
    have := h.mem_heap hy
    have := h.off x hx
    have := h.heap.tiles.pos y hy
    omega
  · rw [h.extent_map hx, h.extent_map hy]
    have := h.maps.apart x hx y hy ne
    omega

theorem lt (h : Inv listed s B M) (hx : x ∈ B ∨ x ∈ M) : x + s.extent x < 2 ^ 64 := by
  rcases hx with hx | hx
  · rw [h.extent_heap hx]
    exact h.heap.lt x hx
  · rw [h.extent_map hx]
    have := h.maps.lt x hx
    omega

theorem pos (h : Inv listed s B M) (hx : x ∈ B ∨ x ∈ M) : x ≠ 0 :=
  hx.elim (h.heap.pos x) h.maps.dll.ne_null

theorem places (h : Inv listed s B M) : Places {x | x ∈ B ∨ x ∈ M} where
  slots x hx y hy := by
    by_cases e : x = y
    · exact .inl e
    · have := h.le_extent hx
      have := h.le_extent hy
      have word : metaSize = 32 := rfl
      exact .inr ((h.apart hx hy e).imp (by omega) (by omega))
  pos x hx := h.pos hx
  lt x hx := by
    have := h.lt hx
    omega

/-- The state determines its blocks. -/
theorem unique {listed' : Prop} (h : Inv listed s B M) (h' : Inv listed' s B' M') : B' = B ∧ M' = M :=
  ⟨h'.heap.tiles.unique h.heap.tiles, h'.maps.dll.chain.unique h.maps.dll.chain⟩

theorem notMem_map (h : Inv listed s B M) (hx : x ∈ B) : x ∉ M := fun hx' => by
  have := h.maps.isMmap x hx'
  rw [h.heap.notMmap x hx] at this
  exact Bool.noConfusion this

theorem weaken {listed' : Prop} (h : Inv listed s B M) (imp : listed' → listed) : Inv listed' s B M :=
  { h with heap := { h.heap with covers := fun l => h.heap.covers (imp l) } }

theorem blocks_of_held (hx : x ∈ Held s B M) : x ∈ B ∨ x ∈ M := hx.imp_left And.left

theorem start (mem : Mem) : Inv True (State.start mem) ∅ [] :=
  ⟨HeapInv.empty fun _ => rfl, MmapInv.start mem, fun _ hx => absurd hx List.not_mem_nil,
    fun _ => ⟨rfl, rfl, fun _ => rfl⟩⟩

/-- Before `buddy_init` there are no blocks. -/
theorem blocks_of_boot (h : Inv listed s B M) (fresh : s.initialized = false) : B = ∅ ∧ M = [] := by
  obtain ⟨base, maps, -⟩ := h.boot fresh
  refine ⟨Set.eq_empty_iff_forall_notMem.mpr fun x hx => ?_, maps⟩
  have stop : s.heapEnd = 0 := by simp [State.heapEnd, base]
  have := (h.mem_heap hx).2
  have := h.heap.tiles.pos x hx
  omega

theorem initialized_of_mem (h : Inv listed s B M) (hx : x ∈ B ∨ x ∈ M) : s.initialized = true := by
  by_contra fresh
  obtain ⟨rfl, rfl⟩ := h.blocks_of_boot (Bool.eq_false_iff.mpr fresh)
  exact hx.elim (Set.notMem_empty x) List.not_mem_nil

theorem touches_memmove (mem : Mem) (x p n : Nat) :
    Mem.Touches {(x + metaSize, n)} mem (mem.memmove (ptrFromMeta x) p n) :=
  Mem.touches_memmove (r := (x + metaSize, n)) rfl (le_refl _) (le_refl _)

theorem touches_memset (mem : Mem) (x n : Nat) (b : UInt8) :
    Mem.Touches {(x + metaSize, n)} mem (mem.memset (ptrFromMeta x) b n) :=
  Mem.touches_memset (r := (x + metaSize, n)) rfl (le_refl _) (le_refl _)

/-- Writing to the payload of one block. -/
theorem write {mem : Mem} (h : Inv listed s B M) (hx : x ∈ B ∨ x ∈ M) (fits : metaSize + n ≤ s.extent x)
    (touches : Mem.Touches {(x + metaSize, n)} s.mem mem) :
    Inv listed { s with mem := mem } B M ∧ Held { s with mem := mem } B M = Held s B M ∧
      (∀ z, z ∈ B ∨ z ∈ M → mem.header z = s.mem.header z) ∧
      ∀ z, z ∈ B ∨ z ∈ M → z ≠ x → Keeps s { s with mem := mem } z := by
  have hdr : ∀ z, z ∈ B ∨ z ∈ M → mem.header z = s.mem.header z := by
    intro z hz
    refine touches.header_eq fun r hr => ?_
    rw [Set.mem_singleton_iff.mp hr]
    have large := h.le_extent hz
    have : metaSize = 32 := rfl
    obtain rfl | e := eq_or_ne z x
    · omega
    · have := h.apart hz hx e
      omega
  refine ⟨⟨h.heap.of_frame (fun z hz => hdr z (.inl hz)) rfl rfl, ?_, ?_, h.boot⟩, ?_, hdr, fun z hz ne => ?_⟩
  · exact h.maps.frame (fun z hz => hdr z (.inr hz)) ⟨rfl, rfl⟩
  · intro z hz
    rw [State.size, hdr z (.inr hz)]
    exact h.off z hz
  · ext z
    constructor
    · rintro (⟨hz, free⟩ | hz)
      · rw [State.isFree, hdr z (.inl hz)] at free
        exact .inl ⟨hz, free⟩
      · exact .inr hz
    · rintro (⟨hz, free⟩ | hz)
      · exact .inl ⟨hz, by rw [State.isFree, hdr z (.inl hz)]; exact free⟩
      · exact .inr hz
  · refine ⟨by rw [State.size, hdr z hz], by rw [State.isMmap, hdr z hz], fun a lo hi => touches a fun r hr => ?_⟩
    rw [Set.mem_singleton_iff.mp hr]
    have := h.apart hz hx ne
    omega

/-- Stores to headers inside the heap leave the headers of the mmap blocks alone. -/
theorem map_header (h : Inv listed s B M) (touches : Mem.Touches (metaRanges A) s.mem s'.mem)
    (within : ∀ a ∈ A, s.heapBase ≤ a ∧ a + metaSize ≤ s.heapEnd) (hz : z ∈ M) :
    s'.mem.header z = s.mem.header z := by
  refine touches.header_eq fun r hr => ?_
  have := within r.1 hr.1
  have := h.off z hz
  rw [hr.2]
  omega

/-- A heap operation leaves the mmap blocks alone. -/
theorem of_heap {listed' : Prop} (h : Inv listed s B M) (init : s.initialized = true)
    (heap : HeapInv listed' s' s.heapEnd B' ∅) (globals : SameGlobals s s')
    (touches : Mem.Touches (metaRanges A) s.mem s'.mem)
    (within : ∀ a ∈ A, s.heapBase ≤ a ∧ a + metaSize ≤ s.heapEnd) :
    Inv listed' s' B' M ∧ ∀ z ∈ M, Keeps s s' z := by
  have stop : s'.heapEnd = s.heapEnd := State.heapEnd_congr globals.heapBase
  have hdr : ∀ z ∈ M, s'.mem.header z = s.mem.header z := fun z hz => h.map_header touches within hz
  refine ⟨⟨stop ▸ heap, h.maps.frame hdr ⟨globals.mmapList, globals.mapped⟩, fun z hz => ?_, fun fresh => ?_⟩,
    fun z hz => ?_⟩
  · rw [State.size, hdr z hz, globals.heapBase, stop]
    exact h.off z hz
  · rw [globals.initialized, init] at fresh
    exact Bool.noConfusion fresh
  · refine keeps_of_touches touches (by rw [State.size, hdr z hz]) (by rw [State.isMmap, hdr z hz]) fun a ha => ?_
    rw [h.extent_map hz]
    have := within a ha
    have := h.off z hz
    omega

/-- The metadata of the heap's blocks lies inside the heap. -/
theorem header_within (h : HeapInv listed s' s.heapEnd B ∅) (base : s'.heapBase = s.heapBase) (hx : x ∈ B) :
    s.heapBase ≤ x ∧ x + metaSize ≤ s.heapEnd := by
  have low := h.tiles.lower x hx
  have up := h.tiles.upper x hx
  have large := h.le_size hx
  rw [base] at low
  exact ⟨low, by rw [metaSize]; omega⟩

end Inv

end OsProjects.Malloc.Buddy
