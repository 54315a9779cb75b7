import OsProjects.Lib.Tiling
import OsProjects.Malloc.FreeList

/-!
# The invariant of the buddy heap

`HeapInv listed s hi B D` describes a heap from `heap_base` to `hi` whose blocks
start at the addresses `B`. The blocks tile the range with power-of-two sizes at
multiples of their size, and for every order the free blocks are locally linked,
with the order's head pointer null or the first node of a chain.

`D` are the blocks an operation has in its hands: they are in the tiling but
count as neither free nor allocated, whatever their flag says. Between calls `D`
is empty.

`listed` says that the free lists are complete. `buddy_alloc` breaks this when it
splits a block, and everything else keeps it, so the invariant is carried with
`listed` as a parameter: `True` for the well-formed heap, `False` for every
reachable one.
-/

namespace OsProjects.Malloc.Buddy

open Links Tiling

theorem blockSize_eq (k : Nat) : blockSize k = 2 ^ (7 + k) := by
  rw [blockSize, Nat.shiftLeft_eq, minBlockSize, pow_add]
  rfl

theorem blockSize_pos (k : Nat) : 0 < blockSize k := by
  rw [blockSize_eq]
  exact Nat.two_pow_pos _

theorem blockSize_succ (k : Nat) : blockSize (k + 1) = blockSize k + blockSize k := by
  rw [blockSize_eq, blockSize_eq]
  ring

theorem le_blockSize (k : Nat) : 128 ≤ blockSize k := by
  rw [blockSize_eq, pow_add]
  have := Nat.two_pow_pos k
  omega

theorem blockSize_le {j k : Nat} (h : j ≤ k) : blockSize j ≤ blockSize k := by
  rw [blockSize_eq, blockSize_eq]
  exact Nat.pow_le_pow_right (by omega) (by omega)

theorem blockSize_inj {j k : Nat} (h : blockSize j = blockSize k) : j = k := by
  rw [blockSize_eq, blockSize_eq] at h
  have := Nat.pow_right_injective (le_refl 2) h
  omega

theorem blockSize_maxOrder : blockSize maxOrder = 131072 := by decide

/-- The free blocks of order `k` that no operation holds. -/
def FreeOf (s : State) (B D : Set Nat) (k : Nat) : Set Nat :=
  {x | x ∈ B ∧ x ∉ D ∧ s.isFree x = true ∧ s.size x = blockSize k}

theorem mem_freeOf {s : State} {B D : Set Nat} {k x : Nat} :
    x ∈ FreeOf s B D k ↔ x ∈ B ∧ x ∉ D ∧ s.isFree x = true ∧ s.size x = blockSize k := Iff.rfl

structure HeapInv (listed : Prop) (s : State) (hi : Nat) (B D : Set Nat) : Prop where
  tiles : Tiles s.heapBase hi B s.size
  dyadic : Dyadic 7 maxOrder s.heapBase B s.size
  whole : blockSize maxOrder ∣ hi - s.heapBase
  pos : ∀ x ∈ B, x ≠ 0
  lt : ∀ x ∈ B, x + s.size x < 2 ^ 64
  notMmap : ∀ x ∈ B, s.isMmap x = false
  linked : ∀ k, Linked s.next s.prev 0 (FreeOf s B D k)
  heads : ∀ k, Heads s.prev 0 (FreeOf s B D k) (s.freeLists k)
  covers : listed → ∀ k, Covers s.prev 0 (FreeOf s B D k) (s.freeLists k)
  held : D ⊆ B

/-- The static variables a heap operation leaves alone. -/
structure SameGlobals (s s' : State) : Prop where
  mmapList : s'.mmapList = s.mmapList
  heapBase : s'.heapBase = s.heapBase
  initialized : s'.initialized = s.initialized
  mapped : s'.mapped = s.mapped

theorem SameGlobals.refl (s : State) : SameGlobals s s := ⟨rfl, rfl, rfl, rfl⟩

/-- Stores do not touch the static variables. -/
theorem SameGlobals.store (s : State) (mem : Mem) : SameGlobals s { s with mem := mem } := ⟨rfl, rfl, rfl, rfl⟩

theorem SameGlobals.trans {s s' s'' : State} (h : SameGlobals s s') (h' : SameGlobals s' s'') :
    SameGlobals s s'' :=
  ⟨h'.mmapList.trans h.mmapList, h'.heapBase.trans h.heapBase, h'.initialized.trans h.initialized,
    h'.mapped.trans h.mapped⟩

/-- Two states that agree on everything but the list of order `k` and the links
and `is_free` flags of the blocks `B`. -/
structure SameBlocks (B : Set Nat) (k : Nat) (s s' : State) : Prop where
  touches : Mem.Touches (metaRanges B) s.mem s'.mem
  size : ∀ x ∈ B, s'.size x = s.size x
  isMmap : ∀ x ∈ B, s'.isMmap x = s.isMmap x
  lists : ∀ j, j ≠ k → s'.freeLists j = s.freeLists j
  globals : SameGlobals s s'

theorem Relinks.sameBlocks {B S S' : Set Nat} {k : Nat} {s s' : State} (h : Relinks B k S S' s s') :
    SameBlocks B k s s' :=
  ⟨h.touches, h.size, h.isMmap, h.lists, h.mmapList, h.heapBase, h.initialized, h.mapped⟩

theorem flRemove_globals (k m : Nat) (s : State) : SameGlobals s (flRemove k m s) :=
  ⟨flRemove_mmapList k m s, flRemove_heapBase k m s, flRemove_initialized k m s, flRemove_mapped k m s⟩

variable {listed : Prop} {s s' : State} {hi k m x y : Nat} {B D B' D' : Set Nat}

namespace HeapInv

/-- A heap without blocks. -/
theorem empty (lists : ∀ k, s.freeLists k = 0) : HeapInv listed s s.heapBase ∅ ∅ := by
  have none : ∀ k, FreeOf s ∅ ∅ k = ∅ := fun k => by simp [FreeOf]
  constructor
  · exact tiles_empty _ _
  · exact fun x hx => absurd hx (Set.notMem_empty x)
  · simp
  · exact fun x hx => absurd hx (Set.notMem_empty x)
  · exact fun x hx => absurd hx (Set.notMem_empty x)
  · exact fun x hx => absurd hx (Set.notMem_empty x)
  · intro k
    rw [none k]
    exact linked_empty
  · exact fun k => .inl (lists k)
  · exact fun _ k x hx => absurd (none k ▸ hx) (Set.notMem_empty x)
  · exact Set.empty_subset _

theorem weaken (h : HeapInv listed s hi B D) : HeapInv False s hi B D :=
  { h with covers := False.elim }

theorem size_cases (h : HeapInv listed s hi B D) (hx : x ∈ B) :
    ∃ k ≤ maxOrder, s.size x = blockSize k ∧ blockSize k ∣ x - s.heapBase := by
  obtain ⟨k, le, size, dvd⟩ := h.dyadic x hx
  exact ⟨k, le, size.trans (blockSize_eq k).symm, (blockSize_eq k).symm ▸ dvd⟩

theorem le_size (h : HeapInv listed s hi B D) (hx : x ∈ B) : 128 ≤ s.size x := by
  obtain ⟨k, -, size, -⟩ := h.size_cases hx
  exact size ▸ le_blockSize k

/-- The blocks are large enough to keep their metadata apart. -/
theorem places (h : HeapInv listed s hi B D) : Places B where
  slots := by
    intro x hx y hy
    by_cases e : x = y
    · exact .inl e
    · have := h.le_size hx
      have := h.le_size hy
      right
      rcases h.tiles.apart x hx y hy e with le | le
      · exact .inl (by rw [metaSize]; omega)
      · exact .inr (by rw [metaSize]; omega)
  pos := h.pos
  lt := fun x hx => by
    have := h.lt x hx
    omega

theorem freeOf_sub (s : State) (B D : Set Nat) (k : Nat) : FreeOf s B D k ⊆ B := fun _ hx => hx.1

/-- Lists of different orders have no node in common. -/
theorem freeOf_disjoint {j : Nat} (ne : j ≠ k) (hx : x ∈ FreeOf s B D j) : x ∉ FreeOf s B D k :=
  fun hx' => ne (blockSize_inj (hx.2.2.2.symm.trans hx'.2.2.2))

/-- The lists survive when the free blocks and their links stay as they are. -/
theorem transport {hi' : Nat} (h : HeapInv listed s hi B D) (tiles : Tiles s'.heapBase hi' B' s'.size)
    (dyadic : Dyadic 7 maxOrder s'.heapBase B' s'.size) (whole : blockSize maxOrder ∣ hi' - s'.heapBase)
    (pos : ∀ x ∈ B', x ≠ 0) (lt : ∀ x ∈ B', x + s'.size x < 2 ^ 64) (notMmap : ∀ x ∈ B', s'.isMmap x = false)
    (free : ∀ k, FreeOf s' B' D' k = FreeOf s B D k)
    (links : ∀ k, ∀ x ∈ FreeOf s B D k, s'.next x = s.next x ∧ s'.prev x = s.prev x)
    (lists : s'.freeLists = s.freeLists) (held : D' ⊆ B') : HeapInv listed s' hi' B' D' where
  tiles := tiles
  dyadic := dyadic
  whole := whole
  pos := pos
  lt := lt
  notMmap := notMmap
  linked k := by
    rw [free]
    exact (h.linked k).congr (fun x hx => (links k x hx).1) fun x hx => (links k x hx).2
  heads k := by
    rw [free, lists]
    exact (h.heads k).congr fun x hx => (links k x hx).2
  covers l k := by
    rw [free, lists]
    exact (h.covers l k).congr fun x hx => (links k x hx).2
  held := held

/-! ## Taking blocks in hand and putting them down -/

/-- An allocated block may be taken in hand. -/
theorem hold (h : HeapInv listed s hi B D) (hm : m ∈ B) (alloc : s.isFree m = false) :
    HeapInv listed s hi B (insert m D) := by
  refine h.transport h.tiles h.dyadic h.whole h.pos h.lt h.notMmap (fun k => ?_) (fun _ _ _ => ⟨rfl, rfl⟩) rfl
    (Set.insert_subset hm h.held)
  ext x
  simp only [mem_freeOf, Set.mem_insert_iff, not_or]
  constructor
  · rintro ⟨hx, ⟨-, hd⟩, rest⟩
    exact ⟨hx, hd, rest⟩
  · rintro ⟨hx, hd, free, size⟩
    exact ⟨hx, ⟨fun e => by rw [e, alloc] at free; exact Bool.noConfusion free, hd⟩, free, size⟩

/-- A block whose flag says allocated may be put down. -/
theorem release (h : HeapInv listed s hi B D) (alloc : s.isFree m = false) : HeapInv listed s hi B (D \ {m}) := by
  refine h.transport h.tiles h.dyadic h.whole h.pos h.lt h.notMmap (fun k => ?_) (fun _ _ _ => ⟨rfl, rfl⟩) rfl
    fun _ hx => h.held hx.1
  ext x
  simp only [mem_freeOf, Set.mem_sdiff, Set.mem_singleton_iff, not_and, not_not]
  constructor
  · rintro ⟨hx, hd, free, size⟩
    refine ⟨hx, fun held => ?_, free, size⟩
    rw [hd held, alloc] at free
    exact Bool.noConfusion free
  · rintro ⟨hx, hd, rest⟩
    exact ⟨hx, fun held => absurd held hd, rest⟩

/-- Stores that keep the headers of the blocks nobody holds, and the sizes and
`is_mmap` flags of the held ones. -/
theorem of_headers (h : HeapInv listed s hi B D) {mem : Mem}
    (same : ∀ x ∈ B, x ∉ D → mem.header x = s.mem.header x)
    (size : ∀ x ∈ B, (mem.header x).size = s.size x) (mmap : ∀ x ∈ B, (mem.header x).isMmap = s.isMmap x) :
    HeapInv listed { s with mem := mem } hi B D := by
  refine h.transport (h.tiles.congr size) (h.dyadic.congr size) h.whole h.pos
    (fun x hx => (congrArg (x + ·) (size x hx)).trans_lt (h.lt x hx)) (fun x hx => (mmap x hx).trans (h.notMmap x hx))
    (fun k => ?_) ?_ rfl h.held
  · ext x
    constructor
    · rintro ⟨hx, hd, free, size'⟩
      simp only [State.isFree, State.size, same x hx hd] at free size'
      exact ⟨hx, hd, free, size'⟩
    · rintro ⟨hx, hd, free, size'⟩
      refine ⟨hx, hd, ?_, ?_⟩
      · simpa only [State.isFree, same x hx hd] using free
      · simpa only [State.size, same x hx hd] using size'
  · intro k x hx
    simp only [State.next, State.prev, same x hx.1 hx.2.1, and_self]

/-- The invariant only depends on the metadata of the heap's blocks. -/
theorem of_frame (h : HeapInv listed s hi B D) (same : ∀ x ∈ B, s'.mem.header x = s.mem.header x)
    (base : s'.heapBase = s.heapBase) (lists : s'.freeLists = s.freeLists) : HeapInv listed s' hi B D := by
  have size : ∀ x ∈ B, s'.size x = s.size x := fun x hx => by rw [State.size, same x hx]
  refine h.transport (base ▸ h.tiles.congr size) (base ▸ h.dyadic.congr size) (base ▸ h.whole) h.pos
    (fun x hx => size x hx ▸ h.lt x hx) (fun x hx => ?_) (fun k => ?_) (fun k x hx => ?_) lists h.held
  · rw [State.isMmap, same x hx]
    exact h.notMmap x hx
  · ext x
    constructor
    · rintro ⟨hx, rest⟩
      rw [State.isFree, State.size, same x hx] at rest
      exact ⟨hx, rest⟩
    · rintro ⟨hx, rest⟩
      refine ⟨hx, ?_⟩
      rw [State.isFree, State.size, same x hx]
      exact rest
  · rw [State.next, State.prev, same x hx.1]
    exact ⟨rfl, rfl⟩

/-- The flag of a held block may be written. -/
theorem setIsFree (h : HeapInv listed s hi B D) (hm : m ∈ B) (held : m ∈ D) (b : Bool) :
    HeapInv listed { s with mem := s.mem.setIsFree m b } hi B D := by
  have hdr : ∀ x ∈ B, _ := fun x hx => h.places.slots.header_setIsFree (m := s.mem) hx hm b
  refine h.of_headers (fun x hx hd => ?_) (fun x hx => ?_) fun x hx => ?_
  · have ne : x ≠ m := fun e => hd (e ▸ held)
    rw [hdr x hx, if_neg ne]
  · rw [hdr x hx]
    split_ifs <;> rfl
  · rw [hdr x hx]
    split_ifs <;> rfl

/-! ## The list primitives -/

/-- Changing the list of one order. -/
theorem of_relinks {S' : Set Nat} (h : HeapInv listed s hi B D) (r : Relinks B k (FreeOf s B D k) S' s s')
    (nodes : S' = FreeOf s' B D' k) (others : ∀ j, j ≠ k → FreeOf s' B D' j = FreeOf s B D j)
    (off : ∀ j, j ≠ k → ∀ x ∈ FreeOf s B D j, x ∉ S') (held : D' ⊆ B) : HeapInv listed s' hi B D' := by
  have links : ∀ j, j ≠ k → ∀ x ∈ FreeOf s B D j, s'.next x = s.next x ∧ s'.prev x = s.prev x := by
    intro j ne x hx
    exact ⟨r.next x hx.1 (freeOf_disjoint ne hx) (off j ne x hx),
      r.prev x hx.1 (freeOf_disjoint ne hx) (off j ne x hx)⟩
  subst nodes
  refine ⟨?_, ?_, ?_, h.pos, fun x hx => ?_, fun x hx => ?_, fun j => ?_, fun j => ?_, fun l j => ?_, held⟩
  · exact r.heapBase ▸ h.tiles.congr r.size
  · exact r.heapBase ▸ h.dyadic.congr r.size
  · exact r.heapBase ▸ h.whole
  · exact r.size x hx ▸ h.lt x hx
  · exact r.isMmap x hx ▸ h.notMmap x hx
  all_goals
    by_cases ne : j = k
    · subst ne
      first | exact r.linked | exact r.heads | exact r.covers (h.covers l j)
  · rw [others j ne]
    exact (h.linked j).congr (fun x hx => (links j ne x hx).1) fun x hx => (links j ne x hx).2
  · rw [others j ne, r.lists j ne]
    exact (h.heads j).congr fun x hx => (links j ne x hx).2
  · rw [others j ne, r.lists j ne]
    exact (h.covers l j).congr fun x hx => (links j ne x hx).2

/-- **`fl_remove` of a listed or lost free block** takes it in hand. -/
theorem unlink (h : HeapInv listed s hi B D) (hm : m ∈ FreeOf s B D k) :
    HeapInv listed (flRemove k m s) hi B (insert m D) ∧ SameBlocks B k s (flRemove k m s) ∧
      (∀ x ∈ B, (flRemove k m s).isFree x = s.isFree x) ∧
      (flRemove k m s).next m = 0 ∧ (flRemove k m s).prev m = 0 := by
  obtain ⟨r, free, next, prev⟩ := flRemove_relinks h.places (freeOf_sub s B D k) (h.linked k) (h.heads k) hm
  have eq : ∀ j, FreeOf (flRemove k m s) B (insert m D) j = FreeOf s B D j \ {m} := by
    intro j
    ext x
    simp only [mem_freeOf, Set.mem_insert_iff, not_or, Set.mem_sdiff, Set.mem_singleton_iff]
    constructor
    · rintro ⟨hx, ⟨ne, hd⟩, f, size⟩
      exact ⟨⟨hx, hd, (free x hx).symm.trans f, (r.size x hx).symm.trans size⟩, ne⟩
    · rintro ⟨⟨hx, hd, f, size⟩, ne⟩
      exact ⟨hx, ⟨ne, hd⟩, (free x hx).trans f, (r.size x hx).trans size⟩
  refine ⟨h.of_relinks r (eq k).symm (fun j ne => ?_) (fun j ne x hx hx' => ?_)
    (Set.insert_subset hm.1 h.held), r.sameBlocks, free, next, prev⟩
  · rw [eq j]
    refine Set.sdiff_singleton_eq_self fun hm' => ?_
    exact freeOf_disjoint ne hm' hm
  · exact freeOf_disjoint ne hx hx'.1

/-- **`fl_remove` of a held block**: the order's list is lost. -/
theorem unlink_held (h : HeapInv listed s hi B D) (hm : m ∈ B) (next : s.next m = 0) (prev : s.prev m = 0)
    (k : Nat) :
    HeapInv False (flRemove k m s) hi B D ∧ (∀ x ∈ B, (flRemove k m s).mem.header x = s.mem.header x) ∧
      SameBlocks B k s (flRemove k m s) ∧ (flRemove k m s).freeLists = Function.update s.freeLists k 0 := by
  obtain ⟨hdr, touches, lists⟩ := flRemove_stray h.places hm next prev k
  have free : ∀ j, FreeOf (flRemove k m s) B D j = FreeOf s B D j := by
    intro j
    ext x
    constructor
    · rintro ⟨hx, hd, f, size⟩
      rw [State.isFree, hdr x hx] at f
      rw [State.size, hdr x hx] at size
      exact ⟨hx, hd, f, size⟩
    · rintro ⟨hx, hd, f, size⟩
      refine ⟨hx, hd, ?_, ?_⟩
      · rwa [State.isFree, hdr x hx]
      · rwa [State.size, hdr x hx]
  have size : ∀ x ∈ B, (flRemove k m s).size x = s.size x := fun x hx => by rw [State.size, hdr x hx]
  have prevs : ∀ j, ∀ x ∈ FreeOf s B D j, (flRemove k m s).prev x = s.prev x := fun j x hx => by
    rw [State.prev, hdr x hx.1]
  refine ⟨⟨?_, ?_, ?_, h.pos, fun x hx => ?_, fun x hx => ?_, fun j => ?_, fun j => ?_, False.elim,
    h.held⟩, hdr, ?_, lists⟩
  · rw [flRemove_heapBase]
    exact h.tiles.congr size
  · rw [flRemove_heapBase]
    exact h.dyadic.congr size
  · rw [flRemove_heapBase]
    exact h.whole
  · exact size x hx ▸ h.lt x hx
  · rw [State.isMmap, hdr x hx]
    exact h.notMmap x hx
  · rw [free]
    exact (h.linked j).congr (fun x hx => by rw [State.next, hdr x hx.1]) (prevs j)
  · rw [free, lists]
    by_cases e : j = k
    · exact .inl (by rw [e, Function.update_self])
    · rw [Function.update_of_ne e]
      exact (h.heads j).congr (prevs j)
  · exact ⟨touches, size, fun x hx => by rw [State.isMmap, hdr x hx],
      fun j ne => by rw [lists, Function.update_of_ne ne], flRemove_globals k m s⟩

/-- **`fl_insert` of a held block** puts it down as free. -/
theorem insert_free (h : HeapInv listed s hi B D) (hm : m ∈ B) (held : m ∈ D) (size : s.size m = blockSize k) :
    ∃ s', flInsert k m s = some s' ∧ HeapInv listed s' hi B (D \ {m}) ∧ SameBlocks B k s s' ∧
      (∀ x ∈ B, s'.isFree x = if x = m then true else s.isFree x) ∧
      ∀ x ∈ D, x ≠ m → s'.next x = s.next x ∧ s'.prev x = s.prev x := by
  obtain ⟨s', run, r, free⟩ := flInsert_relinks h.places (freeOf_sub s B D k) (h.linked k) (h.heads k) hm
    (fun hm' => hm'.2.1 held)
  have eq : ∀ j, FreeOf s' B (D \ {m}) j = if j = k then insert m (FreeOf s B D k) else FreeOf s B D j := by
    intro j
    ext x
    have step : x ∈ FreeOf s' B (D \ {m}) j ↔ x ∈ FreeOf s B D j ∨ x = m ∧ j = k := by
      simp only [mem_freeOf, Set.mem_sdiff, Set.mem_singleton_iff, not_and, not_not]
      constructor
      · rintro ⟨hx, hd, f, sz⟩
        rw [r.size x hx] at sz
        by_cases e : x = m
        · exact .inr ⟨e, blockSize_inj (by rw [← sz, e, size])⟩
        · rw [free x hx, if_neg e] at f
          exact .inl ⟨hx, fun hd' => e (hd hd'), f, sz⟩
      · rintro (⟨hx, hd, f, sz⟩ | ⟨rfl, rfl⟩)
        · refine ⟨hx, fun hd' => absurd hd' hd, ?_, (r.size x hx).trans sz⟩
          rw [free x hx, f, ite_self]
        · exact ⟨hm, fun _ => rfl, by rw [free x hm, if_pos rfl], (r.size x hm).trans size⟩
    rw [step]
    split_ifs with e
    · subst e
      simp [or_comm]
    · simp [e]
  refine ⟨s', run, h.of_relinks r ?_ (fun j ne => ?_) (fun j ne x hx => ?_) fun _ hx => h.held hx.1,
    r.sameBlocks, free, fun x hx ne => ?_⟩
  · rw [eq k, if_pos rfl]
  · rw [eq j, if_neg ne]
  · rintro (rfl | hx')
    · exact hx.2.1 held
    · exact freeOf_disjoint ne hx hx'
  · have out : x ∉ FreeOf s B D k := fun hx' => hx'.2.1 hx
    have out' : x ∉ insert m (FreeOf s B D k) := fun hx' => hx'.elim ne out
    exact ⟨r.next x (h.held hx) out out', r.prev x (h.held hx) out out'⟩

end HeapInv

end OsProjects.Malloc.Buddy
