import OsProjects.Malloc.Arena

/-!
# Well-formed heaps

`HeapWellFormed s l` says what the heap has to look like in terms of the walk through
the heap and of the lists read off the links. It is the invariant with complete free
lists (`HeapWellFormed.inv`, `HeapInv.wellFormed`). `Coalesced` says that no merge of
two free buddies was left out.
-/

namespace OsProjects.Malloc.Buddy

open Links Tiling

variable {listed : Prop} {s s' : State} {k x : Nat} {B D : Set Nat} {l : List Nat}

/-- The heap is tiled by the aligned blocks `l`, and the free lists are the ascending
lists of its free blocks by order. -/
structure HeapWellFormed (s : State) (l : List Nat) : Prop where
  walk : Walk s.size s.heapEnd s.heapBase l
  room : s.heapEnd < 2 ^ 64
  sizes : ∀ x ∈ l, ∃ k ≤ maxOrder, s.size x = minBlockSize * 2 ^ k ∧ s.size x ∣ x - s.heapBase
  heap : ∀ x ∈ l, s.isMmap x = false
  lists : ∀ k ≤ maxOrder, ∃ nodes, Dll s.next s.prev 0 0 (s.freeLists k) nodes ∧ nodes.Pairwise (· < ·) ∧
    ∀ x, x ∈ nodes ↔ x ∈ l ∧ s.isFree x = true ∧ s.size x = minBlockSize * 2 ^ k
  beyond : ∀ k, maxOrder < k → s.freeLists k = 0

/-- No two free blocks are buddies of an order below `MAX_ORDER`. -/
def Coalesced (s : State) (B : Set Nat) : Prop :=
  ∀ k < maxOrder, ∀ x ∈ FreeOf s B ∅ k, getBuddy s x k ∉ FreeOf s B ∅ k

theorem blockSize_eq_mul (k : Nat) : blockSize k = minBlockSize * 2 ^ k := Nat.shiftLeft_eq minBlockSize k

theorem mem_freeOf_list : x ∈ FreeOf s {y | y ∈ l} ∅ k ↔
    x ∈ l ∧ s.isFree x = true ∧ s.size x = minBlockSize * 2 ^ k := by
  rw [mem_freeOf, ← blockSize_eq_mul]
  simp

/-- Above the largest order there is no block. -/
theorem freeOf_beyond (sizes : ∀ x ∈ B, ∃ j ≤ maxOrder, s.size x = blockSize j) (above : maxOrder < k) :
    FreeOf s B ∅ k = ∅ := by
  ext x
  constructor
  · rintro ⟨hx, -, -, size⟩
    obtain ⟨j, order, size'⟩ := sizes x hx
    have := blockSize_inj (size.symm.trans size')
    omega
  · exact fun none => none.elim

namespace HeapWellFormed

/-- Each free list in the local view. -/
theorem linked (h : HeapWellFormed s l) (k : Nat) : Linked s.next s.prev 0 (FreeOf s {x | x ∈ l} ∅ k) ∧
    Heads s.prev 0 (FreeOf s {x | x ∈ l} ∅ k) (s.freeLists k) ∧
    Covers s.prev 0 (FreeOf s {x | x ∈ l} ∅ k) (s.freeLists k) := by
  by_cases order : k ≤ maxOrder
  · obtain ⟨nodes, dll, sorted, all⟩ := h.lists k order
    exact dll.linked sorted fun x => (all x).trans mem_freeOf_list.symm
  · have none : FreeOf s {x | x ∈ l} ∅ k = ∅ := by
      refine freeOf_beyond (fun x hx => ?_) (not_le.mp order)
      obtain ⟨j, le, size, -⟩ := h.sizes x hx
      exact ⟨j, le, size.trans (blockSize_eq_mul j).symm⟩
    rw [none, h.beyond k (not_le.mp order)]
    exact ⟨linked_empty, .inl rfl, fun x hx => hx.elim⟩

/-- A heap with a block was set up. -/
theorem heapEnd_eq (h : HeapWellFormed s l) (hx : x ∈ l) :
    s.heapBase ≠ 0 ∧ s.heapEnd = s.heapBase + totalHeapSize := by
  have tiles := h.walk.tiles
  have low := tiles.lower x hx
  have high := tiles.upper x hx
  have pos := tiles.pos x hx
  have up : ¬(s.heapBase = 0 ∨ s.heapBase = failed) := fun none => by
    have stop : s.heapEnd = s.heapBase := if_pos none
    omega
  exact ⟨fun e => up (.inl e), if_neg up⟩

/-- **A well-formed heap satisfies the invariant**, with complete free lists. -/
theorem inv (h : HeapWellFormed s l) : HeapInv True s s.heapEnd {x | x ∈ l} ∅ := by
  have tiles := h.walk.tiles
  refine ⟨tiles, fun x hx => ?_, ?_, fun x hx => ?_, fun x hx => ?_, h.heap, fun k => (h.linked k).1,
    fun k => (h.linked k).2.1, fun _ k => (h.linked k).2.2, Set.empty_subset _⟩
  · obtain ⟨k, order, size, dvd⟩ := h.sizes x hx
    rw [← blockSize_eq_mul, blockSize_eq] at size
    exact ⟨k, order, size, size ▸ dvd⟩
  · rw [blockSize_maxOrder]
    unfold State.heapEnd
    split_ifs
    · rw [Nat.sub_self]
      exact Nat.dvd_zero _
    · rw [Nat.add_sub_cancel_left]
      decide
  · have := (h.heapEnd_eq hx).1
    have := tiles.lower x hx
    omega
  · have := tiles.upper x hx
    have := h.room
    omega

end HeapWellFormed

theorem HeapInv.heapEnd_lt (h : HeapInv listed s s.heapEnd B D) : s.heapEnd < 2 ^ 64 := by
  by_cases none : s.heapBase = 0 ∨ s.heapBase = failed
  · have stop : s.heapEnd = s.heapBase := if_pos none
    rw [stop]
    rcases none with e | e
    · rw [e]
      decide
    · rw [e]
      decide
  · have stop : s.heapEnd = s.heapBase + totalHeapSize := if_neg none
    have total : totalHeapSize = 4194304 := rfl
    obtain ⟨x, hx, -, last⟩ := h.tiles.cover (s.heapEnd - 1) (by omega) (by omega)
    have := h.lt x hx
    omega

/-- The invariant with complete free lists is well-formedness. -/
theorem HeapInv.wellFormed (h : HeapInv True s s.heapEnd B ∅) : ∃ l, HeapWellFormed s l ∧ B = {x | x ∈ l} := by
  obtain ⟨l, walk, -, all⟩ := h.tiles.exists_walk
  have blocks : B = {x | x ∈ l} := Set.ext fun x => (all x).symm
  subst blocks
  refine ⟨l, ⟨walk, h.heapEnd_lt, fun x hx => ?_, h.notMmap, fun k order => ?_, fun k above => ?_⟩, rfl⟩
  · obtain ⟨k, order, size, dvd⟩ := h.size_cases hx
    exact ⟨k, order, size.trans (blockSize_eq_mul k), size ▸ dvd⟩
  · obtain ⟨nodes, list, mem⟩ := h.completeList k
    exact ⟨nodes, list.list, list.ascending, fun x => (mem x).trans mem_freeOf_list⟩
  · have none : FreeOf s {x | x ∈ l} ∅ k = ∅ := by
      refine freeOf_beyond (fun x hx => ?_) above
      obtain ⟨j, order, size, -⟩ := h.size_cases hx
      exact ⟨j, order, size⟩
    rcases h.heads k with null | ⟨mem, -⟩
    · exact null
    · rw [none] at mem
      exact mem.elim

end OsProjects.Malloc.Buddy
