import OsProjects.Malloc.Run

/-!
# The layout of the heap in every run

What the invariant says about the heap as the code sees it: walking from
`heap_base` in steps of `size` meets the blocks, and following `next` from
`free_lists[k]` meets the free blocks of order `k`. The first holds in every
reachable world. The second is lost with the first block that `buddy_alloc` has to
split.
-/

namespace OsProjects.Malloc.Buddy

open Links Tiling

variable {listed : Prop} {ed : Edition} {os : Os} {s : State} {w : World} {x : Nat} {B : Set Nat} {M : List Nat}

/-- `l` are the blocks met by walking the heap from `heap_base` in steps of `size`, and
the walk ends at the end of the heap. -/
def HeapWalk (s : State) (l : List Nat) : Prop := Walk s.size (s.heapBase + totalHeapSize) s.heapBase l

theorem Inv.heapWalk (inv : Inv listed s B M) (up : s.heapBase ≠ 0 ∧ s.heapBase ≠ failed) :
    ∃ l, HeapWalk s l ∧ ∀ x, x ∈ l ↔ x ∈ B := by
  have stop : s.heapEnd = s.heapBase + totalHeapSize := if_neg (not_or.mpr up)
  obtain ⟨l, walk, -, all⟩ := inv.heap.tiles.exists_walk
  rw [stop] at walk
  exact ⟨l, walk, all⟩

/-- The heap as the client may rely on it: `l` are its blocks. -/
structure Tiled (w : World) (l : List Nat) : Prop where
  walk : HeapWalk w.st l
  sizes : ∀ x ∈ l, ∃ k ≤ maxOrder, w.st.size x = minBlockSize * 2 ^ k ∧ w.st.size x ∣ x - w.st.heapBase
  live : ∀ p ∈ w.live, w.st.isMmap (metaFromPtr p) = false →
    ∃! x, x ∈ l ∧ p = x + metaSize ∧ w.st.isFree x = false ∧ w.st.isMmap x = false
  mapped : ∀ p ∈ w.live, w.st.isMmap (metaFromPtr p) = true →
    (metaFromPtr p, metaSize + w.st.size (metaFromPtr p)) ∈ w.st.mapped
  distinct : ∀ p ∈ w.live, ∀ q ∈ w.live, p ≠ q → metaFromPtr p ≠ metaFromPtr q
  free : ∀ x ∈ l, (∀ p ∈ w.live, p ≠ x + metaSize) → w.st.isFree x = true
  apart : ∀ p ∈ w.live, ∀ q ∈ w.live, p ≠ q →
    metaFromPtr p + w.st.extent (metaFromPtr p) ≤ metaFromPtr q ∨
      metaFromPtr q + w.st.extent (metaFromPtr q) ≤ metaFromPtr p

theorem Good.tiled (good : Good listed w) (up : w.st.heapBase ≠ 0 ∧ w.st.heapBase ≠ failed) : ∃ l, Tiled w l := by
  obtain ⟨B, M, inv, live⟩ := good
  obtain ⟨l, walk, all⟩ := inv.heapWalk up
  have block : ∀ p ∈ w.live, ∃ x ∈ Held w.st B M, p = ptrFromMeta x ∧ metaFromPtr p = x := by
    intro p hp
    obtain ⟨x, hx, rfl⟩ := (live p).mp hp
    exact ⟨x, hx, rfl, metaFromPtr_ptrFromMeta x⟩
  refine ⟨l, walk, fun x hx => ?_, fun p hp heap => ?_, fun p hp mmap => ?_, fun p hp q hq ne e => ?_,
    fun x hx dead => ?_, fun p hp q hq ne => ?_⟩
  · obtain ⟨k, order, size, dvd⟩ := inv.heap.size_cases ((all x).mp hx)
    refine ⟨k, order, ?_, size ▸ dvd⟩
    rw [size, blockSize, Nat.shiftLeft_eq]
  · obtain ⟨x, hx, rfl, e⟩ := block p hp
    rw [e] at heap
    have inHeap : x ∈ B := by
      rcases hx with ⟨hx, -⟩ | hx
      · exact hx
      · rw [inv.maps.isMmap x hx] at heap
        exact Bool.noConfusion heap
    refine ⟨x, ⟨(all x).mpr inHeap, rfl, inv.held_flag hx, heap⟩, ?_⟩
    rintro y ⟨-, same, -⟩
    exact (ptrFromMeta_inj same).symm
  · obtain ⟨x, hx, rfl, e⟩ := block p hp
    rw [e] at mmap ⊢
    rw [inv.maps.mapped]
    refine List.mem_map.mpr ⟨x, ?_, rfl⟩
    rcases hx with ⟨hx, -⟩ | hx
    · rw [inv.heap.notMmap x hx] at mmap
      exact Bool.noConfusion mmap
    · exact hx
  · obtain ⟨x, -, rfl, ex⟩ := block p hp
    obtain ⟨y, -, rfl, ey⟩ := block q hq
    rw [ex, ey] at e
    exact ne (by rw [e])
  · by_contra notFree
    have held : x ∈ Held w.st B M := .inl ⟨(all x).mp hx, Bool.eq_false_iff.mpr notFree⟩
    exact dead (ptrFromMeta x) ((live _).mpr ⟨x, held, rfl⟩) rfl
  · obtain ⟨x, hx, rfl, ex⟩ := block p hp
    obtain ⟨y, hy, rfl, ey⟩ := block q hq
    rw [ex, ey]
    exact inv.apart (Inv.blocks_of_held hx) (Inv.blocks_of_held hy) fun e => ne (by rw [e])

/-- **The heap stays tiled.** In every world reached after the initialisation the
heap is a sequence of aligned power-of-two blocks, the live pointers are exactly
the allocated ones, and no two live allocations overlap. Every further call
returns. -/
theorem heap_tiled (reach : Reachable .malloc3 (HeapStep .malloc3) w) (init : w.st.initialized = true) :
    (∃ l, Tiled w l) ∧
      ∀ os call, HeapStep .malloc3 w os call → ∃ p w', exec .malloc3 os call w = some (p, w') := by
  have good := reach.good fun _ _ _ step => step.permitted
  refine ⟨good.tiled (reach.heapUp (fun _ _ _ step => step) init), fun os call step => ?_⟩
  obtain ⟨p, w', run, -⟩ := good.exec step.permitted
  exact ⟨p, w', run⟩

/-- The first call of a program that allocates one byte. -/
theorem first_step (mem : Mem) (ed : Edition) (size : Nat) (lt : size < 2 ^ 64) :
    HeapStep ed (World.start mem) sampleOs (.smalloc size) where
  permitted := ⟨sampleOs_sound rfl (.inl rfl), lt⟩
  sbrk _ := sampleOs_sbrk ed
  plain _ _ e := nomatch e

theorem heap_tiled_first : ∃ w, Reachable .malloc3 (HeapStep .malloc3) w ∧ w.st.initialized = true ∧ ∃ l, Tiled w l := by
  have step := first_step (fun _ => 0) .malloc3 1 (by decide)
  obtain ⟨x, s₁, B₁, s', B', M', run, -, -, -, req⟩ :=
    (Inv.start fun _ => 0).smalloc step.permitted.sound .malloc3 (by decide : ¬Refused 1)
  have reach := (Reachable.start fun _ => 0).step step (exec_smalloc run)
  exact ⟨_, reach, req.init, (heap_tiled reach req.init).1⟩

/-! ## The free lists -/

/-- Every free block of order `k` met by the heap walk is on `free_lists[k]`, the list
is ascending and has no other node. -/
def ListsComplete (s : State) : Prop :=
  ∃ l, HeapWalk s l ∧ ∀ k ≤ maxOrder, ∃ nodes, Chain s.next 0 (s.freeLists k) nodes ∧ nodes.Pairwise (· < ·) ∧
    ∀ x, x ∈ nodes ↔ x ∈ l ∧ s.isFree x = true ∧ s.size x = minBlockSize * 2 ^ k

theorem Inv.listsComplete (inv : Inv True s B M) (up : s.heapBase ≠ 0 ∧ s.heapBase ≠ failed) : ListsComplete s := by
  obtain ⟨l, walk, all⟩ := inv.heapWalk up
  refine ⟨l, walk, fun k _ => ?_⟩
  obtain ⟨nodes, list, mem⟩ := inv.heap.completeList k
  refine ⟨nodes, list.list.chain, list.ascending, fun x => ?_⟩
  rw [mem, mem_freeOf, all, blockSize, Nat.shiftLeft_eq]
  simp

/-- **The free lists are complete as long as no block is split.** Every world reached
by calls that find a block of the right order, or none at all, has complete and
ascending free lists. -/
theorem free_lists_complete
    (reach : Reachable .malloc3 (fun w os call => HeapStep .malloc3 w os call ∧ NoSplitCall w call) w) :
    (w.st.initialized = true → ListsComplete w.st) ∧
      (w.st.initialized = false → ∀ k, w.st.freeLists k = 0) := by
  obtain ⟨B, M, inv, -⟩ := reach.complete (fun _ _ _ ok => ok.1.permitted) fun _ _ _ ok => ok.2
  exact ⟨fun init => inv.listsComplete (reach.heapUp (fun _ _ _ ok => ok.1) init), fun fresh => (inv.boot fresh).2.2⟩

theorem free_lists_complete_first :
    ∃ w, Reachable .malloc3 (fun w os call => HeapStep .malloc3 w os call ∧ NoSplitCall w call) w ∧
      w.st.initialized = true ∧ ListsComplete w.st := by
  have step := first_step (fun _ => 0) .malloc3 131040 (by decide)
  have whole : NoSplitCall (World.start fun _ => 0) (.smalloc 131040) := fun _ _ => by
    change sizeToOrder 131040 = maxOrder
    decide
  obtain ⟨x, s₁, B₁, s', B', M', run, -, -, -, req⟩ :=
    (Inv.start fun _ => 0).smalloc step.permitted.sound .malloc3 (by decide : ¬Refused 131040)
  have reach : Reachable .malloc3 (fun w os call => HeapStep .malloc3 w os call ∧ NoSplitCall w call) _ :=
    (Reachable.start fun _ => 0).step ⟨step, whole⟩ (exec_smalloc run)
  exact ⟨_, reach, req.init, (free_lists_complete reach).1 req.init⟩

/-- A free block whose list is empty. -/
theorem not_listsComplete {k : Nat} (inv : Inv listed s B M) (up : s.heapBase ≠ 0 ∧ s.heapBase ≠ failed)
    (order : k ≤ maxOrder) (empty : s.freeLists k = 0) (free : (FreeOf s B ∅ k).Nonempty) : ¬ListsComplete s := by
  rintro ⟨l, walk, lists⟩
  obtain ⟨nodes, chain, -, mem⟩ := lists k order
  obtain ⟨x, hx, -, isFree, size⟩ := free
  obtain ⟨l', walk', all⟩ := inv.heapWalk up
  obtain rfl := walk.unique walk'
  have listed : x ∈ nodes := by
    rw [mem, all]
    exact ⟨hx, isFree, by rw [size, blockSize, Nat.shiftLeft_eq]⟩
  cases nodes with
  | nil => exact absurd listed List.not_mem_nil
  | cons y nodes => exact chain.2.1 (chain.1.symm.trans empty)

/-- **Every split breaks the lists**: the upper half of the last split is on no list. -/
theorem smalloc_split_breaks {size : Nat} (inv : Inv listed s B M) (up : HeapUp s) (sound : Sound os s)
    (sbrk : s.initialized = false → SbrkSucceeds ed os) (ok : ¬Refused size) (lt : size < mmapThreshold)
    (split : ¬NoSplit s size) :
    ∃ p s', smalloc ed os size s = some (p, s') ∧ s'.initialized = true ∧ ¬ListsComplete s' := by
  obtain ⟨x, s₁, B₁, s', B', M', run, -, boot, inv', req⟩ := inv.smalloc sound ed ok
  obtain ⟨empty, free⟩ := req.split lt split sbrk
  exact ⟨userPtr x, s', run, req.init,
    not_listsComplete inv' (req.base ▸ boot.heapUp sbrk up) (sizeToOrder_le size) empty free⟩

theorem free_lists_incomplete_first :
    ∃ w, Reachable .malloc3 (HeapStep .malloc3) w ∧ w.st.initialized = true ∧ ¬ListsComplete w.st := by
  have step := first_step (fun _ => 0) .malloc3 1 (by decide)
  have split : ¬NoSplit (State.start fun _ => 0) 1 := by
    change sizeToOrder 1 ≠ maxOrder
    decide
  obtain ⟨p, s', run, init, broken⟩ := smalloc_split_breaks (Inv.start fun _ => 0) (fun e => nomatch e)
    step.permitted.sound step.sbrk (by decide : ¬Refused 1) (by decide) split
  exact ⟨_, (Reachable.start fun _ => 0).step step (exec_smalloc run), init, broken⟩

end OsProjects.Malloc.Buddy
