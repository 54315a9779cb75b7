import OsProjects.Malloc.Fit

/-!
# The statistics functions

`count_all_buddy` walks the heap and the other loops follow a list, adding on
`size_t`. No sum overflows: the blocks and regions are disjoint ranges of the
address space. A heap block's `size` includes its metadata and an mmap block's does
not; with the metadata added back, the statistics account for every byte obtained
from the operating system.
-/

namespace OsProjects.Malloc.Buddy

open Links Tiling

variable {listed : Prop} {s : State} {w : World} {B : Set Nat} {M l : List Nat} {p stop blocks bytes acc : Nat}

/-! ## The loops -/

/-- The walk of `count_all_buddy` ends at the end of the heap and has counted every
block. The induction is on the blocks left. -/
theorem countWalk_eq {mem : Mem} (walk : Walk (fun x => (mem.header x).size) stop p l)
    (large : ∀ x ∈ l, metaSize ≤ (mem.header x).size) (lt : stop < 2 ^ 64) (room : blocks + l.length < 2 ^ 64)
    (sum : bytes + (l.map fun x => (mem.header x).size - metaSize).sum < 2 ^ 64) :
    countWalk mem p stop blocks bytes =
      some (stop, blocks + l.length, bytes + (l.map fun x => (mem.header x).size - metaSize).sum) := by
  induction l generalizing p blocks bytes with
  | nil =>
    obtain rfl : p = stop := walk
    rw [countWalk, if_neg (lt_irrefl p)]
    rfl
  | cons x l ih =>
    obtain ⟨rfl, below, pos, rest⟩ := walk
    have le := rest.sum_eq
    simp only at le below pos
    have big := large p List.mem_cons_self
    simp only [List.length_cons, List.map_cons, List.sum_cons] at room sum ⊢
    have sub : subSize (mem.header p).size metaSize = (mem.header p).size - metaSize :=
      subSize_of_le big (Mem.header_size_lt mem p)
    rw [countWalk, if_pos below, if_neg pos.ne', sub, Nat.mod_eq_of_lt (by omega), Nat.mod_eq_of_lt (by omega),
      Nat.mod_eq_of_lt (by omega), ih rest (fun y hy => large y (List.mem_cons_of_mem p hy)) (by omega) (by omega)]
    congr 3
    · omega
    · omega

/-- A loop over a linked list. -/
theorem sumList_eq {mem : Mem} {weight : MallocMetadata → Nat} (chain : Chain (fun x => (mem.header x).next) 0 p l)
    (sum : acc + (l.map fun x => weight (mem.header x)).sum < 2 ^ 64) :
    sumList mem weight p acc = some (acc + (l.map fun x => weight (mem.header x)).sum) := by
  induction l generalizing p acc with
  | nil =>
    obtain rfl : p = 0 := chain
    rw [sumList, if_pos rfl]
    rfl
  | cons x l ih =>
    obtain ⟨rfl, pos, rest⟩ := chain
    simp only [List.map_cons, List.sum_cons] at sum ⊢
    rw [sumList, if_neg pos, Nat.mod_eq_of_lt (by omega), ih rest (by omega), Nat.add_assoc]

/-! ## The bytes of all blocks -/

/-- The blocks of the heap and the mapped regions fit into the address space. -/
theorem Inv.sum_extent_lt (inv : Inv listed s B M) (walk : HeapWalk s l) (all : ∀ x, x ∈ l ↔ x ∈ B) :
    (l.map s.size).sum = totalHeapSize ∧
      totalHeapSize + (M.map fun x => metaSize + s.size x).sum < 2 ^ 64 := by
  have heap : (l.map s.size).sum = totalHeapSize := by
    have := walk.sum_eq
    omega
  have nodup : (l ++ M).Nodup := by
    refine List.nodup_append.mpr ⟨walk.sorted.1.imp Nat.ne_of_lt, inv.maps.nodup, fun x hx y hy e => ?_⟩
    exact inv.notMem_map ((all x).mp hx) (e ▸ hy)
  have blocks : ∀ x ∈ l ++ M, x ∈ B ∨ x ∈ M := fun x hx => (List.mem_append.mp hx).imp_left (all x).mp
  have whole : ((l ++ M).map s.extent).sum ≤ 2 ^ 64 - 1 := by
    refine sum_le_of_apart nodup (fun x hx y hy ne => inv.apart (blocks x hx) (blocks y hy) ne) fun x hx => ?_
    have := inv.lt (blocks x hx)
    omega
  have left : l.map s.extent = l.map s.size := List.map_congr_left fun x hx => inv.extent_heap ((all x).mp hx)
  have right : M.map s.extent = M.map fun x => metaSize + s.size x :=
    List.map_congr_left fun x hx => inv.extent_map hx
  rw [List.map_append, List.sum_append, left, right, heap] at whole
  exact ⟨heap, by omega⟩

/-! ## The functions -/

/-- What the statistics count when the heap is up: the blocks of the heap walk `l` and
of the mmap list. -/
structure Counted (s : State) (l M : List Nat) : Prop where
  walk : ∃ blocks bytes,
    countWalk s.mem s.heapBase ((s.heapBase + totalHeapSize) % 2 ^ 64) 0 0 = some (s.heapBase + totalHeapSize, blocks, bytes)
  blocks : numAllocatedBlocks s = some (l.length + M.length)
  bytes : numAllocatedBytes s = some ((l.map fun x => s.size x - metaSize).sum + (M.map s.size).sum)
  metaData : numMetaDataBytes s = some ((l.length + M.length) * metaSize)

/-- Taking the metadata off every block of a list. -/
theorem sum_sub_meta {f : Nat → Nat} (large : ∀ x ∈ l, metaSize ≤ f x) :
    (l.map fun x => f x - metaSize).sum + l.length * metaSize = (l.map f).sum := by
  induction l with
  | nil => rfl
  | cons x l ih =>
    have := ih fun y hy => large y (List.mem_cons_of_mem x hy)
    have := large x List.mem_cons_self
    simp only [List.map_cons, List.sum_cons, List.length_cons, Nat.succ_mul]
    omega

/-- `count_all_buddy` of a heap that is up. -/
theorem Inv.countWalk (inv : Inv listed s B M) (up : s.heapBase ≠ 0 ∧ s.heapBase ≠ failed) (walk : HeapWalk s l)
    (all : ∀ x, x ∈ l ↔ x ∈ B) : countWalk s.mem s.heapBase ((s.heapBase + totalHeapSize) % 2 ^ 64) 0 0 =
      some (s.heapBase + totalHeapSize, l.length, (l.map fun x => s.size x - metaSize).sum) := by
  obtain ⟨heap, room⟩ := inv.sum_extent_lt walk all
  have word : metaSize = 32 := rfl
  have large : ∀ x ∈ l, metaSize ≤ s.size x := fun x hx => by
    have := inv.heap.le_size ((all x).mp hx)
    omega
  have sub := sum_sub_meta large
  have short : l.length ≤ l.length * metaSize := Nat.le_mul_of_pos_right _ (by decide)
  have stop : s.heapBase + totalHeapSize < 2 ^ 64 := by
    have first : s.heapBase + totalHeapSize = s.heapEnd := (if_neg (not_or.mpr up)).symm
    have tiles := inv.heap.tiles
    rw [← first] at tiles
    have below : s.heapBase < s.heapBase + totalHeapSize := Nat.lt_add_of_pos_right (by decide)
    -- the last address of the heap lies in a block, which ends below `2 ^ 64`
    obtain ⟨x, hx, -, lt⟩ := tiles.cover (s.heapBase + totalHeapSize - 1) (by omega) (by omega)
    have := inv.heap.lt x hx
    omega
  rw [Nat.mod_eq_of_lt stop, countWalk_eq walk large stop (by omega) (by
    change 0 + (l.map fun x => s.size x - metaSize).sum < _
    omega)]
  simp only [Nat.zero_add]

theorem Inv.countAllBuddy (inv : Inv listed s B M) (up : s.heapBase ≠ 0 ∧ s.heapBase ≠ failed) (walk : HeapWalk s l)
    (all : ∀ x, x ∈ l ↔ x ∈ B) :
    countAllBuddy s = some (l.length, (l.map fun x => s.size x - metaSize).sum) := by
  rw [Buddy.countAllBuddy, if_neg up.1, inv.countWalk up walk all]
  rfl

theorem Inv.counted (inv : Inv listed s B M) (up : s.heapBase ≠ 0 ∧ s.heapBase ≠ failed) (walk : HeapWalk s l)
    (all : ∀ x, x ∈ l ↔ x ∈ B) : Counted s l M := by
  obtain ⟨heap, room⟩ := inv.sum_extent_lt walk all
  have word : metaSize = 32 := rfl
  have sub := sum_sub_meta (l := l) (f := s.size) fun x hx => by
    have := inv.heap.le_size ((all x).mp hx)
    omega
  have add := sum_add_meta s.size M
  have short : ∀ k : List Nat, k.length ≤ k.length * metaSize := fun k => Nat.le_mul_of_pos_right _ (by decide)
  have shortHeap := short l
  have shortMaps := short M
  have buddy := inv.countAllBuddy up walk all
  have ones : (M.map fun x => (fun _ : MallocMetadata => 1) (s.mem.header x)).sum = M.length := by simp
  have blocks : numAllocatedBlocks s = some (l.length + M.length) := by
    unfold numAllocatedBlocks
    rw [buddy]
    change sumList s.mem (fun _ => 1) s.mmapList l.length = _
    rw [sumList_eq inv.maps.dll.chain (by rw [ones]; omega), ones]
  refine ⟨⟨_, _, inv.countWalk up walk all⟩, blocks, ?_, ?_⟩
  · unfold numAllocatedBytes
    rw [buddy]
    change sumList s.mem (fun h => h.size) s.mmapList _ = _
    exact sumList_eq inv.maps.dll.chain (by
      change (l.map fun x => s.size x - metaSize).sum + (M.map s.size).sum < _
      omega)
  · unfold numMetaDataBytes
    rw [blocks]
    change some _ = _
    rw [Nat.mod_eq_of_lt (by rw [Nat.add_mul]; omega)]

/-- **Byte conservation.** In every world reached after the initialisation the walk of
`count_all_buddy` stops exactly at the end of the heap, and allocated and metadata
bytes together are the heap and the lengths of the regions that are mapped. -/
theorem bytes_conserved (reach : Reachable .malloc3 (HeapStep .malloc3) w) (init : w.st.initialized = true) :
    (∃ blocks bytes, countWalk w.st.mem w.st.heapBase ((w.st.heapBase + totalHeapSize) % 2 ^ 64) 0 0 =
        some (w.st.heapBase + totalHeapSize, blocks, bytes)) ∧
      ∃ allocated metaData, numAllocatedBytes w.st = some allocated ∧ numMetaDataBytes w.st = some metaData ∧
        allocated + metaData = 32 * (128 * 1024) + (w.st.mapped.map Prod.snd).sum := by
  obtain ⟨B, M, inv, -⟩ := reach.good fun _ _ _ step => step.permitted
  have up := reach.heapUp (fun _ _ _ step => step) init
  obtain ⟨l, walk, all⟩ := inv.heapWalk up
  have counted := inv.counted up walk all
  obtain ⟨heap, -⟩ := inv.sum_extent_lt walk all
  have word : metaSize = 32 := rfl
  have sub := sum_sub_meta (l := l) (f := w.st.size) fun x hx => by
    have := inv.heap.le_size ((all x).mp hx)
    omega
  have add := sum_add_meta w.st.size M
  have regions : (w.st.mapped.map Prod.snd).sum = (M.map fun x => metaSize + w.st.size x).sum := by
    rw [inv.maps.mapped, List.map_map]
    rfl
  have total : totalHeapSize = 32 * (128 * 1024) := rfl
  refine ⟨counted.walk, _, _, counted.bytes, counted.metaData, ?_⟩
  rw [regions, Nat.add_mul]
  omega

theorem bytes_conserved_first : ∃ w, Reachable .malloc3 (HeapStep .malloc3) w ∧ w.st.initialized = true ∧
    ∃ allocated metaData, numAllocatedBytes w.st = some allocated ∧ numMetaDataBytes w.st = some metaData ∧
      allocated + metaData = 32 * (128 * 1024) + (w.st.mapped.map Prod.snd).sum := by
  have step := first_step (fun _ => 0) .malloc3 1 (by decide)
  obtain ⟨x, s₁, B₁, s', B', M', run, -, -, -, req⟩ :=
    (Inv.start fun _ => 0).smalloc step.permitted.sound .malloc3 (by decide : ¬Refused 1)
  have reach := (Reachable.start fun _ => 0).step step (exec_smalloc run)
  exact ⟨_, reach, req.init, (bytes_conserved reach req.init).2⟩

end OsProjects.Malloc.Buddy
