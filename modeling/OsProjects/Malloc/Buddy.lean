import OsProjects.Malloc.Metadata

/-!
# The buddy allocators

The code of malloc_3.cpp and malloc_4.cpp. The two files share their free lists,
the splitting and merging of blocks, the unlinking of mmap blocks and the
statistics; malloc_4 adds the flag `is_huge` and the huge-page rules. `Edition`
says which file a function is taken from wherever they differ.

The loops over a linked list and over the heap have no bound of their own, so
they are least fixed points in `Option`: `none` is a loop that never ends. The
loops over orders run at most `MAX_ORDER` times and recurse on the orders left.
-/

namespace OsProjects.Mem

open Malloc

/-! ## The loops over the memory -/

/-- The search loop of `fl_insert`: `while (cur->next && cur->next < m) cur = cur->next;`. -/
def flSeek (mem : Mem) (m cur : Nat) : Option Nat :=
  if (mem.header cur).next ≠ 0 ∧ (mem.header cur).next < m then mem |>.flSeek m (mem.header cur).next
  else some cur
partial_fixpoint

/-- `for (m = p; m; m = m->next) acc += weight(m);` on `size_t`. -/
def sumList (mem : Mem) (weight : MallocMetadata → Nat) (p acc : Nat) : Option Nat :=
  if p = 0 then some acc
  else mem |>.sumList weight (mem.header p).next ((acc + weight (mem.header p)) % 2 ^ 64)
partial_fixpoint

/-- The loop of `count_all_buddy`: the final pointer, the blocks and the bytes. -/
def countWalk (mem : Mem) (ptr stop blocks bytes : Nat) : Option (Nat × Nat × Nat) :=
  if ptr < stop then
    if (mem.header ptr).size = 0 then some (ptr, blocks, bytes)
    else
      mem |>.countWalk ((ptr + (mem.header ptr).size) % 2 ^ 64) stop ((blocks + 1) % 2 ^ 64)
        ((bytes + subSize (mem.header ptr).size metaSize) % 2 ^ 64)
  else some (ptr, blocks, bytes)
partial_fixpoint

end OsProjects.Mem

namespace OsProjects.Malloc.Buddy

export Mem (flSeek sumList countWalk)

/-- The source file a function is taken from. -/
inductive Edition where
  | malloc3
  | malloc4
  deriving DecidableEq

/-- `MAX_ORDER`. -/
def maxOrder : Nat := 10

/-- `MIN_BLOCK_SIZE`. -/
def minBlockSize : Nat := 128

/-- `INITIAL_BLOCKS`. -/
def initialBlocks : Nat := 32

/-- `MMAP_THRESHOLD`. -/
def mmapThreshold : Nat := 128 * 1024

/-- `TOTAL_HEAP_SIZE`. -/
def totalHeapSize : Nat := initialBlocks * mmapThreshold

/-- `HUGEPAGE_SMALLOC` (malloc_4). -/
def hugepageSmalloc : Nat := 4 * 1024 * 1024

/-- `HUGEPAGE_SCALLOC` (malloc_4). -/
def hugepageScalloc : Nat := 2 * 1024 * 1024

/-- `HUGEPAGE_SIZE` (malloc_4). -/
def hugepageSize : Nat := 2 * 1024 * 1024

/-- Memory and the static variables of the file. `mapped` is the operating
system's side: the regions mapped and not yet unmapped, with their lengths. -/
structure State where
  mem : Mem
  freeLists : Nat → Nat
  mmapList : Nat
  heapBase : Nat
  initialized : Bool
  mapped : List (Nat × Nat)

/-- The program's start: static variables are zero, memory is arbitrary. -/
def State.start (mem : Mem) : State where
  mem := mem
  freeLists := fun _ => 0
  mmapList := 0
  heapBase := 0
  initialized := false
  mapped := []

/-- `block_size`. -/
def blockSize (order : Nat) : Nat := minBlockSize <<< order

/-- The order search of `size_to_order` and `get_order`, with `left` orders to go:
`while (bsz < needed && order < MAX_ORDER) { order++; bsz <<= 1; }`. -/
def orderSearch (needed : Nat) : (left order bsz : Nat) → Nat
  | 0, order, _ => order
  | left + 1, order, bsz => if bsz < needed then orderSearch needed left (order + 1) (bsz <<< 1) else order

/-- `size_to_order`. -/
def sizeToOrder (usableSize : Nat) : Nat :=
  orderSearch ((usableSize + metaSize) % 2 ^ 64) maxOrder 0 minBlockSize

/-- `get_order`. -/
def getOrder (s : State) (m : Nat) : Nat := orderSearch (s.mem.header m).size maxOrder 0 minBlockSize

/-! ## Free lists -/

/-- `fl_insert`. -/
def flInsert (order m : Nat) (s : State) : Option State :=
  let mem := ((s.mem.setIsFree m true).setNext m 0).setPrev m 0
  let head := s.freeLists order
  if head = 0 ∨ m < head then
    let mem := mem.setNext m head
    let mem := if head ≠ 0 then mem.setPrev head m else mem
    some { s with mem := mem, freeLists := Function.update s.freeLists order m }
  else do
    let cur ← flSeek mem m head
    let mem := mem.setNext m (mem.header cur).next
    let mem := mem.setPrev m cur
    let mem := if (mem.header cur).next ≠ 0 then mem.setPrev (mem.header cur).next m else mem
    let mem := mem.setNext cur m
    some { s with mem := mem }

/-- `fl_remove`. -/
def flRemove (order m : Nat) (s : State) : State :=
  let s :=
    if (s.mem.header m).prev ≠ 0 then
      { s with mem := s.mem.setNext (s.mem.header m).prev (s.mem.header m).next }
    else { s with freeLists := Function.update s.freeLists order (s.mem.header m).next }
  let mem := s.mem
  let mem := if (mem.header m).next ≠ 0 then mem.setPrev (mem.header m).next (mem.header m).prev else mem
  let mem := mem.setPrev m 0
  let mem := mem.setNext m 0
  { s with mem := mem }

/-- `get_buddy`. -/
def getBuddy (s : State) (m order : Nat) : Nat := s.heapBase + ((m - s.heapBase) ^^^ blockSize order)

/-! ## Initialisation -/

/-- The flags a new heap block gets besides `is_free`. -/
def clearFlags (ed : Edition) (mem : Mem) (m : Nat) : Mem :=
  match ed with
  | .malloc3 => mem.setIsMmap m false
  | .malloc4 => (mem.setIsMmap m false).setIsHuge m false

/-- One round of the loop of `buddy_init`. -/
def initBlock (ed : Edition) (i : Nat) (s : State) : Option State :=
  let m := s.heapBase + i * mmapThreshold
  let mem := (s.mem.setSize m mmapThreshold).setIsFree m true
  let mem := clearFlags ed mem m
  let mem := (mem.setNext m 0).setPrev m 0
  flInsert maxOrder m { s with mem := mem }

/-- The first `n` rounds of the loop of `buddy_init`. -/
def initBlocks (ed : Edition) : Nat → State → Option State
  | 0, s => some s
  | n + 1, s => do
    let s ← initBlocks ed n s
    initBlock ed n s

/-- `buddy_init`. malloc_3 gives up when the padding cannot be had; malloc_4 does
not look at the answer. -/
def buddyInit (ed : Edition) (os : Os) (s : State) : Option State :=
  if s.initialized then some s
  else
    let s := { s with initialized := true }
    let curAddr := (os.sbrk 0).getD failed
    let remainder := curAddr % totalHeapSize
    if ed = .malloc3 ∧ remainder ≠ 0 ∧ os.sbrk (totalHeapSize - remainder) = none then some s
    else
      match os.sbrk totalHeapSize with
      | none => some { s with heapBase := failed }
      | some base => initBlocks ed initialBlocks { s with heapBase := base }

/-! ## Splitting and merging -/

/-- `split_block`. -/
def splitBlock (ed : Edition) (m order : Nat) (s : State) : Option (Nat × State) := do
  let s := flRemove order m s
  let newOrder := order - 1
  let newSize := blockSize newOrder
  let mem := (s.mem.setSize m newSize).setIsFree m false
  let buddy := m + newSize
  let mem := (mem.setSize buddy newSize).setIsFree buddy true
  let mem := clearFlags ed mem buddy
  let mem := (mem.setNext buddy 0).setPrev buddy 0
  let s ← flInsert newOrder buddy { s with mem := mem }
  return (m, s)

/-- The splitting loop of `buddy_alloc`, from order `target + n` down to `target`. -/
def splitDown (ed : Edition) (target : Nat) : (n m : Nat) → State → Option (Nat × State)
  | 0, m, s => some (m, s)
  | n + 1, m, s => do
    let (m, s) ← splitBlock ed m (target + n + 1) s
    splitDown ed target n m s

/-- The outer loop of `buddy_alloc`: the first order from `ord` on, with `left`
orders to go, whose free list is not empty. -/
def firstOrder (s : State) : (left ord : Nat) → Option Nat
  | 0, _ => none
  | left + 1, ord => if s.freeLists ord = 0 then firstOrder s left (ord + 1) else some ord

/-- `buddy_alloc`. -/
def buddyAlloc (ed : Edition) (usableSize : Nat) (s : State) : Option (Nat × State) :=
  let target := sizeToOrder usableSize
  if maxOrder < target then some (0, s)
  else
    match firstOrder s (maxOrder + 1 - target) target with
    | none => some (0, s)
    | some ord => do
      let (m, s) ← splitDown ed target (ord - target) (s.freeLists ord) s
      let s := flRemove target m s
      return (m, { s with mem := s.mem.setIsFree m false })

/-- The test that stops a merging loop: the buddy is outside the heap, not free
or of another size. -/
def cannotMerge (s : State) (buddy order : Nat) : Bool :=
  decide (buddy < s.heapBase) || decide (s.heapBase + totalHeapSize ≤ buddy) ||
    !(s.mem.header buddy).isFree || decide ((s.mem.header buddy).size ≠ blockSize order)

/-- The loop of `buddy_free_and_merge`, with `left` orders to go: the merged block,
its order and the state. -/
def mergeUp : (left m order : Nat) → State → Nat × Nat × State
  | 0, m, order, s => (m, order, s)
  | left + 1, m, order, s =>
    let buddy := getBuddy s m order
    if cannotMerge s buddy order then (m, order, s)
    else
      let s := flRemove order buddy s
      let m := if buddy < m then buddy else m
      mergeUp left m (order + 1) { s with mem := s.mem.setSize m (blockSize (order + 1)) }

/-- `buddy_free_and_merge`. -/
def buddyFreeAndMerge (m : Nat) (s : State) : Option State :=
  let order := getOrder s m
  let (m, order, s) := mergeUp (maxOrder - order) m order s
  flInsert order m { s with mem := s.mem.setIsFree m true }

/-! ## mmap blocks -/

/-- `(x + align - 1) & ~(align - 1)` on `size_t`. -/
def alignUp (x align : Nat) : Nat := (x + align - 1) % 2 ^ 64 &&& (2 ^ 64 - 1 - (align - 1))

/-- The flags of a new mmap block. -/
def mmapFlags (ed : Edition) (huge : Bool) (mem : Mem) (m : Nat) : Mem :=
  match ed with
  | .malloc3 => (mem.setIsFree m false).setIsMmap m true
  | .malloc4 => ((mem.setIsFree m false).setIsMmap m true).setIsHuge m huge

/-- A region of `total` bytes mapped at `m` becomes the first block of `mmap_list`. -/
def mmapEnlist (ed : Edition) (huge : Bool) (m total : Nat) (s : State) : State :=
  let mem := s.mem.setSize m (subSize total metaSize)
  let mem := mmapFlags ed huge mem m
  let mem := (mem.setNext m s.mmapList).setPrev m 0
  let mem := if s.mmapList ≠ 0 then mem.setPrev s.mmapList m else mem
  { s with mem := mem, mmapList := m, mapped := (m, total) :: s.mapped }

/-- `mmap_alloc` (malloc_3). -/
def mmapAlloc (os : Os) (usableSize : Nat) (s : State) : Nat × State :=
  let total := metaSize + usableSize
  let total := alignUp total os.pageSize
  match os.mmap false total with
  | none => (0, s)
  | some raw => (raw, mmapEnlist .malloc3 false raw total s)

/-- `mmap_alloc_internal` (malloc_4). -/
def mmapAllocInternal (os : Os) (usableSize : Nat) (hugepage : Bool) (s : State) : Nat × State :=
  let total := metaSize + usableSize
  let align := if hugepage then hugepageSize else os.pageSize
  let regular :=
    let total := alignUp total align
    match os.mmap false total with
    | none => (0, s)
    | some raw => (raw, mmapEnlist .malloc4 false raw total s)
  if hugepage then
    let rounded := alignUp total hugepageSize
    match os.mmap true rounded with
    | some raw => (raw, mmapEnlist .malloc4 true raw rounded s)
    | none => regular
  else regular

/-- `mmap_free`. -/
def mmapFree (m : Nat) (s : State) : State :=
  let s :=
    if (s.mem.header m).prev ≠ 0 then
      { s with mem := s.mem.setNext (s.mem.header m).prev (s.mem.header m).next }
    else { s with mmapList := (s.mem.header m).next }
  let mem := s.mem
  let mem := if (mem.header m).next ≠ 0 then mem.setPrev (mem.header m).next (mem.header m).prev else mem
  { s with mem := mem, mapped := s.mapped.erase (m, (metaSize + (mem.header m).size) % 2 ^ 64) }

/-! ## Public functions -/

/-- A block as the pointer given to the client. -/
def userPtr (m : Nat) : Nat := if m = 0 then 0 else ptrFromMeta m

/-- `smalloc`. The two files differ in the mmap helper. -/
def smalloc (ed : Edition) (os : Os) (size : Nat) (s : State) : Option (Nat × State) :=
  if size = 0 ∨ exceedsMax size then some (0, s)
  else do
    let s ← buddyInit ed os s
    if mmapThreshold ≤ size then
      let (m, s) :=
        match ed with
        | .malloc3 => mmapAlloc os size s
        | .malloc4 => mmapAllocInternal os size (decide (hugepageSmalloc ≤ size)) s
      return (userPtr m, s)
    else
      let (m, s) ← buddyAlloc ed size s
      return (userPtr m, s)

/-- `sfree`. -/
def sfree (p : Nat) (s : State) : Option State :=
  if p = 0 then some s
  else
    let m := metaFromPtr p
    if (s.mem.header m).isFree then some s
    else if (s.mem.header m).isMmap then some (mmapFree m s)
    else buddyFreeAndMerge m s

/-- The simulated merging of `srealloc`, with `left` orders to go: the first order
at which the merged block would hold `size` bytes. -/
def simulateMerge (size : Nat) (s : State) : (left cur ord : Nat) → Option Nat
  | 0, _, _ => none
  | left + 1, cur, ord =>
    let buddy := getBuddy s cur ord
    if cannotMerge s buddy ord then none
    else
      let cur := if buddy < cur then buddy else cur
      if size ≤ subSize (blockSize (ord + 1)) metaSize then some (ord + 1)
      else simulateMerge size s left cur (ord + 1)

/-- The actual merging of `srealloc`, `n` orders up from `mergeOrd`. -/
def mergeInto : (n merged mergeOrd : Nat) → State → Nat × State
  | 0, merged, _, s => (merged, s)
  | n + 1, merged, mergeOrd, s =>
    let b := getBuddy s merged mergeOrd
    let s := flRemove mergeOrd b s
    let merged := if b < merged then b else merged
    mergeInto n merged (mergeOrd + 1) { s with mem := s.mem.setSize merged (blockSize (mergeOrd + 1)) }

namespace Malloc3

/-- `scalloc` of malloc_3. -/
def scalloc (os : Os) (num size : Nat) (s : State) : Option (Nat × State) :=
  if num = 0 ∨ size = 0 then some (0, s)
  else
    let total := num * size % 2 ^ 64
    if exceedsMax total then some (0, s)
    else do
      let (ptr, s) ← smalloc .malloc3 os total s
      if ptr = 0 then return (0, s)
      else return (ptr, { s with mem := s.mem.memset ptr 0 total })

/-- `srealloc` of malloc_3. -/
def srealloc (os : Os) (oldp size : Nat) (s : State) : Option (Nat × State) :=
  if size = 0 ∨ exceedsMax size then some (0, s)
  else if oldp = 0 then smalloc .malloc3 os size s
  else
    let m := metaFromPtr oldp
    if (s.mem.header m).isMmap then
      if size ≤ (s.mem.header m).size then some (oldp, s)
      else do
        let (newp, s) ← smalloc .malloc3 os size s
        if newp = 0 then return (0, s)
        else
          let s := { s with mem := s.mem.memmove newp oldp (s.mem.header m).size }
          return (newp, mmapFree m s)
    else if size ≤ subSize (s.mem.header m).size metaSize ∧ metaSize + size ≤ (s.mem.header m).size then
      some (oldp, s)
    else
      let usable := subSize (s.mem.header m).size metaSize
      if size ≤ usable then some (oldp, s)
      else
        let origOrder := getOrder s m
        match simulateMerge size s (maxOrder - origOrder) m origOrder with
        | some ord =>
          let s := { s with mem := s.mem.setIsFree m true }
          let (merged, s) := mergeInto (ord - origOrder) m origOrder s
          let mem := s.mem.setIsFree merged false
          let mem :=
            if merged ≠ m then mem.memmove (ptrFromMeta merged) oldp (if usable < size then usable else size)
            else mem
          some (ptrFromMeta merged, { s with mem := mem })
        | none => do
          let (newp, s) ← smalloc .malloc3 os size s
          if newp = 0 then return (0, s)
          else
            let mem := s.mem.memmove newp oldp usable
            let mem := mem.setIsFree m false
            let s ← sfree oldp { s with mem := mem }
            return (newp, s)

end Malloc3

namespace Malloc4

/-- `scalloc` of malloc_4, which no longer goes through `smalloc`. -/
def scalloc (os : Os) (num size : Nat) (s : State) : Option (Nat × State) :=
  if num = 0 ∨ size = 0 then some (0, s)
  else
    let total := num * size % 2 ^ 64
    if exceedsMax total then some (0, s)
    else do
      let s ← buddyInit .malloc4 os s
      let (m, s) ←
        if mmapThreshold ≤ total then
          some (mmapAllocInternal os total (decide (hugepageScalloc < size)) s)
        else buddyAlloc .malloc4 total s
      if m = 0 then return (0, s)
      else
        let ptr := ptrFromMeta m
        return (ptr, { s with mem := s.mem.memset ptr 0 total })

/-- `srealloc` of malloc_4. -/
def srealloc (os : Os) (oldp size : Nat) (s : State) : Option (Nat × State) :=
  if size = 0 ∨ exceedsMax size then some (0, s)
  else if oldp = 0 then smalloc .malloc4 os size s
  else
    let m := metaFromPtr oldp
    if (s.mem.header m).isMmap then
      if size ≤ (s.mem.header m).size then some (oldp, s)
      else do
        let (newp, s) ← smalloc .malloc4 os size s
        if newp = 0 then return (0, s)
        else
          let s := { s with mem := s.mem.memmove newp oldp (s.mem.header m).size }
          return (newp, mmapFree m s)
    else
      let usable := subSize (s.mem.header m).size metaSize
      if size ≤ usable then some (oldp, s)
      else
        let origOrder := getOrder s m
        match simulateMerge size s (maxOrder - origOrder) m origOrder with
        | some ord =>
          let (merged, s) := mergeInto (ord - origOrder) m origOrder s
          let mem := s.mem.setIsFree merged false
          let mem := if merged ≠ m then mem.memmove (ptrFromMeta merged) oldp usable else mem
          some (ptrFromMeta merged, { s with mem := mem })
        | none => do
          let (newp, s) ← smalloc .malloc4 os size s
          if newp = 0 then return (0, s)
          else
            let mem := s.mem.memmove newp oldp usable
            let s ← sfree oldp { s with mem := mem }
            return (newp, s)

end Malloc4

/-! ## Statistics -/

/-- The sum of `weight` over the free lists of the orders `ord` to `MAX_ORDER`, with
`left` of them to go. -/
def sumOrders (s : State) (weight : MallocMetadata → Nat) : (left ord acc : Nat) → Option Nat
  | 0, _, acc => some acc
  | left + 1, ord, acc => do
    let acc ← sumList s.mem weight (s.freeLists ord) acc
    sumOrders s weight left (ord + 1) acc

/-- `_num_free_blocks`. -/
def numFreeBlocks (s : State) : Option Nat := sumOrders s (fun _ => 1) (maxOrder + 1) 0 0

/-- `_num_free_bytes`. -/
def numFreeBytes (s : State) : Option Nat := sumOrders s (fun h => subSize h.size metaSize) (maxOrder + 1) 0 0

/-- `count_all_buddy`: blocks and bytes. -/
def countAllBuddy (s : State) : Option (Nat × Nat) :=
  if s.heapBase = 0 then some (0, 0)
  else do
    let (_, blocks, bytes) ← countWalk s.mem s.heapBase ((s.heapBase + totalHeapSize) % 2 ^ 64) 0 0
    return (blocks, bytes)

/-- `_num_allocated_blocks`. -/
def numAllocatedBlocks (s : State) : Option Nat := do
  let (blocks, _) ← countAllBuddy s
  sumList s.mem (fun _ => 1) s.mmapList blocks

/-- `_num_allocated_bytes`. -/
def numAllocatedBytes (s : State) : Option Nat := do
  let (_, bytes) ← countAllBuddy s
  sumList s.mem (fun h => h.size) s.mmapList bytes

/-- `_num_meta_data_bytes`. -/
def numMetaDataBytes (s : State) : Option Nat := do
  let blocks ← numAllocatedBlocks s
  return blocks * metaSize % 2 ^ 64

/-- `_size_meta_data`. -/
def sizeMetaData : Nat := metaSize

end OsProjects.Malloc.Buddy
