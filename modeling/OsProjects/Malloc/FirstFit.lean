import OsProjects.Malloc.Metadata

/-!
# The first-fit allocator

The code of malloc_2.cpp: one list of all blocks, appended to with `sbrk` and
searched from the front. A block's `size` does not count its metadata.
-/

namespace OsProjects.Mem

/-! ## The loops over the list -/

/-- The loop of `find_free`. -/
def findFreeFrom (mem : Mem) (size m : Nat) : Option Nat :=
  if m = 0 then some 0
  else if (mem.header m).isFree = true ∧ size ≤ (mem.header m).size then some m
  else mem |>.findFreeFrom size (mem.header m).next
partial_fixpoint

/-- `while (tail->next) tail = tail->next;`. -/
def findTail (mem : Mem) (tail : Nat) : Option Nat :=
  if (mem.header tail).next ≠ 0 then mem |>.findTail (mem.header tail).next else some tail
partial_fixpoint

/-- `for (m = p; m; m = m->next) if (pick(m)) acc += weight(m);` on `size_t`. -/
def sumWhere (mem : Mem) (pick : MallocMetadata → Bool) (weight : MallocMetadata → Nat) (p acc : Nat) : Option Nat :=
  if p = 0 then some acc
  else
    mem |>.sumWhere pick weight (mem.header p).next
      (if pick (mem.header p) then (acc + weight (mem.header p)) % 2 ^ 64 else acc)
partial_fixpoint

end OsProjects.Mem

namespace OsProjects.Malloc.FirstFit

export Mem (findFreeFrom findTail sumWhere)

/-- Memory and `g_head`. `obtained` is the operating system's side: the regions `sbrk`
has handed out, with their lengths. -/
structure State where
  mem : Mem
  gHead : Nat
  obtained : List (Nat × Nat)

/-- The program's start: `g_head` is null, memory is arbitrary. -/
def State.start (mem : Mem) : State := ⟨mem, 0, []⟩

/-- `find_free`. -/
def findFree (size : Nat) (s : State) : Option Nat := findFreeFrom s.mem size s.gHead

/-- `alloc_new_block`. -/
def allocNewBlock (os : Os) (size : Nat) (s : State) : Option (Nat × State) :=
  let total := (metaSize + size) % 2 ^ 64
  match os.sbrk total with
  | none => some (0, s)
  | some raw =>
    let mem := (((s.mem.setSize raw size).setIsFree raw false).setNext raw 0).setPrev raw 0
    let obtained := s.obtained ++ [(raw, total)]
    if s.gHead = 0 then some (raw, ⟨mem, raw, obtained⟩)
    else do
      let tail ← findTail mem s.gHead
      let mem := (mem.setNext tail raw).setPrev raw tail
      return (raw, ⟨mem, s.gHead, obtained⟩)

/-- `smalloc`. -/
def smalloc (os : Os) (size : Nat) (s : State) : Option (Nat × State) :=
  if size = 0 ∨ exceedsMax size then some (0, s)
  else do
    let m ← findFree size s
    if m ≠ 0 then return (ptrFromMeta m, { s with mem := s.mem.setIsFree m false })
    else
      let (m, s) ← allocNewBlock os size s
      if m = 0 then return (0, s) else return (ptrFromMeta m, s)

/-- `scalloc`. -/
def scalloc (os : Os) (num size : Nat) (s : State) : Option (Nat × State) :=
  if num = 0 ∨ size = 0 then some (0, s)
  else
    let total := num * size % 2 ^ 64
    if exceedsMax total then some (0, s)
    else do
      let (ptr, s) ← smalloc os total s
      if ptr = 0 then return (0, s)
      else return (ptr, { s with mem := s.mem.memset ptr 0 total })

/-- `sfree`. -/
def sfree (p : Nat) (s : State) : State :=
  if p = 0 then s
  else
    let m := metaFromPtr p
    if (s.mem.header m).isFree then s else { s with mem := s.mem.setIsFree m true }

/-- `srealloc`. -/
def srealloc (os : Os) (oldp size : Nat) (s : State) : Option (Nat × State) :=
  if size = 0 ∨ exceedsMax size then some (0, s)
  else if oldp = 0 then smalloc os size s
  else
    let m := metaFromPtr oldp
    if size ≤ (s.mem.header m).size then some (oldp, s)
    else do
      let (newp, s) ← smalloc os size s
      if newp = 0 then return (0, s)
      else
        let s := { s with mem := s.mem.memmove newp oldp (s.mem.header m).size }
        return (newp, sfree oldp s)

/-! ## Statistics -/

/-- `_num_free_blocks`. -/
def numFreeBlocks (s : State) : Option Nat := sumWhere s.mem MallocMetadata.isFree (fun _ => 1) s.gHead 0

/-- `_num_free_bytes`. -/
def numFreeBytes (s : State) : Option Nat := sumWhere s.mem MallocMetadata.isFree MallocMetadata.size s.gHead 0

/-- `_num_allocated_blocks`. -/
def numAllocatedBlocks (s : State) : Option Nat := sumWhere s.mem (fun _ => true) (fun _ => 1) s.gHead 0

/-- `_num_allocated_bytes`. -/
def numAllocatedBytes (s : State) : Option Nat := sumWhere s.mem (fun _ => true) MallocMetadata.size s.gHead 0

/-- `_num_meta_data_bytes`. -/
def numMetaDataBytes (s : State) : Option Nat := do
  let blocks ← numAllocatedBlocks s
  return blocks * metaSize % 2 ^ 64

/-- `_size_meta_data`. -/
def sizeMetaData : Nat := metaSize

end OsProjects.Malloc.FirstFit
