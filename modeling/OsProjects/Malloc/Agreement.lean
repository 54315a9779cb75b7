import OsProjects.Malloc.Calloc
import OsProjects.Malloc.Statistics
import OsProjects.Malloc.Twin

/-!
# malloc_4 agrees with malloc_3

Outside the huge-page rules malloc_4 promises to be malloc_3. Both files are run on the
same calls against the same answers of the operating system (`Paired`), and as long as
the calls are `Ordinary` the two states are twins: same pointers, same lists, same
blocks, same statistics. A call stops being ordinary where the files part: malloc_4's
`scalloc` has lost the check that refuses a product which wraps to zero, and its
`buddy_init` does not look at the answer to the padding.
-/

namespace OsProjects.Malloc.Buddy

open Links Tiling

variable {os : Os} {s t : State} {w v : World} {call : Call} {B : Set Nat} {M l : List Nat} {p acc : Nat}

/-! ## What is compared -/

/-- The statistics functions. -/
inductive Statistic where
  | numFreeBlocks
  | numFreeBytes
  | numAllocatedBlocks
  | numAllocatedBytes
  | numMetaDataBytes
  | sizeMetaData

def Statistic.value : Statistic → State → Option Nat
  | numFreeBlocks, s => Buddy.numFreeBlocks s
  | numFreeBytes, s => Buddy.numFreeBytes s
  | numAllocatedBlocks, s => Buddy.numAllocatedBlocks s
  | numAllocatedBytes, s => Buddy.numAllocatedBytes s
  | numMetaDataBytes, s => Buddy.numMetaDataBytes s
  | sizeMetaData, _ => some Buddy.sizeMetaData

/-- The blocks `l` are met by walking the heap, if there is one. -/
def BlockLayout (s : State) (l : List Nat) : Prop := Walk s.size s.heapEnd s.heapBase l

/-- Both worlds look the same to the client and to the statistics functions. -/
structure Agree (w v : World) : Prop where
  live : v.live = w.live
  freeLists : v.st.freeLists = w.st.freeLists
  nodes : ∀ k, ∃ l, Chain w.st.next 0 (w.st.freeLists k) l ∧ Chain v.st.next 0 (v.st.freeLists k) l
  layout : ∃ l, BlockLayout w.st l ∧ BlockLayout v.st l ∧
    ∀ x ∈ l, v.st.size x = w.st.size x ∧ v.st.isFree x = w.st.isFree x ∧ v.st.isMmap x = w.st.isMmap x
  mmapList : ∃ l, Chain w.st.next 0 w.st.mmapList l ∧ Chain v.st.next 0 v.st.mmapList l ∧
    ∀ x ∈ l, v.st.size x = w.st.size x
  mapped : v.st.mapped = w.st.mapped
  statistics : ∀ f : Statistic, ∃ n, f.value w.st = some n ∧ f.value v.st = some n

/-! ## The statistics of twins -/

/-- A loop over a list that ends. -/
theorem sumList_foldl (mem : Mem) {weight : MallocMetadata → Nat}
    (chain : Chain (fun x => (mem.header x).next) 0 p l) :
    sumList mem weight p acc = some (l.foldl (fun acc x => (acc + weight (mem.header x)) % 2 ^ 64) acc) := by
  induction l generalizing p acc with
  | nil =>
    obtain rfl : p = 0 := chain
    rw [sumList, if_pos rfl]
    rfl
  | cons x l ih =>
    obtain ⟨rfl, pos, rest⟩ := chain
    rw [sumList, if_neg pos, ih rest]
    rfl

/-- The loop gives the same sum over lists with the same nodes and weights. -/
theorem sumList_alike {weight : MallocMetadata → Nat} {q : Nat} (chain : Chain s.next 0 p l) (chain' : Chain t.next 0 q l)
    (same : ∀ x ∈ l, weight (t.mem.header x) = weight (s.mem.header x)) (acc : Nat) :
    ∃ n, sumList s.mem weight p acc = some n ∧ sumList t.mem weight q acc = some n := by
  refine ⟨_, sumList_foldl s.mem chain, ?_⟩
  rw [sumList_foldl t.mem chain']
  refine congrArg some (List.foldl_ext _ _ acc fun a x hx => ?_)
  rw [same x hx]

theorem Inv.blockLayout (inv : Inv listed s B M) : ∃ l, BlockLayout s l ∧ ∀ x, x ∈ l ↔ x ∈ B := by
  obtain ⟨l, walk, -, all⟩ := inv.heap.tiles.exists_walk
  exact ⟨l, walk, all⟩

/-- Without a heap the walk of `count_all_buddy` ends at once. -/
theorem countAllBuddy_of_noHeap (none : s.NoHeap) : countAllBuddy s = some (0, 0) := by
  unfold countAllBuddy
  by_cases zero : s.heapBase = 0
  · rw [if_pos zero]
  · have base : s.heapBase = failed := none.resolve_left zero
    have stop : ¬failed < (failed + totalHeapSize) % 2 ^ 64 := by decide
    rw [if_neg zero, base, Mem.countWalk.eq_1, if_neg stop]
    rfl

namespace Twin

theorem freeList (h : Twin s t B M) (k : Nat) :
    ∃ l, Chain s.next 0 (s.freeLists k) l ∧ Chain t.next 0 (t.freeLists k) l ∧ ∀ x ∈ l, x ∈ B := by
  obtain ⟨l, list, -⟩ := h.inv.heap.hasFreeList k
  refine ⟨l, list.list.chain, ?_, list.within⟩
  rw [h.lists]
  exact list.list.chain.congr fun x hx => h.alike.next (list.within x hx)

theorem mmapChain (h : Twin s t B M) : Chain s.next 0 s.mmapList M ∧ Chain t.next 0 t.mmapList M :=
  ⟨h.inv.maps.dll.chain, h.inv'.maps.dll.chain⟩

theorem layout (h : Twin s t B M) : ∃ l, BlockLayout s l ∧ BlockLayout t l ∧ ∀ x, x ∈ l ↔ x ∈ B := by
  obtain ⟨l, walk, all⟩ := h.inv.blockLayout
  obtain ⟨l', walk', all'⟩ := h.inv'.blockLayout
  obtain rfl : l = l' :=
    walk.sorted.1.eq_of_mem_iff walk'.sorted.1 fun x => (all x).trans (all' x).symm
  exact ⟨l, walk, walk', all⟩

theorem sumOrders (h : Twin s t B M) (weight : MallocMetadata → Nat)
    (same : ∀ x ∈ B, weight (t.mem.header x) = weight (s.mem.header x)) (left ord acc : Nat) :
    ∃ n, sumOrders s weight left ord acc = some n ∧ Buddy.sumOrders t weight left ord acc = some n := by
  induction left generalizing ord acc with
  | zero => exact ⟨acc, rfl, rfl⟩
  | succ left ih =>
    obtain ⟨l, chain, chain', sub⟩ := h.freeList ord
    obtain ⟨n, run, run'⟩ := sumList_alike chain chain' (fun x hx => same x (sub x hx)) acc
    simp only [Buddy.sumOrders, run, run', Option.bind_eq_bind, Option.bind_some]
    exact ih (ord + 1) n

theorem countAllBuddy (h : Twin s t B M) : ∃ r, countAllBuddy s = some r ∧ Buddy.countAllBuddy t = some r := by
  by_cases none : s.NoHeap
  · have none' : t.NoHeap := by
      rcases h.base with e | ⟨-, -, none'⟩
      · unfold State.NoHeap
        rwa [e]
      · exact none'
    exact ⟨(0, 0), countAllBuddy_of_noHeap none, countAllBuddy_of_noHeap none'⟩
  · have base : t.heapBase = s.heapBase := h.base.resolve_right fun down => none down.2.1
    have up := not_or.mp none
    obtain ⟨l, walk, walk', all⟩ := h.layout
    have stop : s.heapEnd = s.heapBase + totalHeapSize := if_neg none
    have stop' : t.heapEnd = t.heapBase + totalHeapSize := if_neg (base ▸ none)
    unfold BlockLayout at walk walk'
    rw [stop] at walk
    rw [stop'] at walk'
    refine ⟨_, h.inv.countAllBuddy up walk all, ?_⟩
    rw [h.inv'.countAllBuddy (base ▸ up) walk' all]
    have sizes : (l.map fun x => t.size x - metaSize) = l.map fun x => s.size x - metaSize :=
      List.map_congr_left fun x hx => by rw [h.size (.inl ((all x).mp hx))]
    rw [sizes]

/-- **Twins have the same statistics**, and all six functions return. -/
theorem statistics (h : Twin s t B M) (f : Statistic) : ∃ n, f.value s = some n ∧ f.value t = some n := by
  obtain ⟨⟨blocks, bytes⟩, count, count'⟩ := h.countAllBuddy
  obtain ⟨chain, chain'⟩ := h.mmapChain
  have number : ∃ n, numAllocatedBlocks s = some n ∧ numAllocatedBlocks t = some n := by
    simp only [numAllocatedBlocks, count, count', Option.bind_eq_bind, Option.bind_some]
    exact sumList_alike chain chain' (fun _ _ => rfl) blocks
  cases f with
  | numFreeBlocks => exact h.sumOrders _ (fun _ _ => rfl) _ 0 0
  | numFreeBytes => exact h.sumOrders _ (fun x hx => by simp only [(h.header x (.inl hx)).size]) _ 0 0
  | numAllocatedBlocks => exact number
  | numAllocatedBytes =>
    simp only [Statistic.value, Buddy.numAllocatedBytes, count, count', Option.bind_eq_bind, Option.bind_some]
    exact sumList_alike chain chain' (fun x hx => (h.header x (.inr hx)).size) bytes
  | numMetaDataBytes =>
    obtain ⟨n, run, run'⟩ := number
    simp only [Statistic.value, Buddy.numMetaDataBytes, run, run']
    exact ⟨_, rfl, rfl⟩
  | sizeMetaData => exact ⟨_, rfl, rfl⟩

end Twin

/-! ## Runs -/

/-- The huge-page rules of malloc_4 do not apply. -/
def NoHugePages : Call → Prop
  | .smalloc size => size < hugepageSmalloc
  | .scalloc _ size => size ≤ hugepageScalloc
  | .srealloc _ size => size < hugepageSmalloc
  | _ => True

/-- A call on which the two files do the same. `Permitted` leaves out the `scalloc` that
clears past the end of its block. -/
structure Ordinary (w : World) (os : Os) (call : Call) : Prop where
  permitted : Permitted .malloc3 w os call
  small : NoHugePages call
  product : ∀ num size, call = .scalloc num size → num ≠ 0 → size ≠ 0 → product num size ≠ 0
  padding : w.st.initialized = false → PaddingDecides os

def TwinWorlds (w v : World) : Prop := ∃ B M, Twin w.st v.st B M ∧ LivePtrs w B M ∧ v.live = w.live

namespace TwinWorlds

theorem start (mem : Mem) : TwinWorlds (World.start mem) (World.start mem) := by
  refine ⟨∅, [], Twin.start mem, fun p => ?_, rfl⟩
  simp [World.start, Held]

theorem agree (h : TwinWorlds w v) : Agree w v := by
  obtain ⟨B, M, twin, -, live⟩ := h
  obtain ⟨chain, chain'⟩ := twin.mmapChain
  obtain ⟨l, walk, walk', all⟩ := twin.layout
  refine ⟨live, twin.lists, fun k => ?_, ⟨l, walk, walk', fun x hx => ?_⟩,
    ⟨M, chain, chain', fun x hx => twin.size (.inr hx)⟩, twin.mapped, twin.statistics⟩
  · obtain ⟨l, chain, chain', -⟩ := twin.freeList k
    exact ⟨l, chain, chain'⟩
  · have inHeap : x ∈ B ∨ x ∈ M := .inl ((all x).mp hx)
    exact ⟨twin.size inHeap, twin.isFree inHeap, twin.isMmap inHeap⟩

/-- A call of malloc_4 that matches the call of malloc_3. -/
theorem match_call (h : TwinWorlds w v) (ok : Ordinary w os call) :
    ∃ p w' v', exec .malloc3 os call w = some (p, w') ∧ exec .malloc4 os call v = some (p, v') ∧ v'.live = w'.live ∧
      ∃ B' M', Twin w'.st v'.st B' M' := by
  obtain ⟨B, M, twin, live, same⟩ := h
  have sound := ok.permitted.sound
  have args := ok.permitted.args
  cases call with
  | smalloc size =>
    obtain ⟨x, s', t', B', M', run, run', twin'⟩ := twin.smalloc sound ok.padding ok.small
    exact ⟨_, _, _, exec_smalloc run, exec_smalloc run', by rw [same], B', M', twin'⟩
  | scalloc num size =>
    obtain ⟨p, s', t', B', M', run, run', twin'⟩ :=
      twin.scalloc sound ok.padding ok.small (ok.product num size rfl) args.2.2
    exact ⟨_, _, _, exec_scalloc run, exec_scalloc run', by rw [same], B', M', twin'⟩
  | sfree p =>
    by_cases null : p = 0
    · simp only [exec, Buddy.sfree, if_pos null]
      exact ⟨0, _, _, rfl, rfl, by rw [same], B, M, twin⟩
    · obtain ⟨m, hm, rfl⟩ := (live p).mp (args.resolve_left null)
      obtain ⟨s', t', B', M', run, run', twin'⟩ := twin.sfree hm
      simp only [exec, run, run']
      exact ⟨0, _, _, rfl, rfl, by rw [same], B', M', twin'⟩
  | srealloc p size =>
    by_cases bad : Refused size
    · exact ⟨_, _, _, exec_srealloc (srealloc_of_refused bad), exec_srealloc (srealloc_of_refused bad), by rw [same], B, M,
        twin⟩
    by_cases null : p = 0
    · obtain ⟨x, s', t', B', M', run, run', twin'⟩ := twin.smalloc sound ok.padding ok.small
      rw [← srealloc_null bad null] at run run'
      exact ⟨_, _, _, exec_srealloc run, exec_srealloc run', by rw [same], B', M', twin'⟩
    · obtain ⟨m, hm, rfl⟩ := (live p).mp (args.2.resolve_left null)
      obtain ⟨q, s', t', B', M', run, run', twin'⟩ := twin.srealloc sound ok.small bad hm
      exact ⟨_, _, _, exec_srealloc run, exec_srealloc run', by rw [same], B', M', twin'⟩
  | write a b =>
    obtain ⟨p, hp, low, high⟩ := args
    obtain ⟨x, hx, rfl⟩ := (live p).mp hp
    rw [metaFromPtr_ptrFromMeta] at high
    have whole := twin.inv.usable_eq (Inv.blocks_of_held hx)
    have touches : ∀ mem : Mem, Mem.Touches {(x + metaSize, w.st.usable x)} mem (mem.store8 a b) := fun mem =>
      Mem.touches_store8 (r := (x + metaSize, w.st.usable x)) rfl low high
    exact ⟨0, _, _, rfl, rfl, same, B, M,
      twin.write (Inv.blocks_of_held hx) (by omega) (touches w.st.mem) (touches v.st.mem)⟩

/-- **An ordinary call** returns the same on both sides and leaves twins. -/
theorem exec (h : TwinWorlds w v) (ok : Ordinary w os call) :
    ∃ p w' v', exec .malloc3 os call w = some (p, w') ∧ Buddy.exec .malloc4 os call v = some (p, v') ∧
      TwinWorlds w' v' := by
  obtain ⟨p, w', v', run, run', same, B', M', twin'⟩ := h.match_call ok
  obtain ⟨B, M, twin, live, -⟩ := h
  obtain ⟨p', w'', runW, ⟨B₂, M₂, inv₂, live₂⟩, -⟩ :=
    Good.exec (w := w) ⟨B, M, twin.inv, live⟩ ok.permitted
  obtain ⟨rfl, rfl⟩ := Prod.mk.inj (Option.some_inj.mp (run.symm.trans runW))
  obtain ⟨rfl, rfl⟩ := twin'.inv.unique inv₂
  exact ⟨p, w', v', run, run', _, _, twin', live₂, same⟩

end TwinWorlds

end OsProjects.Malloc.Buddy
