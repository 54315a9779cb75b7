import OsProjects.Malloc.Arena

/-!
# Allocation

What the operating system promises during a call (`Sound`), and the common part
of `smalloc` and malloc_4's `scalloc`: initialise, then take a block from the heap
or map a region. `reserved` is the number of bytes such a request takes.
-/

namespace OsProjects.Malloc.Buddy

open Links Tiling

/-! ## The operating system's side -/

/-- The address at which `buddy_init` finds the program break, relative to the
alignment it wants. -/
def breakRemainder (os : Os) : Nat := (os.sbrk 0).getD failed % totalHeapSize

/-- The `sbrk` calls whose answers `buddy_init` looks at succeed. -/
def SbrkSucceeds (ed : Edition) (os : Os) : Prop :=
  (ed = .malloc3 → breakRemainder os ≠ 0 → os.sbrk (totalHeapSize - breakRemainder os) ≠ none) ∧
    os.sbrk totalHeapSize ≠ none

/-- A new region meets no mapped region and not the heap. -/
structure FreshMaps (os : Os) (s : State) : Prop where
  pos : ∀ huge n raw, os.mmap huge n = some raw → raw ≠ 0 ∧ raw + n < 2 ^ 64
  mapped : ∀ huge n raw, os.mmap huge n = some raw → ∀ r ∈ s.mapped, raw + n ≤ r.1 ∨ r.1 + r.2 ≤ raw
  heap : ∀ huge n raw, os.mmap huge n = some raw → raw + n ≤ s.heapBase ∨ s.heapEnd ≤ raw

/-- The answers the operating system may give to a call made in state `s`. -/
structure Sound (os : Os) (s : State) : Prop where
  page : ∃ j < 64, os.pageSize = 2 ^ j
  maps : FreshMaps os s
  heap : s.initialized = false → ∀ base, os.sbrk totalHeapSize = some base →
    base ≠ 0 ∧ base + totalHeapSize < 2 ^ 64 ∧
      ∀ huge n raw, os.mmap huge n = some raw → raw + n ≤ base ∨ base + totalHeapSize ≤ raw

variable {listed : Prop} {ed : Edition} {os : Os} {s s' s'' : State} {m n x y z : Nat} {A B B' : Set Nat}
  {M M' : List Nat}

/-! ## `buddy_init` -/

/-- What `buddy_init` did: nothing, set up the heap, or give up for good. -/
inductive Booted (ed : Edition) (os : Os) (s s' : State) (B B' : Set Nat) : Prop where
  | already (init : s.initialized = true) (state : s' = s) (blocks : B' = B)
  | up (fresh : s.initialized = false) (sbrk : SbrkSucceeds ed os) (base : s'.heapBase ≠ 0)
      (notFailed : s'.heapBase ≠ failed) (blocks : B' = initialSet s'.heapBase initialBlocks)
      (free : ∀ x ∈ B', s'.isFree x = true ∧ s'.size x = mmapThreshold) (top : s'.freeLists maxOrder ≠ 0)
      (others : ∀ k, k ≠ maxOrder → s'.freeLists k = 0)
  | down (fresh : s.initialized = false) (sbrk : ¬SbrkSucceeds ed os) (blocks : B' = ∅)
      (lists : ∀ k, s'.freeLists k = 0)

theorem buddyInit_of_initialized (init : s.initialized = true) : buddyInit ed os s = some s := by
  unfold buddyInit
  rw [if_pos init]

theorem buddyInit_up (fresh : s.initialized = false) (sbrk : SbrkSucceeds ed os) : ∃ base,
    os.sbrk totalHeapSize = some base ∧
      buddyInit ed os s = initBlocks ed initialBlocks { s with initialized := true, heapBase := base } := by
  obtain ⟨base, answer⟩ := Option.ne_none_iff_exists'.mp sbrk.2
  have pad : ¬(ed = .malloc3 ∧ (os.sbrk 0).getD failed % totalHeapSize ≠ 0 ∧
      os.sbrk (totalHeapSize - (os.sbrk 0).getD failed % totalHeapSize) = none) :=
    fun no => sbrk.1 no.1 no.2.1 no.2.2
  refine ⟨base, answer, ?_⟩
  unfold buddyInit
  simp only [fresh, Bool.false_eq_true, if_false, if_neg pad, answer]

theorem buddyInit_down (fresh : s.initialized = false) (base : s.heapBase = 0) (sbrk : ¬SbrkSucceeds ed os) :
    ∃ base, (base = 0 ∨ base = failed) ∧ buddyInit ed os s = some { s with initialized := true, heapBase := base } := by
  unfold buddyInit
  simp only [fresh, Bool.false_eq_true, if_false]
  by_cases pad : ed = .malloc3 ∧ (os.sbrk 0).getD failed % totalHeapSize ≠ 0 ∧
      os.sbrk (totalHeapSize - (os.sbrk 0).getD failed % totalHeapSize) = none
  · rw [if_pos pad]
    exact ⟨0, .inl rfl, by rw [← base]⟩
  · rw [if_neg pad]
    cases answer : os.sbrk totalHeapSize with
    | none => exact ⟨failed, .inr rfl, rfl⟩
    | some base =>
      refine absurd ⟨fun e ne none => pad ⟨e, ne, none⟩, ?_⟩ sbrk
      rw [answer]
      exact Option.some_ne_none base

/-- Nobody holds a block before the heap is set up. -/
theorem Inv.notMem_held (z : Nat) : z ∉ Held s ∅ [] := fun hz =>
  (Inv.blocks_of_held hz).elim (Set.notMem_empty z) List.not_mem_nil

/-- Without a heap: no blocks and no mapped regions. -/
theorem Inv.boot_down (h : Inv listed s ∅ []) (sound : Sound os s) (lists : ∀ k, s.freeLists k = 0) {base : Nat}
    (none : base = 0 ∨ base = failed) : Inv listed { s with initialized := true, heapBase := base } ∅ [] ∧
      FreshMaps os { s with initialized := true, heapBase := base } := by
  have stop : ({ s with initialized := true, heapBase := base } : State).heapEnd = base := if_pos none
  refine ⟨⟨?_, ?_, fun x hx => absurd hx List.not_mem_nil, fun e => nomatch e⟩, sound.maps.pos, sound.maps.mapped,
    fun huge n raw answer => ?_⟩
  · rw [stop]
    exact HeapInv.empty lists
  · exact h.maps.frame (fun x hx => absurd hx List.not_mem_nil) ⟨rfl, rfl⟩
  · have := sound.maps.pos huge n raw answer
    rw [stop]
    change raw + n ≤ base ∨ base ≤ raw
    unfold failed at none
    omega

/-- The heap that `buddy_init` sets up. -/
structure FirstHeap (os : Os) (s' : State) (base : Nat) : Prop where
  heapBase : s'.heapBase = base
  initialized : s'.initialized = true
  nonzero : base ≠ 0
  notFailed : base ≠ failed
  free : ∀ x ∈ initialSet base initialBlocks, s'.isFree x = true ∧ s'.size x = mmapThreshold
  top : s'.freeLists maxOrder ≠ 0
  others : ∀ k, k ≠ maxOrder → s'.freeLists k = 0
  maps : FreshMaps os s'

theorem Inv.boot_up (h : Inv listed s ∅ []) (sound : Sound os s) (ed : Edition) (fresh : s.initialized = false)
    (lists : ∀ k, s.freeLists k = 0) {base : Nat} (answer : os.sbrk totalHeapSize = some base) :
    ∃ s', initBlocks ed initialBlocks { s with initialized := true, heapBase := base } = some s' ∧
      Inv listed s' (initialSet base initialBlocks) [] ∧ FirstHeap os s' base := by
  obtain ⟨pos, lt, away⟩ := sound.heap fresh base answer
  have total : totalHeapSize = initialBlocks * mmapThreshold := rfl
  have noMaps : s.mapped = [] := h.maps.mapped
  obtain ⟨s', run, inv, free, others, touches, globals⟩ :=
    initBlocks_spec (s := { s with initialized := true, heapBase := base }) ed (n := initialBlocks) pos lists lt
  have baseEq : s'.heapBase = base := globals.heapBase
  have notFailed : base ≠ failed := by
    unfold failed
    have : totalHeapSize = 4194304 := rfl
    omega
  have stop : s'.heapEnd = base + totalHeapSize := by
    unfold State.heapEnd
    rw [baseEq, if_neg (not_or.mpr ⟨pos, notFailed⟩)]
  have mem : base ∈ initialSet base initialBlocks := ⟨0, by decide, by omega⟩
  have free' := free base mem
  have top : s'.freeLists maxOrder ≠ 0 :=
    inv.top_ne_zero (x := base) ⟨mem, Set.notMem_empty _, free'.1, free'.2.trans blockSize_maxOrder.symm⟩
  refine ⟨s', run, ⟨?_, ?_, fun x hx => absurd hx List.not_mem_nil, ?_⟩, baseEq, globals.initialized, pos, notFailed,
    free, top, others, sound.maps.pos, ?_, ?_⟩
  · rw [stop]
    exact { inv with covers := fun _ => inv.covers trivial }
  · exact h.maps.frame (fun x hx => absurd hx List.not_mem_nil) ⟨globals.mmapList, globals.mapped⟩
  · intro e
    rw [globals.initialized] at e
    exact nomatch e
  · intro huge n raw answer' r hr
    rw [globals.mapped, noMaps] at hr
    exact absurd hr List.not_mem_nil
  · intro huge n raw answer'
    rw [stop, baseEq]
    exact away huge n raw answer'

/-- **`buddy_init`.** -/
theorem Inv.buddyInit (h : Inv listed s B M) (sound : Sound os s) (ed : Edition) :
    ∃ s' B', buddyInit ed os s = some s' ∧ Inv listed s' B' M ∧ s'.initialized = true ∧ Booted ed os s s' B B' ∧
      Held s' B' M = Held s B M ∧ (∀ z ∈ Held s B M, Keeps s s' z) ∧ FreshMaps os s' := by
  by_cases init : s.initialized = true
  · exact ⟨s, B, buddyInit_of_initialized init, h, init, .already init rfl rfl, rfl, fun z _ => Keeps.refl s z, sound.maps⟩
  have fresh : s.initialized = false := Bool.eq_false_iff.mpr init
  obtain ⟨rfl, rfl⟩ := h.blocks_of_boot fresh
  obtain ⟨base0, -, lists⟩ := h.boot fresh
  by_cases sbrk : SbrkSucceeds ed os
  · obtain ⟨base, answer, run⟩ := buddyInit_up fresh sbrk
    obtain ⟨s', set, inv, first⟩ := h.boot_up sound ed fresh lists answer
    refine ⟨s', initialSet base initialBlocks, run.trans set, inv, first.initialized, ?_, ?_,
      fun z hz => absurd hz (Inv.notMem_held z), first.maps⟩
    · exact .up fresh sbrk (first.heapBase.symm ▸ first.nonzero) (first.heapBase.symm ▸ first.notFailed)
        (by rw [first.heapBase]) first.free first.top first.others
    · ext z
      refine ⟨fun hz => ?_, fun hz => absurd hz (Inv.notMem_held z)⟩
      rcases hz with ⟨hz, alloc⟩ | hz
      · rw [(first.free z hz).1] at alloc
        exact Bool.noConfusion alloc
      · exact absurd hz List.not_mem_nil
  · obtain ⟨base, none, run⟩ := buddyInit_down fresh base0 sbrk
    obtain ⟨inv, maps⟩ := h.boot_down sound lists none
    exact ⟨_, ∅, run, inv, rfl, .down fresh sbrk rfl lists, rfl, fun z hz => absurd hz (Inv.notMem_held z), maps⟩

/-! ## A block from the heap -/

/-- The block `x` of `bytes` bytes was given to the client. -/
structure Grants (s s' : State) (H H' : Set Nat) (x bytes : Nat) : Prop where
  fresh : x ∉ H
  held : H' = insert x H
  keeps : ∀ z ∈ H, Keeps s s' z
  extent : s'.extent x = bytes

theorem Inv.buddyAlloc (h : Inv listed s B M) (init : s.initialized = true) (ed : Edition) (n : Nat) :
    (buddyAlloc ed n s = some (0, s) ∧ ∀ j, sizeToOrder n ≤ j → j ≤ maxOrder → s.freeLists j = 0) ∨
      ∃ x d s', buddyAlloc ed n s = some (x, s') ∧ Chosen s B x (sizeToOrder n) d ∧
        Inv (listed ∧ d = 0) s' (B ∪ upperHalves x (sizeToOrder n) d) M ∧ Allocated s s' B x (sizeToOrder n) d ∧
        (d ≠ 0 → s'.freeLists (sizeToOrder n) = 0 ∧
          (FreeOf s' (B ∪ upperHalves x (sizeToOrder n) d) ∅ (sizeToOrder n)).Nonempty) ∧
        Grants s s' (Held s B M) (Held s' (B ∪ upperHalves x (sizeToOrder n) d) M) x (blockSize (sizeToOrder n)) := by
  rcases h.heap.buddyAlloc ed n with none | ⟨x, d, s', run, chosen, heap, alloc⟩
  · exact .inl none
  right
  set t := sizeToOrder n
  have mem := chosen.mem
  have base := alloc.globals.heapBase
  have within : ∀ a ∈ B ∪ upperHalves x t d, s.heapBase ≤ a ∧ a + metaSize ≤ s.heapEnd :=
    fun a ha => Inv.header_within heap base ha
  obtain ⟨inv, keepMaps⟩ := h.of_heap init heap alloc.globals alloc.touches within
  have heapBlock : ∀ z ∈ B ∪ upperHalves x t d, s'.isFree z = false → z = x ∨ z ∈ B ∧ s.isFree z = false := by
    rintro z hz allocated
    obtain rfl | e := eq_or_ne z x
    · exact .inl rfl
    · rcases hz with hz | ⟨j, lt, rfl⟩
      · exact .inr ⟨hz, (alloc.same z hz e).2.symm.trans allocated⟩
      · rw [(alloc.upper j lt).2] at allocated
        exact Bool.noConfusion allocated
  refine ⟨x, d, s', run, chosen, inv, alloc, fun ne => ?_, ⟨?_, ?_, ?_, ?_⟩⟩
  · obtain ⟨size, free⟩ := alloc.upper 0 (by omega)
    exact ⟨alloc.lost 0 (by omega), x + blockSize (t + 0), .inr ⟨0, by omega, rfl⟩, Set.notMem_empty _, free, size⟩
  · rintro (⟨-, allocated⟩ | hx)
    · rw [mem.2.2.1] at allocated
      exact Bool.noConfusion allocated
    · exact h.notMem_map mem.1 hx
  · ext z
    constructor
    · rintro (⟨hz, allocated⟩ | hz)
      · exact (heapBlock z hz allocated).imp_right .inl
      · exact .inr (.inr hz)
    · rintro (rfl | ⟨hz, allocated⟩ | hz)
      · exact .inl ⟨.inl mem.1, alloc.free⟩
      · have ne : z ≠ x := by
          rintro rfl
          rw [mem.2.2.1] at allocated
          exact Bool.noConfusion allocated
        exact .inl ⟨.inl hz, (alloc.same z hz ne).2.trans allocated⟩
      · exact .inr hz
  · rintro z (⟨hz, allocated⟩ | hz)
    · have ne : z ≠ x := by
        rintro rfl
        rw [mem.2.2.1] at allocated
        exact Bool.noConfusion allocated
      have size := (alloc.same z hz ne).1
      have hz' : z ∈ B ∪ upperHalves x t d := .inl hz
      refine keeps_of_touches alloc.touches size ?_ fun a ha => ?_
      · rw [heap.notMmap z hz', h.heap.notMmap z hz]
      · rw [h.extent_heap hz, ← size]
        obtain rfl | e := eq_or_ne a z
        · exact .inl (le_refl a)
        · have := heap.tiles.apart a ha z hz' e
          omega
    · exact keepMaps z hz
  · rw [inv.extent_heap (.inl mem.1)]
    exact alloc.size

/-! ## A region of its own -/

/-- The mmap helper of `smalloc` and `scalloc`. -/
def bigAlloc (ed : Edition) (os : Os) (size : Nat) (hugepage : Bool) (s : State) : Nat × State :=
  match ed with
  | .malloc3 => mmapAlloc os size s
  | .malloc4 => mmapAllocInternal os size hugepage s

/-- What the length of a mapped region is rounded up to. -/
def mapAlign (ed : Edition) (os : Os) (hugepage : Bool) : Nat :=
  match ed with
  | .malloc3 => os.pageSize
  | .malloc4 => if hugepage then hugepageSize else os.pageSize

theorem bigAlloc_cases (ed : Edition) (os : Os) (size : Nat) (hugepage : Bool) (s : State) :
    (bigAlloc ed os size hugepage s = (0, s) ∧
        os.mmap false (alignUp (metaSize + size) (mapAlign ed os hugepage)) = none) ∨
      ∃ huge raw, os.mmap huge (alignUp (metaSize + size) (mapAlign ed os hugepage)) = some raw ∧
        (huge = true → mapAlign ed os hugepage = hugepageSize) ∧ bigAlloc ed os size hugepage s =
          (raw, mmapEnlist ed huge raw (alignUp (metaSize + size) (mapAlign ed os hugepage)) s) := by
  cases ed with
  | malloc3 =>
    simp only [bigAlloc, mapAlign, mmapAlloc]
    cases answer : os.mmap false (alignUp (metaSize + size) os.pageSize) with
    | none => exact .inl ⟨rfl, rfl⟩
    | some raw => exact .inr ⟨false, raw, answer, Bool.noConfusion, rfl⟩
  | malloc4 =>
    simp only [bigAlloc, mapAlign, mmapAllocInternal]
    cases hugepage with
    | false =>
      simp only [Bool.false_eq_true, if_false]
      cases answer : os.mmap false (alignUp (metaSize + size) os.pageSize) with
      | none => exact .inl ⟨rfl, rfl⟩
      | some raw => exact .inr ⟨false, raw, answer, Bool.noConfusion, rfl⟩
    | true =>
      simp only [if_true]
      cases answer : os.mmap true (alignUp (metaSize + size) hugepageSize) with
      | some raw => exact .inr ⟨true, raw, answer, fun _ => trivial, rfl⟩
      | none =>
        cases answer' : os.mmap false (alignUp (metaSize + size) hugepageSize) with
        | none => exact .inl ⟨rfl, rfl⟩
        | some raw => exact .inr ⟨false, raw, answer', fun _ => trivial, rfl⟩

theorem mapAlign_pow (sound : Sound os s) (ed : Edition) (hugepage : Bool) :
    ∃ j < 64, mapAlign ed os hugepage = 2 ^ j := by
  cases ed with
  | malloc3 => exact sound.page
  | malloc4 =>
    cases hugepage with
    | false => exact sound.page
    | true => exact ⟨21, by decide, rfl⟩

section NewRegion

variable {total raw : Nat} {huge : Bool} (h : Inv listed s B M) (fresh : FreshMaps os s)
  (answer : os.mmap huge total = some raw)
include h fresh answer

theorem Inv.freshRegion : FreshRegion s M raw total := by
  intro x hx
  have mem : (x, metaSize + s.size x) ∈ s.mapped := by
    rw [h.maps.mapped]
    exact List.mem_map.mpr ⟨x, hx, rfl⟩
  have := fresh.mapped huge total raw answer _ mem
  simp only at this
  omega

/-- The metadata of the heap is out of reach of the metadata of the mapped blocks. -/
theorem Inv.header_of_mapped (touches : Mem.Touches (metaRanges {x | x ∈ raw :: M}) s.mem s'.mem)
    (large : metaSize ≤ total) {z : Nat} (hz : z ∈ B) : s'.mem.header z = s.mem.header z := by
  have offHeap := fresh.heap huge total raw answer
  refine touches.header_eq fun r hr => ?_
  have within := Inv.header_within h.heap rfl hz
  have word : metaSize = 32 := rfl
  rw [hr.2]
  rcases List.mem_cons.mp hr.1 with e | mem
  · rw [e]
    omega
  · have := h.off r.1 mem
    omega

theorem Inv.notMem_of_fresh (large : metaSize ≤ total) : raw ∉ B := by
  intro hx
  have offHeap := fresh.heap huge total raw answer
  have := h.mem_heap hx
  have := h.heap.tiles.pos raw hx
  have word : metaSize = 32 := rfl
  omega

/-- The blocks that are held keep their bytes when a region is put in front of the list. -/
theorem Inv.keeps_of_mapped (touches : Mem.Touches (metaRanges {x | x ∈ raw :: M}) s.mem s'.mem)
    (large : metaSize ≤ total)
    (same : ∀ x ∈ M, s'.size x = s.size x ∧ s'.isMmap x = s.isMmap x) {z : Nat} (hz : z ∈ Held s B M) :
    Keeps s s' z := by
  have offHeap := fresh.heap huge total raw answer
  rcases hz with ⟨hz, -⟩ | hz
  · have hdr := h.header_of_mapped fresh answer touches large hz
    refine keeps_of_touches touches (by rw [State.size, hdr]) (by rw [State.isMmap, hdr]) fun a ha => ?_
    have := h.mem_heap hz
    rw [h.extent_heap hz]
    rcases List.mem_cons.mp ha with rfl | mem
    · omega
    · have := h.off a mem
      omega
  · refine keeps_of_touches touches (same z hz).1 (same z hz).2 fun a ha => ?_
    rw [h.extent_map hz]
    rcases List.mem_cons.mp ha with rfl | mem
    · have := h.freshRegion fresh answer z hz
      omega
    · obtain rfl | e := eq_or_ne a z
      · exact .inl (le_refl a)
      · have := h.maps.apart a mem z hz e
        omega

/-- Mapping a region for a block. -/
theorem Inv.enlist (init : s.initialized = true) (large : metaSize + mmapThreshold ≤ total) (ed : Edition) :
    Inv listed (mmapEnlist ed huge raw total s) B (raw :: M) ∧
      Grants s (mmapEnlist ed huge raw total s) (Held s B M) (Held (mmapEnlist ed huge raw total s) B (raw :: M)) raw
        total ∧ raw ≠ 0 := by
  obtain ⟨pos, lt⟩ := fresh.pos huge total raw answer
  have offHeap := fresh.heap huge total raw answer
  have room : metaSize ≤ total := by omega
  obtain ⟨maps, size, same, touches, out⟩ :=
    h.maps.enlist lt large (h.freshRegion fresh answer) ed huge pos
  set s' := mmapEnlist ed huge raw total s
  have hdr : ∀ z ∈ B, s'.mem.header z = s.mem.header z := fun z hz =>
    h.header_of_mapped fresh answer touches room hz
  refine ⟨⟨?_, maps, ?_, fun e => ?_⟩, ⟨?_, ?_, ?_, ?_⟩, pos⟩
  · exact h.heap.of_frame hdr rfl rfl
  · refine List.forall_mem_cons.mpr ⟨?_, fun z hz => ?_⟩
    · rw [size]
      have : s'.heapBase = s.heapBase := rfl
      have : s'.heapEnd = s.heapEnd := rfl
      omega
    · rw [(same z hz).1]
      exact h.off z hz
  · exact absurd (init.symm.trans e) (by decide)
  · intro hx
    rcases Inv.blocks_of_held hx with hx | hx
    · exact h.notMem_of_fresh fresh answer room hx
    · exact out hx
  · ext z
    constructor
    · rintro (⟨hz, allocated⟩ | (_ | ⟨_, hz⟩))
      · rw [State.isFree, hdr z hz] at allocated
        exact .inr (.inl ⟨hz, allocated⟩)
      · exact .inl rfl
      · exact .inr (.inr hz)
    · rintro (rfl | ⟨hz, allocated⟩ | hz)
      · exact .inr List.mem_cons_self
      · exact .inl ⟨hz, by rw [State.isFree, hdr z hz]; exact allocated⟩
      · exact .inr (List.mem_cons_of_mem _ hz)
  · intro z hz
    exact h.keeps_of_mapped fresh answer touches room same hz
  · unfold State.extent
    rw [maps.isMmap raw List.mem_cons_self, if_pos rfl, size]
    omega

end NewRegion

/-! ## Requests -/

/-- The common part of `smalloc` and malloc_4's `scalloc`: the block, or null. -/
def allocate (ed : Edition) (os : Os) (size : Nat) (hugepage : Bool) (s : State) : Option (Nat × State) := do
  let s ← buddyInit ed os s
  if mmapThreshold ≤ size then some (bigAlloc ed os size hugepage s) else buddyAlloc ed size s

theorem smalloc_eq (ed : Edition) (os : Os) (size : Nat) (s : State) : smalloc ed os size s =
    if size = 0 ∨ exceedsMax size then some (0, s)
    else (allocate ed os size (decide (hugepageSmalloc ≤ size)) s).map fun r => (userPtr r.1, r.2) := by
  unfold smalloc allocate
  by_cases bad : size = 0 ∨ exceedsMax size = true
  · rw [if_pos bad, if_pos bad]
  · rw [if_neg bad, if_neg bad]
    cases buddyInit ed os s with
    | none => rfl
    | some s₁ =>
      simp only [Option.bind_eq_bind, Option.bind_some]
      by_cases big : mmapThreshold ≤ size
      · rw [if_pos big, if_pos big]
        cases ed <;> rfl
      · rw [if_neg big, if_neg big]
        cases buddyAlloc ed size s₁ <;> rfl

/-- What a request of `size` bytes takes, with metadata and rounding. -/
def reserved (ed : Edition) (os : Os) (hugepage : Bool) (size : Nat) : Nat :=
  if mmapThreshold ≤ size then alignUp (metaSize + size) (mapAlign ed os hugepage) else blockSize (sizeToOrder size)

/-- `buddy_alloc` has no block to split for this request: the list of its order is
not empty, or no list from there on is. A heap that is yet to be set up has
blocks of the largest order only. -/
def NoSplit (s : State) (size : Nat) : Prop :=
  if s.initialized then
    s.freeLists (sizeToOrder size) ≠ 0 ∨ ∀ j ≤ maxOrder, sizeToOrder size ≤ j → s.freeLists j = 0
  else sizeToOrder size = maxOrder

/-- What a request did. `s₁` is the state after `buddy_init`. -/
structure Requested (ed : Edition) (os : Os) (hugepage : Bool) (size : Nat) (s s₁ s' : State) (B' H H' : Set Nat)
    (x : Nat) : Prop where
  base : s'.heapBase = s₁.heapBase
  init : s'.initialized = true
  result : x = 0 ∧ H' = H ∧ (∀ z ∈ H, Keeps s s' z) ∨ x ≠ 0 ∧ Grants s s' H H' x (reserved ed os hugepage size)
  heap : size < mmapThreshold → (x = 0 ↔ ∀ j, sizeToOrder size ≤ j → j ≤ maxOrder → s₁.freeLists j = 0)
  map : mmapThreshold ≤ size → x = 0 → os.mmap false (reserved ed os hugepage size) = none
  split : size < mmapThreshold → ¬NoSplit s size → (s.initialized = false → SbrkSucceeds ed os) →
    s'.freeLists (sizeToOrder size) = 0 ∧ (FreeOf s' B' ∅ (sizeToOrder size)).Nonempty

theorem maxOrder_of_noSplit {d : Nat} (boot : Booted ed os s s' B B') (chosen : Chosen s' B' x (sizeToOrder n) d)
    (pos : x ≠ 0) (no : NoSplit s n) : d = 0 := by
  have order := chosen.order
  unfold NoSplit at no
  rcases boot with ⟨init, rfl, rfl⟩ | ⟨fresh⟩ | ⟨fresh, -, -, lists⟩
  · rw [if_pos init] at no
    by_contra ne
    rcases no with head | empty
    · exact head (chosen.first _ (le_refl _) (by omega))
    · exact pos (chosen.head.symm.trans (empty _ order (by omega)))
  · rw [fresh] at no
    simp only [Bool.false_eq_true, if_false] at no
    omega
  · exact absurd (chosen.head.symm.trans (lists _)) pos

theorem ne_zero_of_split {d : Nat} (boot : Booted ed os s s' B B') (chosen : Chosen s' B' x (sizeToOrder n) d)
    (pos : x ≠ 0) (split : ¬NoSplit s n) : d ≠ 0 := by
  rintro rfl
  have head := chosen.head
  rw [Nat.add_zero] at head
  unfold NoSplit at split
  rcases boot with ⟨init, rfl, rfl⟩ | ⟨fresh, -, -, -, -, -, -, others⟩ | ⟨fresh, -, -, lists⟩
  · rw [if_pos init] at split
    exact split (.inl (head ▸ pos))
  · rw [fresh] at split
    simp only [Bool.false_eq_true, if_false] at split
    exact pos (head.symm.trans (others _ split))
  · exact pos (head.symm.trans (lists _))

/-- A splitting request finds a block. -/
theorem exists_head_of_split (boot : Booted ed os s s' B B') (split : ¬NoSplit s n)
    (sbrk : s.initialized = false → SbrkSucceeds ed os)
    (empty : ∀ j, sizeToOrder n ≤ j → j ≤ maxOrder → s'.freeLists j = 0) : False := by
  unfold NoSplit at split
  rcases boot with ⟨init, rfl, rfl⟩ | ⟨-, -, -, -, -, -, top, -⟩ | ⟨fresh, failed, -, -⟩
  · rw [if_pos init] at split
    exact split (.inr fun j le le' => empty j le' le)
  · exact top (empty maxOrder (sizeToOrder_le n) (le_refl _))
  · exact failed (sbrk fresh)

/-- **A request** initialises the heap when it is the first, and gives out a block
of exactly the reserved size or nothing. -/
theorem Inv.allocate {size : Nat} (h : Inv listed s B M) (sound : Sound os s) (ed : Edition) (hugepage : Bool)
    (small : size ≤ maxAllocSize) :
    ∃ x s₁ B₁ s' B' M', Buddy.allocate ed os size hugepage s = some (x, s') ∧ Buddy.buddyInit ed os s = some s₁ ∧
      Booted ed os s s₁ B B₁ ∧ Inv (listed ∧ (size < mmapThreshold → NoSplit s size)) s' B' M' ∧
      Requested ed os hugepage size s s₁ s' B' (Held s B M) (Held s' B' M') x := by
  obtain ⟨s₁, B₁, run, inv, init, boot, held, keeps, fresh⟩ := h.buddyInit sound ed
  have unfolded : Buddy.allocate ed os size hugepage s =
      if mmapThreshold ≤ size then some (bigAlloc ed os size hugepage s₁) else Buddy.buddyAlloc ed size s₁ := by
    change (Buddy.buddyInit ed os s).bind _ = _
    rw [run]
    rfl
  have through : ∀ {s' : State} {H' : Set Nat} {x bytes : Nat}, Grants s₁ s' (Held s₁ B₁ M) H' x bytes →
      Grants s s' (Held s B M) H' x bytes := by
    intro s' H' x bytes g
    rw [held] at g
    exact { g with keeps := fun z hz => (keeps z hz).trans (g.keeps z hz) }
  have max : maxAllocSize = 100000000 := rfl
  have threshold : mmapThreshold = 131072 := rfl
  have word : metaSize = 32 := rfl
  by_cases big : mmapThreshold ≤ size
  · have notSmall : ¬size < mmapThreshold := not_lt.mpr big
    have bytes : reserved ed os hugepage size = alignUp (metaSize + size) (mapAlign ed os hugepage) := if_pos big
    rw [unfolded, if_pos big]
    rcases bigAlloc_cases ed os size hugepage s₁ with ⟨null, answer⟩ | ⟨huge, raw, answer, -, block⟩
    · rw [null]
      exact ⟨0, s₁, B₁, s₁, B₁, M, rfl, run, boot, inv.weaken And.left, rfl, init, .inl ⟨rfl, held, keeps⟩,
        fun lt => absurd lt notSmall, fun _ _ => bytes ▸ answer, fun lt => absurd lt notSmall⟩
    · obtain ⟨j, hj, align⟩ := mapAlign_pow sound ed hugepage
      have round := (alignUp_spec (n := metaSize + size) hj (by omega)).1
      rw [← align] at round
      obtain ⟨inv', grants, pos⟩ := inv.enlist fresh answer init (by omega) ed
      rw [block]
      refine ⟨raw, s₁, B₁, _, B₁, raw :: M, rfl, run, boot, inv'.weaken And.left, rfl, init, .inr ⟨pos, ?_⟩,
        fun lt => absurd lt notSmall, fun _ e => absurd e pos, fun lt => absurd lt notSmall⟩
      rw [bytes]
      exact through grants
  · have bytes : reserved ed os hugepage size = blockSize (sizeToOrder size) := if_neg big
    rw [unfolded, if_neg big]
    rcases inv.buddyAlloc init ed size with ⟨null, empty⟩ | ⟨x, d, s', block, chosen, inv', alloc, lost, grants⟩
    · exact ⟨0, s₁, B₁, s₁, B₁, M, null, run, boot, inv.weaken And.left, rfl, init, .inl ⟨rfl, held, keeps⟩,
        fun _ => ⟨fun _ => empty, fun _ => rfl⟩, fun le => absurd le big,
        fun _ split sbrk => (exists_head_of_split boot split sbrk empty).elim⟩
    · have pos : x ≠ 0 := inv.heap.pos x chosen.mem.1
      refine ⟨x, s₁, B₁, s', _, M, block, run, boot, inv'.weaken ?_, alloc.globals.heapBase,
        alloc.globals.initialized.trans init, .inr ⟨pos, bytes ▸ through grants⟩, fun _ => ⟨fun e => absurd e pos, fun empty => ?_⟩,
        fun le => absurd le big, fun _ split _ => lost (ne_zero_of_split boot chosen pos split)⟩
      · exact fun l => ⟨l.1, maxOrder_of_noSplit boot chosen pos (l.2 (not_le.mp big))⟩
      · exact chosen.head.symm.trans (empty _ (by omega) chosen.order)

end OsProjects.Malloc.Buddy
