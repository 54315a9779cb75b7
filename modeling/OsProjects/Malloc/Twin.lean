import OsProjects.Malloc.Alike
import OsProjects.Malloc.Run

/-!
# malloc_3 and malloc_4 side by side

`Twin s t B M` relates a state of malloc_3 and a state of malloc_4 that have the same
blocks: the heap blocks `B` and the mmap list `M`, with the same headers up to
`is_huge` and the same static variables. When neither file has a heap their `heap_base`
may differ, because malloc_3 gives up before it asks for one. Each operation of
malloc_3 is matched by the same operation of malloc_4, unless a huge-page rule
applies or `buddy_init` goes another way.
-/

namespace OsProjects.Malloc.Buddy

open Links Tiling

/-- There is no heap. -/
def State.NoHeap (s : State) : Prop := s.heapBase = 0 ∨ s.heapBase = failed

structure Twin (s t : State) (B : Set Nat) (M : List Nat) : Prop where
  inv : Inv False s B M
  header : ∀ x, x ∈ B ∨ x ∈ M → Matches False (s.mem.header x) (t.mem.header x)
  lists : t.freeLists = s.freeLists
  base : t.heapBase = s.heapBase ∨ s.initialized = true ∧ s.NoHeap ∧ t.NoHeap
  initialized : t.initialized = s.initialized
  mmapList : t.mmapList = s.mmapList
  mapped : t.mapped = s.mapped

variable {listed : Prop} {ed ed' : Edition} {os : Os} {s s' t t' : State} {hi m n p x y z : Nat} {A A' B B' : Set Nat}
  {M M' : List Nat}

/-- The invariant of the heap does not look at `is_huge`. -/
theorem HeapInv.of_alike (h : HeapInv listed s hi B ∅) (alike : Alike B ∅ s t) (base : t.heapBase = s.heapBase) :
    HeapInv listed t hi B ∅ := by
  refine h.transport (base ▸ h.tiles.congr fun x hx => alike.size hx) (base ▸ h.dyadic.congr fun x hx => alike.size hx)
    (base ▸ h.whole) h.pos (fun x hx => alike.size hx ▸ h.lt x hx)
    (fun x hx => (alike.isMmap hx).trans (h.notMmap x hx)) (fun k => ?_)
    (fun k x hx => ⟨alike.next hx.1, alike.prev hx.1⟩) alike.lists (Set.empty_subset _)
  ext x
  constructor
  · rintro ⟨hx, out, free, size⟩
    exact ⟨hx, out, (alike.isFree hx out).symm.trans free, (alike.size hx).symm.trans size⟩
  · rintro ⟨hx, out, free, size⟩
    exact ⟨hx, out, (alike.isFree hx out).trans free, (alike.size hx).trans size⟩

/-- The invariant of the mmap list does not look at `is_huge`. -/
theorem MmapInv.of_matches (h : MmapInv s M) (same : ∀ x ∈ M, Matches False (s.mem.header x) (t.mem.header x))
    (list : t.mmapList = s.mmapList) (mapped : t.mapped = s.mapped) : MmapInv t M := by
  have size : ∀ x ∈ M, t.size x = s.size x := fun x hx => (same x hx).size
  refine ⟨?_, h.nodup, ?_, fun x hx => (same x hx).isMmap.trans (h.isMmap x hx),
    fun x hx => ((same x hx).isFree id).trans (h.alloc x hx), fun x hx => size x hx ▸ h.large x hx,
    fun x hx => size x hx ▸ h.lt x hx, fun x hx y hy ne => ?_⟩
  · rw [list]
    exact h.dll.congr (fun x hx => (same x hx).next) fun x hx => (same x hx).prev
  · rw [mapped, h.mapped]
    exact List.map_congr_left fun x hx => by rw [size x hx]
  · rw [size x hx, size y hy]
    exact h.apart x hx y hy ne

theorem State.NoHeap.heapEnd (none : s.NoHeap) : s.heapEnd = s.heapBase := if_pos none

theorem Inv.blocks_of_noHeap (h : Inv listed s B M) (none : s.NoHeap) : B = ∅ ∧ ∀ k, s.freeLists k = 0 := by
  have empty : B = ∅ := by
    refine Set.eq_empty_iff_forall_notMem.mpr fun x hx => ?_
    have inside := h.mem_heap hx
    have := h.heap.tiles.pos x hx
    rw [none.heapEnd] at inside
    omega
  refine ⟨empty, fun k => ((h.heap.heads k).resolve_right fun head => ?_)⟩
  exact absurd (empty ▸ head.1.1) (Set.notMem_empty _)

namespace Twin

theorem size (h : Twin s t B M) (hx : x ∈ B ∨ x ∈ M) : t.size x = s.size x := (h.header x hx).size

theorem isFree (h : Twin s t B M) (hx : x ∈ B ∨ x ∈ M) : t.isFree x = s.isFree x := (h.header x hx).isFree id

theorem isMmap (h : Twin s t B M) (hx : x ∈ B ∨ x ∈ M) : t.isMmap x = s.isMmap x := (h.header x hx).isMmap

theorem usable (h : Twin s t B M) (hx : x ∈ B ∨ x ∈ M) : t.usable x = s.usable x := by
  rw [State.usable, State.usable, h.size hx, h.isMmap hx]

/-- The heaps are alike. -/
theorem alike (h : Twin s t B M) : Alike B ∅ s t where
  header x hx := (h.header x (.inl hx)).mono fun e => e.elim
  lists := h.lists
  base x hx := h.base.resolve_right fun down =>
    absurd ((h.inv.blocks_of_noHeap down.2.1).1 ▸ hx) (Set.notMem_empty x)

theorem heapEnd (h : Twin s t B M) : t.heapBase = s.heapBase ∧ t.heapEnd = s.heapEnd ∨
    s.heapEnd = s.heapBase ∧ s.NoHeap ∧ t.heapEnd = t.heapBase ∧ t.NoHeap := by
  rcases h.base with e | ⟨-, none, none'⟩
  · refine .inl ⟨e, ?_⟩
    unfold State.heapEnd
    rw [e]
  · exact .inr ⟨none.heapEnd, none, none'.heapEnd, none'⟩

/-- malloc_4's state is well-formed with the same blocks. -/
theorem inv' (h : Twin s t B M) : Inv False t B M := by
  have maps := h.inv.maps.of_matches (fun x hx => h.header x (.inr hx)) h.mmapList h.mapped
  refine ⟨?_, maps, fun x hx => ?_, fun fresh => ?_⟩
  · rcases h.heapEnd with ⟨base, stop⟩ | ⟨-, none, stop, -⟩
    · rw [stop]
      exact h.inv.heap.of_alike h.alike base
    · obtain ⟨rfl, lists⟩ := h.inv.blocks_of_noHeap none
      rw [stop]
      exact HeapInv.empty (h.lists ▸ lists)
  · rw [h.size (.inr hx)]
    rcases h.heapEnd with ⟨base, stop⟩ | ⟨-, -, stop, none⟩
    · rw [base, stop]
      exact h.inv.off x hx
    · have := h.inv.maps.lt x hx
      rw [stop]
      unfold State.NoHeap failed at none
      omega
  · rw [h.initialized] at fresh
    obtain ⟨base, maps, lists⟩ := h.inv.boot fresh
    refine ⟨?_, maps, h.lists ▸ lists⟩
    rcases h.base with e | ⟨init, -⟩
    · exact e.trans base
    · rw [fresh] at init
      exact Bool.noConfusion init

/-- The operating system's promises are the same. -/
theorem sound (h : Twin s t B M) (sound : Sound os s) : Sound os t := by
  refine ⟨sound.page, ⟨sound.maps.pos, ?_, fun huge n raw answer => ?_⟩, ?_⟩
  · rw [h.mapped]
    exact sound.maps.mapped
  · rcases h.heapEnd with ⟨base, stop⟩ | ⟨-, -, stop, none⟩
    · rw [base, stop]
      exact sound.maps.heap huge n raw answer
    · have := sound.maps.pos huge n raw answer
      rw [stop]
      unfold State.NoHeap failed at none
      omega
  · rw [h.initialized]
    exact sound.heap

theorem held (h : Twin s t B M) : Held t B M = Held s B M := by
  ext z
  refine or_congr_left (and_congr_right fun hz => ?_)
  rw [h.isFree (.inl hz)]

theorem start (mem : Mem) : Twin (State.start mem) (State.start mem) ∅ [] where
  inv := (Inv.start mem).weaken False.elim
  header _ _ := ⟨rfl, fun _ => rfl, rfl, rfl, rfl⟩
  lists := rfl
  base := .inl rfl
  initialized := rfl
  mmapList := rfl
  mapped := rfl

/-! ## The heap -/

/-- An operation on the heap of both. -/
theorem of_heap (h : Twin s t B M) (init : s.initialized = true) (heap : HeapInv False s' s.heapEnd B' ∅)
    (alike : Alike B' ∅ s' t') (globals : SameGlobals s s') (globals' : SameGlobals t t')
    (touches : Mem.Touches (metaRanges A) s.mem s'.mem) (touches' : Mem.Touches (metaRanges A') t.mem t'.mem)
    (within : ∀ a ∈ A, s.heapBase ≤ a ∧ a + metaSize ≤ s.heapEnd)
    (within' : ∀ a ∈ A', t.heapBase ≤ a ∧ a + metaSize ≤ t.heapEnd) : Twin s' t' B' M where
  inv := (h.inv.of_heap init heap globals touches within).1
  header x hx := by
    rcases hx with hx | hx
    · exact (alike.header x hx).mono id
    · rw [h.inv.map_header touches within hx, h.inv'.map_header touches' within' hx]
      exact h.header x (.inr hx)
  lists := alike.lists
  base := by
    unfold State.NoHeap
    rw [globals.heapBase, globals'.heapBase, globals.initialized]
    exact h.base
  initialized := by rw [globals.initialized, globals'.initialized, h.initialized]
  mmapList := by rw [globals.mmapList, globals'.mmapList, h.mmapList]
  mapped := by rw [globals.mapped, globals'.mapped, h.mapped]

/-- **`buddy_alloc`** gives the same block. -/
theorem buddyAlloc (h : Twin s t B M) (init : s.initialized = true) (ed ed' : Edition) (n : Nat) :
    ∃ x s' t' B', buddyAlloc ed n s = some (x, s') ∧ Buddy.buddyAlloc ed' n t = some (x, t') ∧ Twin s' t' B' M := by
  rcases h.inv.heap.buddyAlloc ed n with ⟨run, empty⟩ | ⟨x, d, s', run, chosen, heap, alloc⟩
  · obtain ⟨t', B', run', -, -⟩ := h.alike.buddyAlloc ed' h.inv.heap n run
    rcases h.inv'.heap.buddyAlloc ed' n with ⟨run'', -⟩ | ⟨x, d, t', -, chosen, -, -⟩
    · exact ⟨0, s, t, B, run, run'', h⟩
    · refine absurd (empty _ (Nat.le_add_right _ d) chosen.order) ?_
      rw [← h.lists, chosen.head]
      exact h.inv'.heap.pos x chosen.mem.1
  · obtain ⟨t', B', run', alike, heap'⟩ := h.alike.buddyAlloc ed' h.inv.heap n run
    have within : ∀ a ∈ B ∪ upperHalves x (sizeToOrder n) d, s.heapBase ≤ a ∧ a + metaSize ≤ s.heapEnd :=
      fun a ha => Inv.header_within heap alloc.globals.heapBase ha
    rcases h.inv'.heap.buddyAlloc ed' n with ⟨run'', -⟩ | ⟨x', d', t'', run'', -, heapT, allocT⟩
    · obtain ⟨rfl, -⟩ := Prod.mk.inj (Option.some_inj.mp (run'.symm.trans run''))
      exact absurd rfl (h.inv.heap.pos 0 chosen.mem.1)
    · obtain ⟨rfl, rfl⟩ := Prod.mk.inj (Option.some_inj.mp (run'.symm.trans run''))
      have within' : ∀ a ∈ B ∪ upperHalves x (sizeToOrder n) d', t.heapBase ≤ a ∧ a + metaSize ≤ t.heapEnd :=
        fun a ha => Inv.header_within heapT allocT.globals.heapBase ha
      exact ⟨x, s', t', B', run, run', h.of_heap init heap' alike alloc.globals allocT.globals alloc.touches
        allocT.touches within within'⟩

/-- **`buddy_free_and_merge`** merges the same blocks. -/
theorem buddyFreeAndMerge (h : Twin s t B M) (hm : m ∈ B) (alloc : s.isFree m = false) :
    ∃ s' t' B', buddyFreeAndMerge m s = some s' ∧ Buddy.buddyFreeAndMerge m t = some t' ∧ Twin s' t' B' M := by
  have init := h.inv.initialized_of_mem (.inl hm)
  obtain ⟨s', t', B', run, run', heap, alike⟩ := h.alike.buddyFreeAndMerge h.inv.heap hm alloc
  obtain ⟨_, _, _, s'', _, runS, -, -, merged⟩ := h.inv.heap.buddyFreeAndMerge s.heapEnd_le hm alloc
  obtain rfl := Option.some_inj.mp (run.symm.trans runS)
  obtain ⟨_, _, _, t'', _, runT, -, -, merged'⟩ :=
    h.inv'.heap.buddyFreeAndMerge t.heapEnd_le hm ((h.isFree (.inl hm)).trans alloc)
  obtain rfl := Option.some_inj.mp (run'.symm.trans runT)
  exact ⟨s', t', B', run, run', h.of_heap init heap alike merged.globals merged'.globals merged.touches merged'.touches
    (fun a ha => Inv.header_within h.inv.heap rfl ha) fun a ha => Inv.header_within h.inv'.heap rfl ha⟩

/-! ## Regions -/

/-- **Mapping a region** on both sides. -/
theorem enlist {total : Nat} {huge : Bool} {raw : Nat} (h : Twin s t B M) (init : s.initialized = true)
    (fresh : FreshMaps os s) (answer : os.mmap huge total = some raw) (large : metaSize + mmapThreshold ≤ total)
    (ed ed' : Edition) : Twin (mmapEnlist ed huge raw total s) (mmapEnlist ed' huge raw total t) B (raw :: M) := by
  obtain ⟨inv, -, -⟩ := h.inv.enlist fresh answer init large ed
  have lt := (fresh.pos huge total raw answer).2
  have hm : raw ∈ {x | x ∈ B ∨ x ∈ raw :: M} := .inr List.mem_cons_self
  have head : s.mmapList = 0 ∨ s.mmapList ∈ {x | x ∈ B ∨ x ∈ raw :: M} :=
    h.inv.maps.head.imp_right fun mem => .inr (List.mem_cons_of_mem raw mem)
  refine ⟨inv, fun x hx => ?_, h.lists, h.base, h.initialized, rfl, ?_⟩
  · rw [mmapEnlist_header inv.places hm head ed huge (by omega) (by omega) hx,
      mmapEnlist_header (s := t) inv.places hm (h.mmapList.symm ▸ head) ed' huge (by omega) (by omega) hx, h.mmapList]
    by_cases e : x = raw
    · rw [if_pos e, if_pos e]
      exact ⟨rfl, fun _ => rfl, rfl, rfl, rfl⟩
    · have old : x ∈ B ∨ x ∈ M := hx.imp_right fun mem => (List.mem_cons.mp mem).resolve_left e
      have same := h.header x old
      rw [if_neg e, if_neg e]
      refine { same with prev := ?_ }
      simp only [State.prev, same.prev]
  · exact congrArg (List.cons (raw, total)) h.mapped

/-- **Unmapping a block** on both sides. -/
theorem mmapFree (h : Twin s t B M) (hm : m ∈ M) : Twin (mmapFree m s) (Buddy.mmapFree m t) B (M.erase m) := by
  have maps := h.inv.maps
  have places := h.inv.places
  have mem : m ∈ {x | x ∈ B ∨ x ∈ M} := .inr hm
  have same := h.header m (.inr hm)
  have hprev : s.prev m = 0 ∨ s.prev m ∈ {x | x ∈ B ∨ x ∈ M} := (maps.dll.prev_mem hm).imp_right .inr
  have hnext : s.next m = 0 ∨ s.next m ∈ {x | x ∈ B ∨ x ∈ M} :=
    or_iff_not_imp_left.mpr fun ne => .inr (maps.dll.next_mem hm ne)
  have nePrev : s.prev m ≠ m := maps.dll.prev_ne_self maps.nodup (fun zero => maps.dll.ne_null zero rfl) hm
  have prevM : t.prev m = s.prev m := same.prev
  have nextM : t.next m = s.next m := same.next
  have hdr : ∀ x ∈ {x | x ∈ B ∨ x ∈ M}, _ := fun x hx => mmapFree_header places mem hprev hnext nePrev hx
  have hdr' : ∀ x ∈ {x | x ∈ B ∨ x ∈ M}, _ := fun x hx =>
    mmapFree_header (s := t) places mem (prevM.symm ▸ hprev) (nextM.symm ▸ hnext) (prevM.symm ▸ nePrev) hx
  refine ⟨(h.inv.mmapFree hm).1, fun x hx => ?_, ?_, ?_, ?_, ?_, ?_⟩
  · have hx' : x ∈ B ∨ x ∈ M := hx.imp_right List.mem_of_mem_erase
    have sameX := h.header x hx'
    rw [hdr x hx', hdr' x hx', prevM, nextM]
    refine { sameX with next := ?_, prev := ?_ }
    · simp only [State.next, sameX.next]
    · simp only [State.prev, sameX.prev]
  · rw [mmapFree_freeLists, mmapFree_freeLists, h.lists]
  · unfold State.NoHeap
    rw [mmapFree_heapBase, mmapFree_heapBase, mmapFree_initialized]
    exact h.base
  · rw [mmapFree_initialized, mmapFree_initialized, h.initialized]
  · rw [mmapFree_mmapList, mmapFree_mmapList, prevM, nextM, h.mmapList]
  · rw [mmapFree_mapped, mmapFree_mapped, h.mapped, State.size, State.size, hdr m mem, hdr' m mem]
    simp only [same.size]

/-- Writing to the payload of a block on both sides, whatever is written. -/
theorem write {mem mem' : Mem} (h : Twin s t B M) (hx : x ∈ B ∨ x ∈ M) (fits : metaSize + n ≤ s.extent x)
    (touches : Mem.Touches {(x + metaSize, n)} s.mem mem) (touches' : Mem.Touches {(x + metaSize, n)} t.mem mem') :
    Twin { s with mem := mem } { t with mem := mem' } B M := by
  obtain ⟨inv, -, hdr, -⟩ := h.inv.write hx fits touches
  have extent : t.extent x = s.extent x := by rw [State.extent, State.extent, h.size hx, h.isMmap hx]
  obtain ⟨-, -, hdr', -⟩ := h.inv'.write hx (extent.symm ▸ fits) touches'
  refine { h with inv := inv, header := fun z hz => ?_ }
  simp only
  rw [hdr z hz, hdr' z hz]
  exact h.header z hz

end Twin

/-! ## Requests -/

/-- When the padding that `buddy_init` asks for is refused, so is the heap. malloc_3
stops at the refused padding, malloc_4 does not look at the answer. -/
def PaddingDecides (os : Os) : Prop :=
  breakRemainder os ≠ 0 → os.sbrk (totalHeapSize - breakRemainder os) = none → os.sbrk totalHeapSize = none

theorem PaddingDecides.sbrk_iff (h : PaddingDecides os) : SbrkSucceeds .malloc4 os ↔ SbrkSucceeds .malloc3 os :=
  ⟨fun ok => ⟨fun _ ne none => ok.2 (h ne none), ok.2⟩, fun ok => ⟨fun e => (nomatch e), ok.2⟩⟩

namespace Twin

/-- **`buddy_init`** sets up the same heap, or none. -/
theorem buddyInit (h : Twin s t B M) (sound : Sound os s) (pad : s.initialized = false → PaddingDecides os) :
    ∃ s' t' B', buddyInit .malloc3 os s = some s' ∧ Buddy.buddyInit .malloc4 os t = some t' ∧ Twin s' t' B' M ∧
      s'.initialized = true ∧ FreshMaps os s' := by
  obtain ⟨s', B', run, inv, init, boot, -, -, maps⟩ := h.inv.buddyInit sound .malloc3
  rcases boot with ⟨done, rfl, rfl⟩ | ⟨fresh, sbrk, -, -, blocks, -⟩ | ⟨fresh, sbrk, rfl, -⟩
  · exact ⟨s', t, B', run, buddyInit_of_initialized (h.initialized.trans done), h, init, maps⟩
  · have fresh' := h.initialized.trans fresh
    obtain ⟨base, answer, eq⟩ := buddyInit_up fresh sbrk
    obtain ⟨base', answer', eq'⟩ := buddyInit_up fresh' ((pad fresh).sbrk_iff.mpr sbrk)
    obtain rfl := Option.some_inj.mp (answer.symm.trans answer')
    obtain ⟨-, -, lists⟩ := h.inv.boot fresh
    obtain ⟨pos, lt, -⟩ := sound.heap fresh base answer
    rw [eq] at run
    obtain ⟨s₁, run₁, -, -, -, -, globals⟩ :=
      initBlocks_spec (s := { s with initialized := true, heapBase := base }) .malloc3 (n := initialBlocks) pos lists lt
    obtain ⟨t', run', -, -, -, -, globals'⟩ :=
      initBlocks_spec (s := { t with initialized := true, heapBase := base }) .malloc4 (n := initialBlocks) pos
        (h.lists.symm ▸ lists) lt
    obtain rfl := Option.some_inj.mp (run.symm.trans run₁)
    have alike := Alike.initBlocks (s := { s with initialized := true, heapBase := base })
      (t := { t with initialized := true, heapBase := base }) pos lists lt rfl h.lists run run'
    have noMaps := (h.inv.blocks_of_boot fresh).2
    have baseS : s'.heapBase = base := globals.heapBase
    refine ⟨s', t', B', eq.trans run, eq'.trans run', ⟨inv, fun x hx => ?_, alike.lists, .inl ?_, ?_, ?_, ?_⟩, init, maps⟩
    · rcases hx with hx | hx
      · rw [blocks, baseS] at hx
        exact (alike.header x hx).mono id
      · rw [noMaps] at hx
        exact absurd hx List.not_mem_nil
    · exact globals'.heapBase.trans baseS.symm
    · exact globals'.initialized.trans init.symm
    · exact globals'.mmapList.trans (h.mmapList.trans globals.mmapList.symm)
    · exact globals'.mapped.trans (h.mapped.trans globals.mapped.symm)
  · have fresh' := h.initialized.trans fresh
    have noMaps := (h.inv.blocks_of_boot fresh).2
    obtain ⟨base, none, eq⟩ := buddyInit_down fresh (h.inv.boot fresh).1 sbrk
    obtain ⟨base', none', eq'⟩ := buddyInit_down fresh' (h.inv'.boot fresh').1 fun ok => sbrk ((pad fresh).sbrk_iff.mp ok)
    obtain rfl := Option.some_inj.mp (run.symm.trans eq)
    refine ⟨_, _, ∅, eq, eq', ⟨inv, fun x hx => ?_, h.lists, .inr ⟨rfl, none, none'⟩, rfl, h.mmapList, h.mapped⟩, init,
      maps⟩
    rw [noMaps] at hx
    exact absurd hx (not_or.mpr ⟨Set.notMem_empty x, List.not_mem_nil⟩)

variable {size num : Nat}

/-- **A request** for which no huge pages are asked. -/
theorem allocate (h : Twin s t B M) (sound : Sound os s) (pad : s.initialized = false → PaddingDecides os)
    (small : size ≤ maxAllocSize) (hugepage : Bool) :
    ∃ x s' t' B' M', allocate .malloc3 os size hugepage s = some (x, s') ∧
      Buddy.allocate .malloc4 os size false t = some (x, t') ∧ Twin s' t' B' M' := by
  obtain ⟨s₁, t₁, B₁, run, run', twin, init, maps⟩ := h.buddyInit sound pad
  have max : maxAllocSize = 100000000 := rfl
  have word : metaSize = 32 := rfl
  simp only [Buddy.allocate, run, run', Option.bind_eq_bind, Option.bind_some]
  by_cases big : mmapThreshold ≤ size
  · rw [if_pos big, if_pos big]
    simp only [bigAlloc, mmapAlloc, mmapAllocInternal, Bool.false_eq_true, if_false]
    cases answer : os.mmap false (alignUp (metaSize + size) os.pageSize) with
    | none => exact ⟨0, s₁, t₁, B₁, M, rfl, rfl, twin⟩
    | some raw =>
      obtain ⟨j, hj, align⟩ := sound.page
      have round := (alignUp_spec (n := metaSize + size) hj (by omega)).1
      rw [← align] at round
      exact ⟨raw, _, _, B₁, raw :: M, rfl, rfl, twin.enlist init maps answer (by omega) .malloc3 .malloc4⟩
  · rw [if_neg big, if_neg big]
    obtain ⟨x, s', t', B', alloc, alloc', twin'⟩ := twin.buddyAlloc init .malloc3 .malloc4 size
    exact ⟨x, s', t', B', M, alloc, alloc', twin'⟩

/-- **`smalloc`** below the size from which malloc_4 asks for huge pages. -/
theorem smalloc (h : Twin s t B M) (sound : Sound os s) (pad : s.initialized = false → PaddingDecides os)
    (lt : size < hugepageSmalloc) :
    ∃ x s' t' B' M', smalloc .malloc3 os size s = some (userPtr x, s') ∧
      Buddy.smalloc .malloc4 os size t = some (userPtr x, t') ∧ Twin s' t' B' M' := by
  by_cases bad : Refused size
  · exact ⟨0, s, t, B, M, smalloc_of_refused bad, smalloc_of_refused bad, h⟩
  · have ok' : ¬(size = 0 ∨ exceedsMax size = true) := bad
    obtain ⟨x, s', t', B', M', run, run', twin⟩ :=
      h.allocate sound pad (not_refused.mp bad).2 (decide (hugepageSmalloc ≤ size))
    refine ⟨x, s', t', B', M', ?_, ?_, twin⟩
    · rw [smalloc_eq, if_neg ok', run]
      rfl
    · rw [smalloc_eq, if_neg ok', decide_eq_false (not_le.mpr lt), run']
      rfl

/-- **`scalloc`** of small elements, unless it clears past its block or its product
wraps to zero, which only malloc_3 refuses. -/
theorem scalloc (h : Twin s t B M) (sound : Sound os s) (pad : s.initialized = false → PaddingDecides os)
    (le : size ≤ hugepageScalloc) (wrap : num ≠ 0 → size ≠ 0 → product num size ≠ 0)
    (no : ¬Overruns .malloc3 os num size s) :
    ∃ p s' t' B' M', scalloc .malloc3 os num size s = some (p, s') ∧
      Buddy.scalloc .malloc4 os num size t = some (p, t') ∧ Twin s' t' B' M' := by
  by_cases bad : CallocRefused .malloc3 num size
  · have bad' : CallocRefused .malloc4 num size := by
      rcases bad with zero | zero | max | ⟨-, zero⟩
      · exact .inl zero
      · exact .inr (.inl zero)
      · exact .inr (.inr (.inl max))
      · by_contra ok
        obtain ⟨hn, hs, -⟩ := not_callocRefused ok
        exact wrap hn hs zero
    exact ⟨0, s, t, B, M, scalloc_of_refused bad, scalloc_of_refused bad', h⟩
  · have bad' : ¬CallocRefused .malloc4 num size := fun b => bad (b.imp_right fun b => b.imp_right fun b =>
      b.imp_right fun b => nomatch b.1)
    have small := (not_callocRefused bad).2.2.1
    have flag : decide (hugepageScalloc < size) = false := decide_eq_false (not_lt.mpr le)
    obtain ⟨x, s', t', B', M', run, run', twin⟩ := h.allocate sound pad small false
    obtain ⟨x', s₁, B₁, s'', B'', M'', runS, -, boot, inv, req⟩ := h.inv.allocate sound .malloc3 false small
    obtain ⟨rfl, rfl⟩ := Prod.mk.inj (Option.some_inj.mp (run.symm.trans runS))
    obtain ⟨rfl, rfl⟩ := twin.inv.unique inv
    rw [scalloc_eq bad, scalloc_eq bad', flag, run, run']
    by_cases null : x = 0
    · simp only [Option.map_some, if_pos null]
      exact ⟨0, s', t', _, _, rfl, rfl, twin⟩
    · simp only [Option.map_some, if_neg null]
      have grants := (req.result.resolve_left fun g => null g.1).2
      have hx : x ∈ Held s' B'' M'' := by
        rw [grants.held]
        exact Set.mem_insert x _
      have fits := (inv.usable_of_reserved (Inv.blocks_of_held hx) sound small grants.extent).1
        fun band => no ⟨band, (req.narrow boot band).mp null⟩
      have whole := inv.usable_eq (Inv.blocks_of_held hx)
      exact ⟨_, _, _, _, _, rfl, rfl, twin.write (Inv.blocks_of_held hx) (n := product num size) (by omega)
        (Inv.touches_memset s'.mem x _ 0) (Inv.touches_memset t'.mem x _ 0)⟩

/-- **`sfree`** of a live pointer. -/
theorem sfree (h : Twin s t B M) (hm : m ∈ Held s B M) :
    ∃ s' t' B' M', sfree (ptrFromMeta m) s = some s' ∧ Buddy.sfree (ptrFromMeta m) t = some t' ∧ Twin s' t' B' M' := by
  have flag := h.inv.held_flag hm
  have flag' := (h.isFree (Inv.blocks_of_held hm)).trans flag
  rcases hm with ⟨hm, -⟩ | hm
  · have heap := h.inv.heap.notMmap m hm
    have heap' := (h.isMmap (.inl hm)).trans heap
    obtain ⟨s', t', B', run, run', twin⟩ := h.buddyFreeAndMerge hm flag
    exact ⟨s', t', B', M, (sfree_heap flag heap).trans run, (sfree_heap flag' heap').trans run', twin⟩
  · have mmap := h.inv.maps.isMmap m hm
    have mmap' := (h.isMmap (.inr hm)).trans mmap
    exact ⟨_, _, B, M.erase m, sfree_mmap flag mmap, sfree_mmap flag' mmap', h.mmapFree hm⟩

/-! ## `srealloc` -/

/-- The merging of `srealloc`, in which malloc_3 writes flags that malloc_4 does not. -/
theorem reallocMerge {j o : Nat} (h : Twin s t B M) (hm : m ∈ B) (alloc : s.isFree m = false)
    (sizeM : s.size m = blockSize j) (sim : simulateMerge size s (maxOrder - j) m j = some o)
    (sim' : simulateMerge size t (maxOrder - j) m j = some o) :
    ∃ x s₁ t₁ B', mergeInto (o - j) m j (mark .malloc3 m s) = (x, s₁) ∧
      mergeInto (o - j) m j (mark .malloc4 m t) = (x, t₁) ∧
      Twin (settle x m (s.usable m) s₁) (settle x m (t.usable m) t₁) B' M := by
  have init := h.inv.initialized_of_mem (.inl hm)
  have order := h.inv.heap.order_le hm sizeM
  obtain ⟨merged, heap⟩ := h.inv.mark hm alloc sizeM .malloc3
  obtain ⟨merged', heap'⟩ := h.inv'.mark hm ((h.isFree (.inl hm)).trans alloc) ((h.size (.inl hm)).trans sizeM) .malloc4
  obtain ⟨x, s₁, B', run, heap₂, merged₂, -, lt, -⟩ := heap.growMerged merged order sim
  obtain ⟨x', t₁, B'', run', -, merged₂', -⟩ := heap'.growMerged merged' order sim'
  -- the block in hand is the only one whose flag differs
  have loose : Alike B {m} (Buddy.mark .malloc3 m s) (Buddy.mark .malloc4 m t) := by
    refine ⟨fun z hz => ?_, h.lists, fun z hz => h.alike.base z hz⟩
    have same := h.header z (.inl hz)
    change Matches _ ((s.mem.setIsFree m true).header z) (t.mem.header z)
    rw [h.inv.heap.places.slots.header_setIsFree hz hm]
    by_cases e : z = m
    · rw [if_pos e]
      exact { same with isFree := fun out => absurd e out }
    · rw [if_neg e]
      exact same.mono False.elim
  obtain ⟨x₃, s₃, t₃, B₃, run₃, run₃', heap₃, -, -, alike⟩ := loose.mergeInto heap merged (by omega) sim
  obtain ⟨rfl, rfl⟩ := Prod.mk.inj (run.symm.trans run₃)
  obtain ⟨rfl, rfl⟩ := Prod.mk.inj (run'.symm.trans run₃')
  obtain rfl : B' = B₃ := heap₂.tiles.unique (heap₃.setIsFree (heap₃.held rfl) rfl false).tiles
  have alike₂ := alike.setIsFree heap₃.places merged₂.mem false
  rw [Set.sdiff_self] at alike₂
  have twin := h.of_heap init heap₂.weaken alike₂ merged₂.globals merged₂'.globals merged₂.touches merged₂'.touches
    (fun a ha => Inv.header_within h.inv.heap rfl ha) fun a ha => Inv.header_within h.inv'.heap rfl ha
  refine ⟨x', s₁, t₁, B', run, run', ?_⟩
  by_cases e : x' = m
  · simp only [settle, e, ne_eq, not_true_eq_false, if_false]
    exact e ▸ twin
  · simp only [settle, e, ne_eq, not_false_eq_true, if_true]
    have whole := h.inv.usable_eq (.inl hm)
    have grow := blockSize_le lt.le
    rw [h.inv.extent_heap hm, sizeM] at whole
    rw [h.usable (.inl hm)]
    refine twin.write (x := x') (n := s.usable m) (.inl merged₂.mem) ?_ (Inv.touches_memmove _ _ _ _)
      (Inv.touches_memmove _ _ _ _)
    rw [twin.inv.extent_heap merged₂.mem, merged₂.size]
    omega

/-- The new block of `srealloc`'s last resort, with the old bytes copied to it. -/
theorem relocate (h : Twin s t B M) (sound : Sound os s) (lt : size < hugepageSmalloc) (ok : ¬Refused size)
    (hm : m ∈ Held s B M) (small : s.usable m < size) :
    ∃ x s₁ t₁ B₁ M₁, Buddy.smalloc .malloc3 os size s = some (userPtr x, s₁) ∧
      Buddy.smalloc .malloc4 os size t = some (userPtr x, t₁) ∧ Twin s₁ t₁ B₁ M₁ ∧
      (x ≠ 0 → m ∈ Held s₁ B₁ M₁ ∧ s₁.size m = s.size m ∧ s₁.isMmap m = s.isMmap m ∧
        Twin (copyTo (ptrFromMeta x) m (s.usable m) s₁) (copyTo (ptrFromMeta x) m (s.usable m) t₁) B₁ M₁ ∧
        m ∈ Held (copyTo (ptrFromMeta x) m (s.usable m) s₁) B₁ M₁) := by
  have init := h.inv.initialized_of_mem (Inv.blocks_of_held hm)
  obtain ⟨x, s₁, t₁, B₁, M₁, run, run', twin⟩ := h.smalloc sound (fun fresh => by simp [init] at fresh) lt
  obtain ⟨x', s₁', B', M', runS, inv, -, -, outcome⟩ := h.inv.relocate sound .malloc3 ok hm small
  obtain ⟨e, rfl⟩ := Prod.mk.inj (Option.some_inj.mp (run.symm.trans runS))
  obtain ⟨rfl, rfl⟩ := twin.inv.unique inv
  refine ⟨x, s₁, t₁, _, _, run, run', twin, fun pos => ?_⟩
  rcases outcome with ⟨rfl, -⟩ | ⟨pos', hx, hm₁, -, room, -, -, bytes, grants⟩
  · exact absurd (userPtr_eq_zero.mp e) pos
  · rw [userPtr_ne_zero pos, userPtr_ne_zero pos'] at e
    obtain rfl := ptrFromMeta_inj e
    have whole := inv.usable_eq (Inv.blocks_of_held hx)
    have keep := grants.keeps m hm
    have fits : metaSize + s.usable m ≤ s₁.extent x := by omega
    have touches := Inv.touches_memmove s₁.mem x (ptrFromMeta m) (s.usable m)
    obtain ⟨-, held, -, -⟩ := inv.write (Inv.blocks_of_held hx) fits touches
    exact ⟨hm₁, keep.size, keep.isMmap, twin.write (Inv.blocks_of_held hx) fits touches (Inv.touches_memmove _ _ _ _),
      held.symm ▸ hm₁⟩

/-- **`srealloc`** of a live pointer, below the size from which malloc_4 asks for huge pages. -/
theorem srealloc (h : Twin s t B M) (sound : Sound os s) (lt : size < hugepageSmalloc) (ok : ¬Refused size)
    (hm : m ∈ Held s B M) :
    ∃ p s' t' B' M', srealloc .malloc3 os (ptrFromMeta m) size s = some (p, s') ∧
      Buddy.srealloc .malloc4 os (ptrFromMeta m) size t = some (p, t') ∧ Twin s' t' B' M' := by
  have blocks := Inv.blocks_of_held hm
  have flag := h.inv.held_flag hm
  have usable := h.usable blocks
  rcases id hm with ⟨hmB, -⟩ | hmM
  · have heap := h.inv.heap.notMmap m hmB
    have heap' := (h.isMmap blocks).trans heap
    by_cases fits : size ≤ s.usable m
    · exact ⟨_, s, t, B, M, srealloc_fits ok heap fits, srealloc_fits ok heap' (usable.symm ▸ fits), h⟩
    have small : s.usable m < size := not_le.mp fits
    obtain ⟨j, order, sizeM, -⟩ := h.inv.heap.size_cases hmB
    have getOrd := getOrder_eq sizeM order
    have getOrd' := getOrder_eq ((h.size blocks).trans sizeM) order
    have hold : HeapInv False s s.heapEnd B {m} := insert_empty_eq (β := Set Nat) m ▸ h.inv.heap.hold hmB flag
    have simEq : simulateMerge size t (maxOrder - j) m j = simulateMerge size s (maxOrder - j) m j :=
      h.alike.simulateMerge hold (Merged.refl hmB sizeM) (by omega)
    cases sim : simulateMerge size s (maxOrder - j) m j with
    | some o =>
      obtain ⟨x, s₁, t₁, B', run, run', twin⟩ := h.reallocMerge hmB flag sizeM sim (simEq.trans sim)
      refine ⟨ptrFromMeta x, _, _, B', M, ?_, ?_, twin⟩
      · rw [srealloc_merge ok heap small (getOrd ▸ sim), getOrd, run]
      · rw [srealloc_merge ok heap' (usable.symm ▸ small) (getOrd' ▸ simEq.trans sim), getOrd', run']
    | none =>
      obtain ⟨x, s₁, t₁, B₁, M₁, run, run', twin, moved⟩ := h.relocate sound lt ok hm small
      rw [srealloc_copy ok heap small (getOrd ▸ sim), srealloc_copy ok heap' (usable.symm ▸ small)
        (getOrd' ▸ simEq.trans sim), run, run', usable]
      simp only [Option.bind_some]
      by_cases null : x = 0
      · subst null
        exact ⟨0, s₁, t₁, B₁, M₁, rfl, rfl, twin⟩
      · obtain ⟨-, -, -, twin₂, hm₂⟩ := moved null
        have flag₂ := twin₂.inv.held_flag hm₂
        obtain ⟨s', t', B', M', free, free', twin'⟩ := twin₂.sfree hm₂
        rw [userPtr_ne_zero null]
        simp only [if_neg (ptrFromMeta_ne_zero x)]
        rw [unmark_eq _ flag₂, unmark_eq _ ((twin₂.isFree (Inv.blocks_of_held hm₂)).trans flag₂), free, free']
        exact ⟨_, s', t', B', M', rfl, rfl, twin'⟩
  · have mmap := h.inv.maps.isMmap m hmM
    have size' := h.size blocks
    have whole : s.usable m = s.size m := by rw [State.usable, mmap, if_pos rfl]
    rw [srealloc_mmap ok mmap, srealloc_mmap ok ((h.isMmap blocks).trans mmap), size']
    by_cases fits : size ≤ s.size m
    · rw [if_pos fits, if_pos fits]
      exact ⟨_, s, t, B, M, rfl, rfl, h⟩
    · obtain ⟨x, s₁, t₁, B₁, M₁, run, run', twin, moved⟩ :=
        h.relocate sound lt ok hm (whole.symm ▸ not_le.mp fits)
      rw [if_neg fits, if_neg fits, run, run', Option.map_some, Option.map_some]
      by_cases null : x = 0
      · subst null
        exact ⟨0, s₁, t₁, B₁, M₁, rfl, rfl, twin⟩
      · obtain ⟨hm₁, sizeM, mmap₁, twin₂, -⟩ := moved null
        have inList : m ∈ M₁ := by
          rcases hm₁ with ⟨inHeap, -⟩ | inList
          · rw [mmap, twin.inv.heap.notMmap m inHeap] at mmap₁
            exact Bool.noConfusion mmap₁
          · exact inList
        rw [userPtr_ne_zero null]
        simp only [if_neg (ptrFromMeta_ne_zero x)]
        rw [twin.size (.inr inList), sizeM, ← whole]
        exact ⟨_, _, _, _, _, rfl, rfl, twin₂.mmapFree inList⟩

end Twin

end OsProjects.Malloc.Buddy
