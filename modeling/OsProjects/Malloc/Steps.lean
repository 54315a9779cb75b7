import OsProjects.Lib.Runs
import OsProjects.Malloc.Coalesce
import OsProjects.Malloc.Run

/-!
# Calls as elementary steps

Every call is a sequence of elementary steps: setting up the heap, taking a block,
merging blocks, mapping and unmapping a region, writing payload bytes. `Steps` carries
the invariant from step to step, so a property of the allocator holds in every run as
soon as each of the six steps keeps it (`Reachable.keeps`).
-/

namespace OsProjects.Malloc.Buddy

open Links Tiling

/-- The allocator with the blocks of its heap and its mmap list. -/
structure Config where
  st : State
  blocks : Set Nat
  maps : List Nat

variable {listed : Prop} {ed : Edition} {os : Os} {s s' s₁ : State} {m n p q x y z size num : Nat}
  {B B' B₁ : Set Nat} {M M' M₁ : List Nat} {c c' : Config} {w w' : World} {call : Call}

/-- The elementary steps. -/
inductive Prim (ed : Edition) : Config → Config → Prop where
  /-- `buddy_init`: a heap of free blocks of the largest order, or none at all. -/
  | boot {s s' : State} {B : Set Nat} (top : ∀ x ∈ B, s'.size x = blockSize maxOrder) : Prim ed ⟨s, ∅, []⟩ ⟨s', B, []⟩
  /-- `buddy_alloc`. -/
  | take {s s' : State} {B : Set Nat} {M : List Nat} {x t d : Nat} (chosen : Chosen s B x t d)
      (alloc : Allocated s s' B x t d) (maps : ∀ z ∈ M, s'.mem.header z = s.mem.header z) :
      Prim ed ⟨s, B, M⟩ ⟨s', B ∪ upperHalves x t d, M⟩
  /-- The merging of `sfree` and `srealloc`. -/
  | merge {s s' : State} {B B' : Set Nat} {M : List Nat} {m x j k : Nat} (merged : Merged s s' B B' m x j k)
      (apart : k < maxOrder → s'.isFree x = true → getBuddy s' x k ∉ FreeOf s' B' ∅ k)
      (maps : ∀ z ∈ M, s'.mem.header z = s.mem.header z) : Prim ed ⟨s, B, M⟩ ⟨s', B', M⟩
  /-- A new region, on huge pages only when its length is a multiple of one. -/
  | map {s : State} {B : Set Nat} {M : List Nat} {huge : Bool} {raw total : Nat} (large : metaSize ≤ total)
      (lt : total < 2 ^ 64) (whole : huge = true → hugepageSize ∣ total)
      (heap : ∀ z ∈ B, (mmapEnlist ed huge raw total s).mem.header z = s.mem.header z) :
      Prim ed ⟨s, B, M⟩ ⟨mmapEnlist ed huge raw total s, B, raw :: M⟩
  /-- A region is unmapped. -/
  | unmap {s : State} {B : Set Nat} {M : List Nat} {m : Nat} (mem : m ∈ M)
      (heap : ∀ z ∈ B, (mmapFree m s).mem.header z = s.mem.header z) :
      Prim ed ⟨s, B, M⟩ ⟨mmapFree m s, B, M.erase m⟩
  /-- Bytes that belong to no header are written. -/
  | write {s : State} {B : Set Nat} {M : List Nat} {mem : Mem}
      (same : ∀ z, z ∈ B ∨ z ∈ M → mem.header z = s.mem.header z) : Prim ed ⟨s, B, M⟩ ⟨{ s with mem := mem }, B, M⟩

/-- An elementary step between states that satisfy the invariant. -/
structure Step (ed : Edition) (c c' : Config) : Prop where
  prim : Prim ed c c'
  before : Inv False c.st c.blocks c.maps
  after : Inv False c'.st c'.blocks c'.maps

/-- A sequence of elementary steps. -/
def Steps (ed : Edition) : Config → Config → Prop := Relation.ReflTransGen (Step ed)

theorem Steps.refl (c : Config) : Steps ed c c := Relation.ReflTransGen.refl

theorem Steps.single (h : Step ed c c') : Steps ed c c' := Relation.ReflTransGen.single h

theorem Steps.trans {c'' : Config} (h : Steps ed c c') (h' : Steps ed c' c'') : Steps ed c c'' :=
  Relation.ReflTransGen.trans h h'

/-- **What every step keeps, a sequence of steps keeps.** -/
theorem Steps.keeps {P : Config → Prop} (keeps : ∀ c c', Step ed c c' → P c → P c') (h : Steps ed c c') (start : P c) :
    P c' :=
  Runs.keeps (fun c c' start step => keeps c c' step start) h start

/-! ## The steps of each call -/

theorem Inv.buddyInit_steps (h : Inv False s B M) (sound : Sound os s) (run : Buddy.buddyInit ed os s = some s') :
    ∃ B', Inv False s' B' M ∧ s'.initialized = true ∧ FreshMaps os s' ∧ Steps ed ⟨s, B, M⟩ ⟨s', B', M⟩ := by
  obtain ⟨t, B', run', inv, init, boot, -, -, fresh⟩ := h.buddyInit sound ed
  obtain rfl := Option.some_inj.mp (run'.symm.trans run)
  refine ⟨B', inv, init, fresh, ?_⟩
  rcases boot with ⟨-, rfl, rfl⟩ | ⟨none, -, -, -, -, free, -⟩ | ⟨none, -, rfl, -⟩
  · exact Steps.refl _
  · obtain ⟨rfl, rfl⟩ := h.blocks_of_boot none
    exact Steps.single ⟨.boot fun x hx => (free x hx).2.trans blockSize_maxOrder.symm, h, inv⟩
  · obtain ⟨rfl, rfl⟩ := h.blocks_of_boot none
    exact Steps.single ⟨.boot fun x hx => absurd hx (Set.notMem_empty x), h, inv⟩

theorem Inv.buddyAlloc_steps (h : Inv False s B M) (init : s.initialized = true)
    (run : Buddy.buddyAlloc ed n s = some (x, s')) : ∃ B', Inv False s' B' M ∧ Steps ed ⟨s, B, M⟩ ⟨s', B', M⟩ := by
  rcases h.buddyAlloc init ed n with ⟨none, -⟩ | ⟨y, d, t, run', chosen, inv, alloc, -⟩
  · obtain ⟨-, rfl⟩ := Prod.mk.inj (Option.some_inj.mp (none.symm.trans run))
    exact ⟨B, h, Steps.refl _⟩
  · obtain ⟨rfl, rfl⟩ := Prod.mk.inj (Option.some_inj.mp (run'.symm.trans run))
    have inv' := inv.weaken (False.elim : False → _)
    refine ⟨_, inv', Steps.single ⟨.take chosen alloc fun z hz => ?_, h, inv'⟩⟩
    have stop : t.heapEnd = s.heapEnd := State.heapEnd_congr alloc.globals.heapBase
    have heap := inv.heap
    rw [stop] at heap
    exact h.map_header alloc.touches (fun a ha => Inv.header_within heap alloc.globals.heapBase ha) hz

/-- A region for a request that `smalloc` or `scalloc` sends to mmap. -/
theorem Inv.bigAlloc_steps {hugepage : Bool} (h : Inv False s B M) (sound : Sound os s₁) (fresh : FreshMaps os s)
    (init : s.initialized = true) (small : size ≤ maxAllocSize) (big : mmapThreshold ≤ size)
    (run : bigAlloc ed os size hugepage s = (x, s')) : ∃ M', Inv False s' B M' ∧ Steps ed ⟨s, B, M⟩ ⟨s', B, M'⟩ := by
  rcases bigAlloc_cases ed os size hugepage s with ⟨null, -⟩ | ⟨huge, raw, answer, align, block⟩
  · obtain ⟨-, rfl⟩ := Prod.mk.inj (null.symm.trans run)
    exact ⟨M, h, Steps.refl _⟩
  · obtain ⟨-, rfl⟩ := Prod.mk.inj (block.symm.trans run)
    have max : maxAllocSize = 100000000 := rfl
    have threshold : mmapThreshold = 131072 := rfl
    have word : metaSize = 32 := rfl
    obtain ⟨j, hj, pow⟩ := mapAlign_pow sound ed hugepage
    obtain ⟨round, -, dvd⟩ := alignUp_spec (n := metaSize + size) hj (by omega)
    rw [← pow] at round dvd
    set total := alignUp (metaSize + size) (mapAlign ed os hugepage)
    obtain ⟨inv, -, pos⟩ := h.enlist fresh answer init (by omega) ed
    have lt := (fresh.pos huge total raw answer).2
    obtain ⟨-, -, -, touches, -⟩ :=
      h.maps.enlist (m := raw) lt (by omega) (h.freshRegion fresh answer) ed huge pos
    refine ⟨raw :: M, inv, Steps.single ⟨.map (by omega) (by omega) (fun e => align e ▸ dvd) fun z hz => ?_, h, inv⟩⟩
    exact h.header_of_mapped fresh answer touches (by omega) hz

theorem Inv.allocate_steps {hugepage : Bool} (h : Inv False s B M) (sound : Sound os s) (small : size ≤ maxAllocSize)
    (run : Buddy.allocate ed os size hugepage s = some (x, s')) :
    ∃ B' M', Inv False s' B' M' ∧ Steps ed ⟨s, B, M⟩ ⟨s', B', M'⟩ := by
  obtain ⟨t, boot, run⟩ := Option.bind_eq_some_iff.mp run
  obtain ⟨B₁, inv, init, fresh, first⟩ := h.buddyInit_steps sound boot
  split_ifs at run with big
  · obtain ⟨M', inv', last⟩ := inv.bigAlloc_steps sound fresh init small big (Option.some_inj.mp run)
    exact ⟨B₁, M', inv', first.trans last⟩
  · obtain ⟨B', inv', last⟩ := inv.buddyAlloc_steps init run
    exact ⟨B', M, inv', first.trans last⟩

theorem Inv.smalloc_steps (h : Inv False s B M) (sound : Sound os s) (run : Buddy.smalloc ed os size s = some (p, s')) :
    ∃ B' M', Inv False s' B' M' ∧ Steps ed ⟨s, B, M⟩ ⟨s', B', M'⟩ := by
  by_cases bad : Refused size
  · rw [smalloc_of_refused bad] at run
    obtain ⟨-, rfl⟩ := Prod.mk.inj (Option.some_inj.mp run)
    exact ⟨B, M, h, Steps.refl _⟩
  · have ok : ¬(size = 0 ∨ exceedsMax size = true) := bad
    rw [smalloc_eq, if_neg ok] at run
    obtain ⟨⟨x, t⟩, block, e⟩ := Option.map_eq_some_iff.mp run
    obtain ⟨-, rfl⟩ := Prod.mk.inj e
    exact h.allocate_steps sound (not_refused.mp bad).2 block

/-- Stores to the payload of a block that is held. -/
theorem Inv.write_steps {mem : Mem} (ed : Edition) (h : Inv False s B M) (hx : x ∈ Held s B M) (fits : n ≤ s.usable x)
    (touches : Mem.Touches {(x + metaSize, n)} s.mem mem) :
    Inv False { s with mem := mem } B M ∧ Held { s with mem := mem } B M = Held s B M ∧
      (∀ z ∈ Held s B M, z ≠ x → Keeps s { s with mem := mem } z) ∧
      Steps ed ⟨s, B, M⟩ ⟨{ s with mem := mem }, B, M⟩ := by
  have blocks := Inv.blocks_of_held hx
  have whole := h.usable_eq blocks
  obtain ⟨inv, held, hdr, keeps⟩ := h.write blocks (by omega) touches
  exact ⟨inv, held, fun z hz => keeps z (Inv.blocks_of_held hz), Steps.single ⟨.write hdr, h, inv⟩⟩

theorem Inv.sfree_steps (ed : Edition) (h : Inv False s B M) (hm : m ∈ Held s B M)
    (run : Buddy.sfree (ptrFromMeta m) s = some s') : ∃ B' M', Inv False s' B' M' ∧ Steps ed ⟨s, B, M⟩ ⟨s', B', M'⟩ := by
  have flag := h.held_flag hm
  rcases hm with ⟨hm, -⟩ | hm
  · rw [sfree_heap flag (h.heap.notMmap m hm)] at run
    obtain ⟨x, j, k, t, B', run', -, heap, freed⟩ := h.heap.buddyFreeAndMerge s.heapEnd_le hm flag
    obtain rfl := Option.some_inj.mp (run'.symm.trans run)
    obtain ⟨inv, -⟩ := h.of_merged hm freed.toMerged heap
    refine ⟨B', M, inv, Steps.single ⟨.merge freed.toMerged (fun lt _ => freed.apart lt) fun z hz => ?_, h, inv⟩⟩
    exact h.map_header freed.touches (fun a ha => Inv.header_within h.heap rfl ha) hz
  · rw [sfree_mmap flag (h.maps.isMmap m hm)] at run
    obtain rfl := Option.some_inj.mp run
    obtain ⟨inv, -⟩ := h.mmapFree hm
    exact ⟨B, M.erase m, inv, Steps.single ⟨.unmap hm fun z hz => h.mmapFree_header hm hz, h, inv⟩⟩

/-- `srealloc` that merges: one merge, and a copy when the start of the block moved. -/
theorem Inv.grow_steps {o : Nat} (ed : Edition) (h : Inv False s B M) (hm : m ∈ B) (alloc : s.isFree m = false)
    (small : s.usable m < size)
    (sim : simulateMerge size s (maxOrder - getOrder s m) m (getOrder s m) = some o) :
    ∃ x s₁ B', mergeInto (o - getOrder s m) m (getOrder s m) (Buddy.mark ed m s) = (x, s₁) ∧
      Inv False (settle x m (s.usable m) s₁) B' M ∧ Steps ed ⟨s, B, M⟩ ⟨settle x m (s.usable m) s₁, B', M⟩ := by
  obtain ⟨j, order, sizeM, -⟩ := h.heap.size_cases hm
  obtain ⟨merged₀, held⟩ := h.mark hm alloc sizeM ed
  rw [getOrder_eq sizeM order] at sim ⊢
  obtain ⟨x, s₁, B', run, heap, merged, flag, -, fits⟩ := held.growMerged merged₀ order sim
  refine ⟨x, s₁, B', run, ?_⟩
  set s₂ : State := { s₁ with mem := s₁.mem.setIsFree x false } with hs₂
  obtain ⟨inv, -⟩ := h.of_merged hm merged heap
  have grown : Steps ed ⟨s, B, M⟩ ⟨s₂, B', M⟩ := by
    refine Steps.single ⟨.merge merged (fun _ free => ?_) fun z hz => ?_, h, inv⟩
    · exact Bool.noConfusion (flag.symm.trans free)
    · exact h.map_header merged.touches (fun a ha => Inv.header_within h.heap rfl ha) hz
  by_cases e : x = m
  · subst e
    rw [settle_same]
    exact ⟨inv, grown⟩
  · rw [settle_moved e]
    have room : s.usable m ≤ s₂.usable x := by
      rw [inv.usable_of_merged merged.mem merged.size]
      omega
    obtain ⟨inv', -, -, last⟩ := inv.write_steps ed (.inl ⟨merged.mem, flag⟩) room
      (Inv.touches_memmove s₂.mem x (ptrFromMeta m) (s.usable m))
    exact ⟨inv', grown.trans last⟩

/-- A new block that has the bytes of the old one. -/
theorem Inv.copy_steps (h : Inv False s B M) (sound : Sound os s) (ok : ¬Refused size) (hm : m ∈ Held s B M)
    (small : s.usable m < size) (alloc : Buddy.smalloc ed os size s = some (q, s₁)) (pos : q ≠ 0) :
    ∃ B₁ M₁, Inv False (copyTo q m (s.usable m) s₁) B₁ M₁ ∧ m ∈ Held (copyTo q m (s.usable m) s₁) B₁ M₁ ∧
      Keeps s (copyTo q m (s.usable m) s₁) m ∧ Steps ed ⟨s, B, M⟩ ⟨copyTo q m (s.usable m) s₁, B₁, M₁⟩ := by
  obtain ⟨x, t, B₁, M₁, run, inv, -, -, outcome⟩ := h.relocate sound ed ok hm small
  obtain ⟨rfl, rfl⟩ := Prod.mk.inj (Option.some_inj.mp (run.symm.trans alloc))
  rcases outcome with ⟨rfl, -⟩ | ⟨notNull, hx, hm₁, ne, room, -, -, bytes, grants⟩
  · exact absurd rfl pos
  rw [userPtr_ne_zero notNull]
  obtain ⟨B₂, M₂, inv₂, first⟩ := h.smalloc_steps sound alloc
  obtain ⟨rfl, rfl⟩ := inv.unique inv₂
  obtain ⟨inv₃, held, keeps, second⟩ := inv₂.write_steps ed hx room
    (Inv.touches_memmove t.mem x (ptrFromMeta m) (s.usable m))
  exact ⟨B₂, M₂, inv₃, held.symm ▸ hm₁, (grants.keeps m hm).trans (keeps m hm₁ ne.symm), first.trans second⟩

/-- The last resort of `srealloc`: allocate, copy, free. -/
theorem Inv.reallocCopy_steps (h : Inv False s B M) (sound : Sound os s) (ok : ¬Refused size) (hm : m ∈ Held s B M)
    (small : s.usable m < size) (alloc : Buddy.smalloc ed os size s = some (q, s₁)) (pos : q ≠ 0)
    (free : Buddy.sfree (ptrFromMeta m) (copyTo q m (s.usable m) s₁) = some s') :
    ∃ B' M', Inv False s' B' M' ∧ Steps ed ⟨s, B, M⟩ ⟨s', B', M'⟩ := by
  obtain ⟨B₁, M₁, inv, hm₁, -, first⟩ := h.copy_steps sound ok hm small alloc pos
  obtain ⟨B', M', inv', last⟩ := inv.sfree_steps ed hm₁ free
  exact ⟨B', M', inv', first.trans last⟩

theorem Inv.srealloc_steps (h : Inv False s B M) (sound : Sound os s) (hm : m ∈ Held s B M)
    (run : Buddy.srealloc ed os (ptrFromMeta m) size s = some (p, s')) :
    ∃ B' M', Inv False s' B' M' ∧ Steps ed ⟨s, B, M⟩ ⟨s', B', M'⟩ := by
  have stays : ∀ {q t}, some (q, t) = some (p, s') → t = s → ∃ B' M', Inv False s' B' M' ∧
      Steps ed ⟨s, B, M⟩ ⟨s', B', M'⟩ := fun e same => by
    obtain ⟨-, rfl⟩ := Prod.mk.inj (Option.some_inj.mp e)
    subst same
    exact ⟨B, M, h, Steps.refl _⟩
  by_cases bad : Refused size
  · exact stays ((srealloc_of_refused bad).symm.trans run) rfl
  have flag := h.held_flag hm
  obtain fits | small := le_or_gt size (s.usable m)
  · rcases hm with ⟨hm, -⟩ | hm
    · exact stays ((srealloc_fits bad (h.heap.notMmap m hm) fits).symm.trans run) rfl
    · have mmap := h.maps.isMmap m hm
      rw [State.usable, mmap, if_pos rfl] at fits
      rw [srealloc_mmap bad mmap, if_pos fits] at run
      exact stays run rfl
  obtain ⟨q, t, alloc, -, outcome⟩ := h.reallocCopy sound ed bad hm small
  rcases hm with ⟨hmB, -⟩ | hmM
  · cases sim : simulateMerge size s (maxOrder - getOrder s m) m (getOrder s m) with
    | some o =>
      obtain ⟨x, s₁, B', merges, inv', steps⟩ := h.grow_steps ed hmB flag small sim
      rw [srealloc_merge bad (h.heap.notMmap m hmB) small sim, merges] at run
      obtain ⟨-, rfl⟩ := Prod.mk.inj (Option.some_inj.mp run)
      exact ⟨B', M, inv', steps⟩
    | none =>
      rw [srealloc_copy bad (h.heap.notMmap m hmB) small sim, alloc, Option.bind_some] at run
      rcases outcome with ⟨rfl, -⟩ | ⟨pos, flag', -⟩
      · obtain ⟨-, rfl⟩ := Prod.mk.inj (Option.some_inj.mp run)
        exact h.smalloc_steps sound alloc
      · rw [if_neg pos, unmark_eq ed flag'] at run
        obtain ⟨t', free, e⟩ := Option.map_eq_some_iff.mp run
        obtain ⟨-, rfl⟩ := Prod.mk.inj e
        exact h.reallocCopy_steps sound bad (.inl ⟨hmB, flag⟩) small alloc pos free
  · have mmap := h.maps.isMmap m hmM
    have usable : s.usable m = s.size m := by rw [State.usable, mmap, if_pos rfl]
    rw [srealloc_mmap bad mmap, if_neg (usable ▸ not_le.mpr small), alloc, Option.map_some] at run
    rcases outcome with ⟨rfl, -⟩ | ⟨pos, flag', mmap', size', -⟩
    · obtain ⟨-, rfl⟩ := Prod.mk.inj (Option.some_inj.mp run)
      exact h.smalloc_steps sound alloc
    · rw [if_neg pos] at run
      obtain ⟨-, rfl⟩ := Prod.mk.inj (Option.some_inj.mp run)
      have free := sfree_mmap flag' (mmap'.trans mmap)
      rw [size', ← usable]
      exact h.reallocCopy_steps sound bad (.inr hmM) small alloc pos free

theorem Inv.scalloc_steps (h : Inv False s B M) (sound : Sound os s) (no : ¬Overruns ed os num size s)
    (run : Buddy.scalloc ed os num size s = some (p, s')) :
    ∃ B' M', Inv False s' B' M' ∧ Steps ed ⟨s, B, M⟩ ⟨s', B', M'⟩ := by
  by_cases bad : CallocRefused ed num size
  · rw [scalloc_of_refused bad] at run
    obtain ⟨-, rfl⟩ := Prod.mk.inj (Option.some_inj.mp run)
    exact ⟨B, M, h, Steps.refl _⟩
  rw [scalloc_eq bad] at run
  obtain ⟨⟨x, t⟩, block, e⟩ := Option.map_eq_some_iff.mp run
  have small := (not_callocRefused bad).2.2.1
  obtain ⟨B₁, M₁, inv, first⟩ := h.allocate_steps sound small block
  by_cases null : x = 0
  · simp only [if_pos null] at e
    obtain ⟨-, rfl⟩ := Prod.mk.inj e
    exact ⟨B₁, M₁, inv, first⟩
  simp only [if_neg null] at e
  obtain ⟨-, rfl⟩ := Prod.mk.inj e
  obtain ⟨y, s₀, B₀, t', B₂, M₂, block', -, boot, inv', req⟩ := h.allocate sound ed (decide (hugepageScalloc < size)) small
  obtain ⟨rfl, rfl⟩ := Prod.mk.inj (Option.some_inj.mp (block'.symm.trans block))
  obtain ⟨rfl, rfl⟩ := inv'.unique inv
  have grants := (req.result.resolve_left fun g => null g.1).2
  have hx : y ∈ Held t' B₁ M₁ := by
    rw [grants.held]
    exact Set.mem_insert y _
  have fits := (inv.usable_of_reserved (Inv.blocks_of_held hx) sound small grants.extent).1
    fun band => no ⟨band, (req.narrow boot band).mp null⟩
  obtain ⟨inv'', -, -, last⟩ := inv.write_steps ed hx fits (Inv.touches_memset t'.mem y (product num size) 0)
  exact ⟨B₁, M₁, inv'', first.trans last⟩

/-! ## Runs -/

/-- **A permitted call is a sequence of elementary steps.** -/
theorem exec_steps (h : Inv False w.st B M) (live : LivePtrs w B M) (ok : Permitted ed w os call)
    (run : exec ed os call w = some (p, w')) : ∃ B' M', Inv False w'.st B' M' ∧ Steps ed ⟨w.st, B, M⟩ ⟨w'.st, B', M'⟩ := by
  have pointer : ∀ {q}, q ≠ 0 → q = 0 ∨ q ∈ w.live → ∃ x ∈ Held w.st B M, q = ptrFromMeta x := fun ne arg =>
    (live _).mp (arg.resolve_left ne)
  cases call with
  | smalloc size =>
    obtain ⟨⟨q, t⟩, alloc, e⟩ := Option.bind_eq_some_iff.mp run
    obtain ⟨-, rfl⟩ := Prod.mk.inj (Option.some_inj.mp e)
    exact h.smalloc_steps ok.sound alloc
  | scalloc num size =>
    obtain ⟨⟨q, t⟩, alloc, e⟩ := Option.bind_eq_some_iff.mp run
    obtain ⟨-, rfl⟩ := Prod.mk.inj (Option.some_inj.mp e)
    exact h.scalloc_steps ok.sound ok.args.2.2 alloc
  | sfree q =>
    obtain ⟨t, free, e⟩ := Option.bind_eq_some_iff.mp run
    obtain ⟨-, rfl⟩ := Prod.mk.inj (Option.some_inj.mp e)
    by_cases null : q = 0
    · simp only [Buddy.sfree, if_pos null] at free
      obtain rfl := Option.some_inj.mp free
      exact ⟨B, M, h, Steps.refl _⟩
    · obtain ⟨x, hx, rfl⟩ := pointer null ok.args
      exact h.sfree_steps ed hx free
  | srealloc q size =>
    obtain ⟨⟨r, t⟩, alloc, e⟩ := Option.bind_eq_some_iff.mp run
    obtain ⟨-, rfl⟩ := Prod.mk.inj (Option.some_inj.mp e)
    by_cases bad : Refused size
    · rw [srealloc_of_refused bad] at alloc
      obtain ⟨-, rfl⟩ := Prod.mk.inj (Option.some_inj.mp alloc)
      exact ⟨B, M, h, Steps.refl _⟩
    by_cases null : q = 0
    · rw [srealloc_null bad null] at alloc
      exact h.smalloc_steps ok.sound alloc
    · obtain ⟨x, hx, rfl⟩ := pointer null ok.args.2
      exact h.srealloc_steps ok.sound hx alloc
  | write a b =>
    obtain ⟨-, rfl⟩ := Prod.mk.inj (Option.some_inj.mp run)
    obtain ⟨q, hq, low, high⟩ := ok.args
    obtain ⟨x, hx, rfl⟩ := (live q).mp hq
    rw [metaFromPtr_ptrFromMeta] at high
    have touches : Mem.Touches {(x + metaSize, w.st.usable x)} w.st.mem (w.st.mem.store8 a b) :=
      Mem.touches_store8 (r := (x + metaSize, w.st.usable x)) rfl low high
    obtain ⟨inv, -, -, last⟩ := h.write_steps ed hx (le_refl _) touches
    exact ⟨B, M, inv, last⟩

/-- **What holds at the start and is kept by every elementary step holds in every
reachable world.** -/
theorem Reachable.keeps {P : Config → Prop} {Ok : World → Os → Call → Prop} (reach : Reachable ed Ok w)
    (permits : ∀ w os call, Ok w os call → Permitted ed w os call) (start : ∀ mem, P ⟨State.start mem, ∅, []⟩)
    (keeps : ∀ c c', Step ed c c' → P c → P c') :
    ∃ B M, Inv False w.st B M ∧ LivePtrs w B M ∧ P ⟨w.st, B, M⟩ := by
  induction reach with
  | start mem =>
    obtain ⟨B, M, inv, live⟩ := (Good.start mem).weaken (False.elim : False → _)
    obtain ⟨rfl, rfl⟩ := (Inv.start mem).unique inv
    exact ⟨∅, [], inv, live, start mem⟩
  | @step w w' os call p reach ok run ih =>
    obtain ⟨B, M, inv, live, holds⟩ := ih
    have permitted := permits w os call ok
    obtain ⟨p', w'', run', good, -⟩ := Good.exec ⟨B, M, inv, live⟩ permitted
    obtain ⟨-, rfl⟩ := Prod.mk.inj (Option.some_inj.mp (run.symm.trans run'))
    obtain ⟨B', M', inv', steps⟩ := exec_steps inv live permitted run
    obtain ⟨B'', M'', inv'', live'⟩ := good
    obtain ⟨rfl, rfl⟩ := inv''.unique inv'
    exact ⟨B', M', inv', live', steps.keeps keeps holds⟩

/-! ## Coalesced heaps -/

/-- **Every elementary step keeps the heap coalesced.** -/
theorem Step.coalesced (step : Step ed c c') (h : Coalesced c.st c.blocks) : Coalesced c'.st c'.blocks := by
  obtain ⟨prim, before, after⟩ := step
  cases prim with
  | boot top => exact coalesced_of_top top
  | take chosen alloc maps => exact alloc.coalesced before.heap chosen after.heap.tiles.lower h
  | merge merged apart maps => exact merged.coalesced after.heap h apart
  | map large lt whole heap => exact h.congr rfl heap
  | unmap mem heap => exact h.congr (mmapFree_heapBase _ _) heap
  | write same => exact h.congr rfl fun z hz => same z (.inl hz)

/-- **In every reachable world the heap is coalesced.** -/
theorem Reachable.coalesced {Ok : World → Os → Call → Prop} (reach : Reachable ed Ok w)
    (permits : ∀ w os call, Ok w os call → Permitted ed w os call) :
    ∃ B M, Inv False w.st B M ∧ LivePtrs w B M ∧ Coalesced w.st B :=
  reach.keeps (P := fun c => Coalesced c.st c.blocks) permits
    (fun _ _ _ _ hz => absurd hz.1 (Set.notMem_empty _)) fun _ _ step => step.coalesced

end OsProjects.Malloc.Buddy
