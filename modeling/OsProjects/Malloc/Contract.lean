import OsProjects.Malloc.Run
import OsProjects.Malloc.WellFormed

/-!
# What `srealloc` promises its caller

`WellFormed` says what a heap state has to look like in terms of the walk through
the heap and the lists read off the links; it is the invariant with complete free
lists (`WellFormed.inv`, `Inv.wellFormed`). From such a state `srealloc` of a live
pointer either changes nothing at all or moves the block (`Relocated`).
-/

namespace OsProjects.Malloc.Buddy

open Links Tiling

variable {listed : Prop} {ed : Edition} {os : Os} {s s' : State} {m oldp p size x : Nat} {B B' H H' : Set Nat}
  {l l' M M' : List Nat}

/-- The heap is tiled by the aligned blocks `l`, the free lists are the ascending lists
of its free blocks by order, and `mmap_list` is the list of the mmap blocks `M`. -/
structure WellFormed (s : State) (l M : List Nat) : Prop where
  walk : Walk s.size s.heapEnd s.heapBase l
  room : s.heapEnd < 2 ^ 64
  sizes : ∀ x ∈ l, ∃ k ≤ maxOrder, s.size x = minBlockSize * 2 ^ k ∧ s.size x ∣ x - s.heapBase
  heap : ∀ x ∈ l, s.isMmap x = false
  lists : ∀ k ≤ maxOrder, ∃ nodes, Dll s.next s.prev 0 0 (s.freeLists k) nodes ∧ nodes.Pairwise (· < ·) ∧
    ∀ x, x ∈ nodes ↔ x ∈ l ∧ s.isFree x = true ∧ s.size x = minBlockSize * 2 ^ k
  beyond : ∀ k, maxOrder < k → s.freeLists k = 0
  maps : MmapInv s M
  off : ∀ x ∈ M, x + metaSize + s.size x ≤ s.heapBase ∨ s.heapEnd ≤ x
  boot : s.initialized = false → s.heapBase = 0 ∧ M = []

/-- The pointers in the hands of the client. -/
def Live (s : State) (l M : List Nat) (p : Nat) : Prop :=
  ∃ x, p = ptrFromMeta x ∧ (x ∈ l ∧ s.isFree x = false ∨ x ∈ M)

namespace WellFormed

/-- The heap of a well-formed state. -/
theorem heapWellFormed (h : WellFormed s l M) : HeapWellFormed s l :=
  ⟨h.walk, h.room, h.sizes, h.heap, h.lists, h.beyond⟩

/-- **A well-formed state satisfies the invariant**, with complete free lists. -/
theorem inv (h : WellFormed s l M) : Inv True s {x | x ∈ l} M := by
  refine ⟨h.heapWellFormed.inv, h.maps, h.off, fun fresh => ?_⟩
  obtain ⟨base, maps⟩ := h.boot fresh
  refine ⟨base, maps, fun k => ?_⟩
  rcases (h.heapWellFormed.linked k).2.1 with null | ⟨mem, -⟩
  · exact null
  · exact absurd base (h.heapWellFormed.heapEnd_eq mem.1).1

theorem held (l M : List Nat) : x ∈ Held s {y | y ∈ l} M ↔ Live s l M (ptrFromMeta x) := by
  constructor
  · exact fun hx => ⟨x, rfl, hx⟩
  · rintro ⟨y, e, hy⟩
    rw [ptrFromMeta_inj e]
    exact hy

end WellFormed

/-- The invariant with complete free lists is well-formedness. -/
theorem Inv.wellFormed (h : Inv True s B M) : ∃ l, WellFormed s l M ∧ B = {x | x ∈ l} := by
  obtain ⟨l, heap, blocks⟩ := h.heap.wellFormed
  refine ⟨l, ⟨heap.walk, heap.room, heap.sizes, heap.heap, heap.lists, heap.beyond, h.maps, h.off, fun fresh => ?_⟩,
    blocks⟩
  obtain ⟨base, maps, -⟩ := h.boot fresh
  exact ⟨base, maps⟩

/-! ## A failed call changes nothing -/

/-- A request that finds no block leaves the state as it is. -/
theorem Inv.smalloc_null (h : Inv listed s B M) (sound : Sound os s) (init : s.initialized = true)
    (run : Buddy.smalloc ed os size s = some (0, s')) : s' = s := by
  by_cases bad : Refused size
  · rw [smalloc_of_refused bad] at run
    exact (Prod.mk.inj (Option.some_inj.mp run)).2.symm
  have ok : ¬(size = 0 ∨ exceedsMax size = true) := bad
  rw [smalloc_eq, if_neg ok, Buddy.allocate, buddyInit_of_initialized init] at run
  simp only [Option.bind_eq_bind, Option.bind_some] at run
  -- a block that was found is not null
  have found : ∀ {x : Nat} {t : State}, x ≠ 0 → some (userPtr x, t) ≠ some (0, s') := fun pos e =>
    pos (userPtr_eq_zero.mp (Prod.mk.inj (Option.some_inj.mp e)).1)
  split_ifs at run
  · rcases bigAlloc_cases ed os size (decide (hugepageSmalloc ≤ size)) s with ⟨null, -⟩ | ⟨huge, raw, answer, -, block⟩
    · rw [null] at run
      exact (Prod.mk.inj (Option.some_inj.mp run)).2.symm
    · rw [block] at run
      exact absurd run (found (sound.maps.pos _ _ _ answer).1)
  · rcases h.buddyAlloc init ed size with ⟨null, -⟩ | ⟨x, d, t, block, chosen, -⟩
    · rw [null] at run
      exact (Prod.mk.inj (Option.some_inj.mp run)).2.symm
    · rw [block] at run
      exact absurd run (found (h.heap.pos x chosen.mem.1))

/-- So does a `srealloc` that fails: only the `smalloc` of its last resort can. -/
theorem Inv.srealloc_fails (h : Inv listed s B M) (sound : Sound os s) (hm : m ∈ Held s B M)
    (run : Buddy.srealloc ed os (ptrFromMeta m) size s = some (0, s')) : s' = s := by
  have init := h.initialized_of_mem (Inv.blocks_of_held hm)
  have found : ∀ {x : Nat} {t : State}, some (ptrFromMeta x, t) ≠ some (0, s') := fun e =>
    ptrFromMeta_ne_zero _ (Prod.mk.inj (Option.some_inj.mp e)).1
  by_cases bad : Refused size
  · rw [srealloc_of_refused bad] at run
    exact (Prod.mk.inj (Option.some_inj.mp run)).2.symm
  cases mmap : s.isMmap m with
  | true =>
    rw [srealloc_mmap bad mmap] at run
    split_ifs at run
    · exact absurd run found
    · obtain ⟨⟨q, t⟩, request, e⟩ := Option.map_eq_some_iff.mp run
      by_cases null : q = 0
      · subst null
        rw [if_pos rfl] at e
        rw [← (Prod.mk.inj e).2]
        exact h.smalloc_null sound init request
      · rw [if_neg null] at e
        exact absurd (Prod.mk.inj e).1 null
  | false =>
    by_cases fits : size ≤ s.usable m
    · rw [srealloc_fits bad mmap fits] at run
      exact absurd run found
    have small := not_le.mp fits
    cases sim : simulateMerge size s (maxOrder - getOrder s m) m (getOrder s m) with
    | some o =>
      rw [srealloc_merge bad mmap small sim] at run
      exact absurd run found
    | none =>
      rw [srealloc_copy bad mmap small sim] at run
      obtain ⟨⟨q, t⟩, request, e⟩ := Option.bind_eq_some_iff.mp run
      by_cases null : q = 0
      · subst null
        rw [if_pos rfl] at e
        rw [← (Prod.mk.inj (Option.some_inj.mp e)).2]
        exact h.smalloc_null sound init request
      · rw [if_neg null] at e
        obtain ⟨t', -, e'⟩ := Option.map_eq_some_iff.mp e
        exact absurd (Prod.mk.inj e').1 null

/-! ## The contract -/

/-- The block at `oldp` was replaced by the block at `p`, which starts with the first `n`
bytes of it, and every other live block is as it was. -/
structure Relocated (s s' : State) (l l' M M' : List Nat) (oldp p n : Nat) : Prop where
  bytes : ∀ i < n, s'.mem (p + i) = s.mem (oldp + i)
  live : Live s' l' M' p
  released : p ≠ oldp → ¬Live s' l' M' oldp
  others : ∀ q, q ≠ oldp → Live s l M q → q ≠ p ∧ Live s' l' M' q ∧
    s'.usable (metaFromPtr q) = s.usable (metaFromPtr q) ∧
    ∀ i < s.usable (metaFromPtr q), s'.mem (q + i) = s.mem (q + i)
  none : ∀ q, Live s' l' M' q → q = p ∨ Live s l M q

theorem Keeps.usable (h : Keeps s s' x) : s'.usable x = s.usable x := by
  unfold State.usable
  rw [h.size, h.isMmap]

/-- Moving a block, seen by the client. -/
theorem Moves.relocated (inv : Inv listed s {y | y ∈ l} M)
    (moves : Moves s s' (Held s {y | y ∈ l} M) (Held s' {y | y ∈ l'} M') m x) (size : Nat) :
    Relocated s s' l l' M M' (ptrFromMeta m) (ptrFromMeta x) (min (s.usable m) size) := by
  have mem : ∀ z, Live s' l' M' (ptrFromMeta z) ↔ z = x ∨ Live s l M (ptrFromMeta z) ∧ z ≠ m := fun z => by
    rw [← WellFormed.held, moves.held, ← WellFormed.held]
    rfl
  refine ⟨fun i lt => ?_, (mem x).mpr (.inl rfl), fun ne live => ?_, ?_, ?_⟩
  · exact moves.bytes i (lt_of_lt_of_le lt (min_le_left _ _))
  · rcases (mem m).mp live with e | ⟨-, e⟩
    · exact ne (by rw [e])
    · exact e rfl
  · rintro q ne ⟨z, rfl, hz⟩
    have neM : z ≠ m := fun e => ne (by rw [e])
    have held : z ∈ Held s {y | y ∈ l} M := hz
    have keep := moves.keeps z held neM
    have whole := inv.usable_eq (Inv.blocks_of_held held)
    rw [metaFromPtr_ptrFromMeta]
    refine ⟨fun e => ?_, (mem z).mpr (.inr ⟨⟨z, rfl, hz⟩, neM⟩), keep.usable, fun i lt => ?_⟩
    · rw [ptrFromMeta_inj e] at held neM
      exact moves.fresh.elim neM fun out => out held
    · exact keep.bytes _ (by unfold ptrFromMeta; omega) (by unfold ptrFromMeta; omega)
  · rintro q ⟨z, rfl, hz⟩
    rcases (mem z).mp ⟨z, rfl, hz⟩ with rfl | ⟨live, -⟩
    · exact .inl rfl
    · exact .inr live

/-- **`srealloc` preserves the data and frames the rest.** From a well-formed state,
`srealloc` of a live pointer returns. When it returns null nothing has changed. When it
returns `p`, the bytes of the old block that fit are at `p`, the old pointer is dead
unless it is `p`, and every other live block is as it was. -/
theorem srealloc_preserves (h : WellFormed s l M) (sound : Sound os s) (live : Live s l M oldp) (size : Nat) :
    ∃ p s' l' M', Malloc3.srealloc os oldp size s = some (p, s') ∧ Walk s'.size s'.heapEnd s'.heapBase l' ∧
      MmapInv s' M' ∧ (p = 0 → s' = s ∧ l' = l ∧ M' = M) ∧
      (p ≠ 0 → Relocated s s' l l' M M' oldp p (min (s.usable (metaFromPtr oldp)) size)) := by
  have inv := h.inv
  obtain ⟨m, rfl, hm⟩ := live
  have held : m ∈ Held s {y | y ∈ l} M := hm
  -- a call that fails leaves the old layout
  have fails : ∀ {s' : State}, srealloc .malloc3 os (ptrFromMeta m) size s = some (0, s') → s' = s :=
    inv.srealloc_fails sound held
  by_cases bad : Refused size
  · have run : srealloc .malloc3 os (ptrFromMeta m) size s = some (0, s) := srealloc_of_refused bad
    exact ⟨0, s, l, M, run, h.walk, h.maps, fun _ => ⟨rfl, rfl, rfl⟩, fun ne => absurd rfl ne⟩
  obtain ⟨p, s', B', M', run, inv', -, re⟩ := inv.srealloc sound .malloc3 bad held
  rcases re.result with ⟨rfl, -, -⟩ | ⟨x, rfl, moves, -, -⟩
  · obtain rfl := fails run
    exact ⟨0, _, l, M, run, h.walk, h.maps, fun _ => ⟨rfl, rfl, rfl⟩, fun ne => absurd rfl ne⟩
  · obtain ⟨l', walk, -, all⟩ := inv'.heap.tiles.exists_walk
    have blocks : B' = {y | y ∈ l'} := Set.ext fun y => (all y).symm
    subst blocks
    rw [metaFromPtr_ptrFromMeta]
    exact ⟨ptrFromMeta x, s', l', M', run, walk, inv'.maps, fun e => absurd e (ptrFromMeta_ne_zero x),
      fun _ => moves.relocated inv size⟩

/-- An operating system that has nothing more to give. -/
def emptyOs : Os where
  sbrk _ := none
  mmap _ _ := none
  pageSize := 4096

theorem emptyOs_sound (init : s.initialized = true) : Sound emptyOs s where
  page := ⟨12, by decide, rfl⟩
  maps := ⟨fun _ _ _ e => (nomatch e), fun _ _ _ e => (nomatch e), fun _ _ _ e => (nomatch e)⟩
  heap fresh := absurd (init.symm.trans fresh) (by decide)

/-- A block of the largest order that asks for 10 bytes more than it has. -/
theorem srealloc_preserves_largest : ∃ s l M oldp, WellFormed s l M ∧ Live s l M oldp ∧
    ∃ p s' l' M', Malloc3.srealloc emptyOs oldp 131050 s = some (p, s') ∧ Walk s'.size s'.heapEnd s'.heapBase l' ∧
      MmapInv s' M' ∧ (p = 0 → s' = s ∧ l' = l ∧ M' = M) ∧
      (p ≠ 0 → Relocated s s' l l' M M' oldp p (min (s.usable (metaFromPtr oldp)) 131050)) := by
  have sound : Sound sampleOs (State.start fun _ => 0) := sampleOs_sound rfl (.inl rfl)
  have whole : NoSplit (State.start fun _ => 0) 131040 := by
    change sizeToOrder 131040 = maxOrder
    decide
  obtain ⟨x, s₁, B₁, s, B, M, run, -, boot, inv, req⟩ :=
    (Inv.start fun _ => 0).smalloc sound .malloc3 (by decide : ¬Refused 131040)
  obtain ⟨l, wellFormed, rfl⟩ := (inv.weaken fun _ => ⟨trivial, fun _ => whole⟩ : Inv True s B M).wellFormed
  have live : Live s l M (ptrFromMeta x) := by
    rcases req.result with ⟨null, -⟩ | ⟨-, grants⟩
    · have top : s₁.freeLists maxOrder ≠ 0 := by
        rw [boot.topFree]
        exact sampleOs_sbrk .malloc3
      have order : sizeToOrder 131040 = maxOrder := by decide
      exact absurd ((req.heap (by decide)).mp null maxOrder (by rw [order]) (le_refl _)) top
    · rw [← WellFormed.held, grants.held]
      exact Set.mem_insert x _
  exact ⟨s, l, M, ptrFromMeta x, wellFormed, live, srealloc_preserves wellFormed (emptyOs_sound req.init) live 131050⟩

end OsProjects.Malloc.Buddy
