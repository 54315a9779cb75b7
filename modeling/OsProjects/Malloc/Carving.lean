import OsProjects.Malloc.Coalesce

/-!
# Which block `buddy_alloc` takes and what it leaves

The order of a request is the least one whose block holds it with its metadata. Of
the free blocks on the first non-empty list from that order on, `buddy_alloc` takes
the lowest one and leaves behind it one free block of every order passed, in
ascending order of address (`walk_cuts`).
-/

namespace OsProjects.Malloc.Buddy

open Links Tiling

variable {ed : Edition} {s s' : State} {d k n o t x y : Nat} {l : List Nat}

/-- The least order whose block holds `n` bytes and its metadata. -/
theorem le_blockSize_iff (hn : n + metaSize ≤ blockSize maxOrder) : n + metaSize ≤ blockSize k ↔ sizeToOrder n ≤ k := by
  constructor
  · intro fits
    by_contra lt
    have small : (n + metaSize) % 2 ^ 64 = n + metaSize := by
      rw [blockSize_maxOrder] at hn
      exact Nat.mod_eq_of_lt (by omega)
    have below := (orderSearch_spec ((n + metaSize) % 2 ^ 64) maxOrder 0).2.2.1 k (Nat.zero_le k) (not_le.mp lt)
    omega
  · exact fun le => (le_blockSize_sizeToOrder hn).trans (blockSize_le le)

/-- The blocks cut off above `x`, from order `t` up to order `t + d`. -/
def cuts (x t d : Nat) : List Nat := (List.range d).map fun j => x + blockSize (t + j)

theorem cuts_succ (x t d : Nat) : cuts x t (d + 1) = (x + blockSize t) :: cuts x (t + 1) d := by
  simp only [cuts, List.range_succ_eq_map, List.map_cons, List.map_map, Nat.add_zero, List.cons.injEq, true_and]
  refine List.map_congr_left fun j _ => ?_
  simp only [Function.comp_apply, Nat.succ_eq_add_one]
  congr 2
  omega

/-- **The cut-off blocks tile what is left of the chosen block.** -/
theorem walk_cuts {sz : Nat → Nat} (sizes : ∀ j < d, sz (x + blockSize (t + j)) = blockSize (t + j)) :
    Walk sz (x + blockSize (t + d)) (x + blockSize t) (cuts x t d) := by
  induction d generalizing t with
  | zero => exact rfl
  | succ d ih =>
    have size : sz (x + blockSize t) = blockSize t := sizes 0 (by omega)
    have pos := blockSize_pos t
    have double := blockSize_succ t
    have grow := blockSize_le (show t + 1 ≤ t + (d + 1) by omega)
    have rest := ih (t := t + 1) fun j lt => by
      have := sizes (j + 1) (by omega)
      rwa [show t + 1 + j = t + (j + 1) by omega]
    rw [cuts_succ]
    refine ⟨rfl, by omega, by omega, ?_⟩
    rw [size, Nat.add_assoc x, ← double, show t + (d + 1) = t + 1 + d by omega]
    exact rest

/-- The head of a free list is its lowest block. -/
theorem HeapWellFormed.head_le (h : HeapWellFormed s l) (order : k ≤ maxOrder) (hy : y ∈ FreeOf s {x | x ∈ l} ∅ k) :
    s.freeLists k ≤ y := by
  obtain ⟨nodes, dll, sorted, all⟩ := h.lists k order
  have mem : y ∈ nodes := (all y).mpr (mem_freeOf_list.mp hy)
  cases nodes with
  | nil => exact absurd mem List.not_mem_nil
  | cons z nodes =>
    rw [dll.1]
    rcases List.mem_cons.mp mem with e | mem
    · exact e.ge
    · exact ((List.pairwise_cons.mp sorted).1 y mem).le

/-- What `buddy_alloc` leaves of the block `x` of order `o` it chose for a request of
order `t`. -/
structure Carving (s s' : State) (l : List Nat) (x t o : Nat) : Prop where
  head : s.freeLists o = x
  mem : x ∈ l
  free : s.isFree x = true
  order : s.size x = minBlockSize * 2 ^ o
  lowest : ∀ y ∈ l, s.isFree y = true → s.size y = minBlockSize * 2 ^ o → x ≤ y
  size : s'.size x = minBlockSize * 2 ^ t
  allocated : s'.isFree x = false
  layout : Walk s'.size (x + minBlockSize * 2 ^ o) x (x :: cuts x t (o - t))
  rest : ∀ j, t ≤ j → j < o →
    s'.size (x + minBlockSize * 2 ^ j) = minBlockSize * 2 ^ j ∧ s'.isFree (x + minBlockSize * 2 ^ j) = true
  flags : ∀ z ∈ l, z ≠ x → s'.size z = s.size z ∧ s'.isFree z = s.isFree z ∧ s'.isMmap z = s.isMmap z
  payload : ∀ z ∈ l, z ≠ x → ∀ a, z + metaSize ≤ a → a < z + s.size z → s'.mem a = s.mem a
  outside : ∀ a, a < s.heapBase ∨ s.heapEnd ≤ a → s'.mem a = s.mem a

theorem HeapWellFormed.carving (h : HeapWellFormed s l) (chosen : Chosen s {x | x ∈ l} x t d)
    (inv' : HeapInv False s' s.heapEnd ({x | x ∈ l} ∪ upperHalves x t d) ∅)
    (alloc : Allocated s s' {x | x ∈ l} x t d) : Carving s s' l x t (t + d) := by
  have inv := h.inv
  have mem := mem_freeOf_list.mp chosen.mem
  have base := alloc.globals.heapBase
  have sizeT : s'.size x = minBlockSize * 2 ^ t := alloc.size.trans (blockSize_eq_mul t)
  have hx : x ∈ {x | x ∈ l} ∪ upperHalves x t d := .inl mem.1
  -- the metadata that was written belongs to blocks of the new heap
  have apart : ∀ z ∈ l, z ≠ x → ∀ a, z + metaSize ≤ a → a < z + s.size z → s'.mem a = s.mem a := by
    intro z hz ne a low high
    refine alloc.touches a fun r hr => ?_
    obtain ⟨hr, len⟩ := hr
    rw [len]
    rw [← (alloc.same z hz ne).1] at high
    by_cases e : r.1 = z
    · omega
    · have := inv'.tiles.apart r.1 hr z (.inl hz) e
      have := inv'.le_size hr
      have word : metaSize = 32 := rfl
      omega
  refine ⟨chosen.head, mem.1, mem.2.1, mem.2.2, fun y hy free size => ?_, sizeT, alloc.free, ?_, fun j le lt => ?_,
    fun z hz ne => ?_, apart, fun a out => ?_⟩
  · rw [← chosen.head]
    exact h.head_le chosen.order (mem_freeOf_list.mpr ⟨hy, free, size⟩)
  · have pos := blockSize_pos t
    have grow := blockSize_le (show t ≤ t + d by omega)
    rw [Nat.add_sub_cancel_left, ← blockSize_eq_mul]
    refine ⟨rfl, by omega, inv'.tiles.pos x hx, ?_⟩
    rw [alloc.size]
    exact walk_cuts fun j lt => (alloc.upper j lt).1
  · obtain ⟨i, rfl⟩ := Nat.exists_eq_add_of_le le
    rw [← blockSize_eq_mul]
    exact alloc.upper i (by omega)
  · obtain ⟨size, free⟩ := alloc.same z hz ne
    exact ⟨size, free, (inv'.notMmap z (.inl hz)).trans (inv.notMmap z hz).symm⟩
  · refine alloc.touches a fun r hr => ?_
    have within := Inv.header_within inv' base hr.1
    have word : metaSize = 32 := rfl
    rw [hr.2]
    omega

/-- **`buddy_alloc` picks and carves the right block.** In a well-formed heap it fails
exactly when all lists from the order of the request on are empty. Otherwise it takes
the lowest block of the first non-empty one and cuts it down to the order of the request. -/
theorem buddyAlloc_carves (h : HeapWellFormed s l) (pos : 1 ≤ n) (small : n ≤ 131040) :
    ∃ t ≤ maxOrder, (∀ k, n + metaSize ≤ minBlockSize * 2 ^ k ↔ t ≤ k) ∧ ∃ x s', buddyAlloc ed n s = some (x, s') ∧
      (x = 0 ↔ ∀ k, t ≤ k → k ≤ maxOrder → s.freeLists k = 0) ∧
      ∀ o, t ≤ o → o ≤ maxOrder → s.freeLists o ≠ 0 → (∀ k, t ≤ k → k < o → s.freeLists k = 0) → Carving s s' l x t o := by
  have inv := h.inv
  have fits : n + metaSize ≤ blockSize maxOrder := by
    rw [blockSize_maxOrder]
    have word : metaSize = 32 := rfl
    omega
  refine ⟨sizeToOrder n, sizeToOrder_le n, fun k => ?_, ?_⟩
  · rw [← blockSize_eq_mul]
    exact le_blockSize_iff fits
  · rcases inv.buddyAlloc ed n with ⟨run, empty⟩ | ⟨x, d, s', run, chosen, inv', alloc⟩
    · exact ⟨0, s, run, ⟨fun _ => empty, fun _ => rfl⟩, fun o le order ne => absurd (empty o le order) ne⟩
    · have notNull : x ≠ 0 := inv.pos x chosen.mem.1
      have head : s.freeLists (sizeToOrder n + d) ≠ 0 := fun e => notNull (chosen.head.symm.trans e)
      refine ⟨x, s', run, ⟨fun e => absurd e notNull, fun empty => ?_⟩, fun o le order ne first => ?_⟩
      · exact absurd (empty _ (by omega) chosen.order) head
      · -- the first non-empty list is the one the code stops at
        obtain rfl : sizeToOrder n + d = o := by
          rcases lt_trichotomy o (sizeToOrder n + d) with lt | e | gt
          · exact absurd (chosen.first o le lt) ne
          · exact e.symm
          · exact absurd (first _ (by omega) gt) head
        exact h.carving chosen inv'.weaken alloc

theorem buddyAlloc_carves_one : ∃ s l, HeapWellFormed s l ∧
    ∃ t ≤ maxOrder, (∀ k, 1 + metaSize ≤ minBlockSize * 2 ^ k ↔ t ≤ k) ∧
      ∃ x s', buddyAlloc .malloc3 1 s = some (x, s') ∧ (x = 0 ↔ ∀ k, t ≤ k → k ≤ maxOrder → s.freeLists k = 0) := by
  obtain ⟨s, l, -, h, -⟩ := exists_live
  have carves : ∃ t ≤ maxOrder, _ ∧ ∃ x s', buddyAlloc .malloc3 1 s = some (x, s') ∧ _ :=
    buddyAlloc_carves h (by decide : 1 ≤ 1) (by decide)
  obtain ⟨t, le, least, x, s', run, null, -⟩ := carves
  exact ⟨s, l, h, t, le, least, x, s', run, null⟩

end OsProjects.Malloc.Buddy
