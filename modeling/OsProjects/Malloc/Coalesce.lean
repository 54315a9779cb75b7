import OsProjects.Malloc.WellFormed

/-!
# Freeing coalesces completely

A step of the heap keeps it coalesced when no new free block has a free buddy
(`Coalesced.step`). `buddy_free_and_merge` makes one new free block and goes on until
its buddy is not free, so from a well-formed heap it ends in a well-formed heap whose
free bytes are the old ones and those of the block.
-/

namespace OsProjects.Malloc.Buddy

open Links Tiling

variable {listed : Prop} {s s' : State} {hi d i j k m t x y : Nat} {B B' D N : Set Nat} {l l' : List Nat}

/-! ## Buddies -/

/-- The buddy of the buddy. -/
theorem getBuddy_getBuddy (low : s.heapBase ≤ x) (k : Nat) : getBuddy s (getBuddy s x k) k = x := by
  unfold getBuddy
  rw [Nat.add_sub_cancel_left, Nat.xor_assoc, Nat.xor_self, Nat.xor_zero]
  exact Nat.add_sub_cancel' low

/-- The lower block of a pair has its buddy right behind it. -/
theorem getBuddy_of_dvd (low : s.heapBase ≤ x) (dvd : blockSize (k + 1) ∣ x - s.heapBase) :
    getBuddy s x k = x + blockSize k := by
  have pos := blockSize_pos k
  have double := blockSize_succ k
  have half : 2 ^ (7 + k) ∣ x - s.heapBase := by
    rw [← blockSize_eq]
    exact (double ▸ Nat.dvd_add (dvd_refl _) (dvd_refl _) : blockSize k ∣ blockSize (k + 1)).trans dvd
  have sides := xor_pow_of_dvd half
  rw [Nat.add_assoc, Nat.add_comm k 1, ← Nat.add_assoc, ← blockSize_eq] at sides
  unfold getBuddy
  rcases sides with ⟨e, -⟩ | ⟨e, dvd'⟩
  · omega
  · -- otherwise the buddy and the block are both multiples of their joint size
    have joint : 2 ^ (7 + 1 + k) = blockSize (k + 1) := by
      rw [blockSize_eq]
      congr 1
      omega
    rw [joint] at dvd'
    have apart : blockSize (k + 1) ∣ blockSize k := by
      rw [← e] at dvd
      generalize (x - s.heapBase) ^^^ blockSize k = y at dvd dvd'
      exact (Nat.dvd_add_right dvd').mp dvd
    have := Nat.le_of_dvd pos apart
    omega

/-! ## Steps that keep the heap coalesced -/

/-- When every free block is either an old one or one of `N`, and those have no free
buddy, the heap stays coalesced. -/
theorem Coalesced.step (c : Coalesced s B) (base : s'.heapBase = s.heapBase) (low : ∀ z ∈ B', s'.heapBase ≤ z)
    (old : ∀ i < maxOrder, ∀ z ∈ FreeOf s' B' ∅ i, z ∈ N ∨ z ∈ FreeOf s B ∅ i)
    (new : ∀ i < maxOrder, ∀ z ∈ N, z ∈ FreeOf s' B' ∅ i → getBuddy s' z i ∉ FreeOf s' B' ∅ i) : Coalesced s' B' := by
  intro i lt z hz hb
  rcases old i lt z hz with hN | hz'
  · exact new i lt z hN hz hb
  rcases old i lt _ hb with hN | hb'
  · apply new i lt _ hN hb
    rwa [getBuddy_getBuddy (low z hz.1)]
  · rw [getBuddy_congr base] at hb'
    exact c i lt z hz' hb'

/-- A block of the largest order has no buddy. -/
theorem coalesced_of_top (top : ∀ z ∈ B, s.size z = blockSize maxOrder) : Coalesced s B := by
  intro i lt z hz
  have := blockSize_inj ((top z hz.1).symm.trans hz.2.2.2)
  omega

/-- Stores that keep the headers of the blocks. -/
theorem Coalesced.congr (c : Coalesced s B) (base : s'.heapBase = s.heapBase)
    (hdr : ∀ z ∈ B, s'.mem.header z = s.mem.header z) : Coalesced s' B := by
  have same : ∀ i z, z ∈ FreeOf s' B ∅ i → z ∈ FreeOf s B ∅ i := by
    rintro i z ⟨hz, none, free, size⟩
    rw [State.isFree, hdr z hz] at free
    rw [State.size, hdr z hz] at size
    exact ⟨hz, none, free, size⟩
  intro i lt z hz hb
  apply c i lt z (same i z hz)
  rw [← getBuddy_congr base]
  exact same i _ hb

/-- **A merge keeps the heap coalesced** when the block that results is allocated or
has no free buddy. -/
theorem Merged.coalesced (h : HeapInv listed s' hi B' D) (merged : Merged s s' B B' m x j k) (c : Coalesced s B)
    (apart : k < maxOrder → s'.isFree x = true → getBuddy s' x k ∉ FreeOf s' B' ∅ k) : Coalesced s' B' := by
  refine c.step (N := {x}) merged.globals.heapBase h.tiles.lower (fun i lt z hz => ?_) fun i lt z e hz => ?_
  · by_cases e : z = x
    · exact .inl e
    · obtain ⟨hz, none, free, size⟩ := hz
      obtain ⟨size', free'⟩ := merged.same z hz e
      exact .inr ⟨merged.sub hz, none, free'.symm.trans free, size'.symm.trans size⟩
  · obtain rfl : z = x := e
    obtain rfl : i = k := blockSize_inj (hz.2.2.2.symm.trans merged.size)
    exact apart lt hz.2.2.1

/-- **An allocation keeps the heap coalesced**: the buddies of the blocks cut off are
parts of the block given out. -/
theorem Allocated.coalesced (h : HeapInv listed s hi B D) (chosen : Chosen s B x t d) (alloc : Allocated s s' B x t d)
    (low' : ∀ z ∈ B ∪ upperHalves x t d, s'.heapBase ≤ z) (c : Coalesced s B) :
    Coalesced s' (B ∪ upperHalves x t d) := by
  have size := chosen.mem.2.2.2
  have low := h.tiles.lower x chosen.mem.1
  have dvd := h.aligned chosen.mem.1 size
  have base := alloc.globals.heapBase
  have notX : ∀ i, x ∉ FreeOf s' (B ∪ upperHalves x t d) ∅ i := by
    rintro i ⟨-, -, free, -⟩
    rw [alloc.free] at free
    exact Bool.noConfusion free
  refine c.step (N := upperHalves x t d) base low' (fun i lt z hz => ?_) fun i lt z hN hz hb => ?_
  · by_cases hN : z ∈ upperHalves x t d
    · exact .inl hN
    · have ne : z ≠ x := fun e => notX i (e ▸ hz)
      obtain ⟨hz, none, free, size⟩ := hz
      have hz' := hz.resolve_right hN
      obtain ⟨size', free'⟩ := alloc.same z hz' ne
      exact .inr ⟨hz', none, free'.symm.trans free, size'.symm.trans size⟩
  · obtain ⟨n, lt', rfl⟩ := hN
    obtain rfl : t + n = i := blockSize_inj ((alloc.upper n lt').1.symm.trans hz.2.2.2)
    have joint : blockSize (t + n + 1) ∣ x - s'.heapBase := by
      rw [base]
      refine Nat.dvd_trans ?_ dvd
      rw [blockSize_eq, blockSize_eq]
      exact pow_dvd_pow 2 (by omega)
    rw [← getBuddy_of_dvd (base ▸ low) joint, getBuddy_getBuddy (base ▸ low)] at hb
    exact notX _ hb

/-! ## Freeing -/

/-- The addresses of a block. -/
def bytesOf (s : State) (x : Nat) : Set Nat := {a | x ≤ a ∧ a < x + s.size x}

/-- The bytes of the free blocks. -/
def FreeBytes (s : State) (B : Set Nat) : Set Nat := {a | ∃ x ∈ B, s.isFree x = true ∧ a ∈ bytesOf s x}

namespace Freed

variable (h : HeapInv listed s hi B ∅) (hm : m ∈ B) (alloc : s.isFree m = false)
  (h' : HeapInv listed s' hi B' ∅) (freed : Freed s s' B B' m x j k)

include alloc freed in
/-- The live blocks are those from before without `m`. -/
theorem live (z : Nat) : z ∈ B' ∧ s'.isFree z = false ↔ z ∈ B ∧ s.isFree z = false ∧ z ≠ m := by
  constructor
  · rintro ⟨hz, allocated⟩
    have ne : z ≠ x := by
      rintro rfl
      rw [freed.free] at allocated
      exact Bool.noConfusion allocated
    refine ⟨freed.sub hz, (freed.same z hz ne).2.symm.trans allocated, ?_⟩
    rintro rfl
    exact ne (freed.self hz).symm
  · rintro ⟨hz, allocated, ne⟩
    have kept : ¬(z ∉ B' ∨ z = x) := fun gone => by
      rw [freed.absorbed z hz ne gone] at allocated
      exact Bool.noConfusion allocated
    rw [not_or, not_not] at kept
    exact ⟨kept.1, (freed.same z kept.1 kept.2).2.trans allocated⟩

include h hm h' freed in
/-- **The free bytes** are those from before and the bytes of `m`. -/
theorem freeBytes : FreeBytes s' B' = FreeBytes s B ∪ bytesOf s m := by
  ext a
  constructor
  · rintro ⟨z, hz, free, low, high⟩
    by_cases e : z = x
    · -- the block of the old tiling that holds the address went into `x`
      have start := h.tiles.lower z (freed.sub hz)
      have stop := h'.tiles.upper z hz
      obtain ⟨w, hw, low', high'⟩ := h.tiles.cover a (by omega) (by omega)
      by_cases own : w = m
      · exact .inr ⟨own ▸ low', own ▸ high'⟩
      · refine .inl ⟨w, hw, freed.absorbed w hw own ?_, low', high'⟩
        by_contra kept
        rw [not_or, not_not] at kept
        have high'' := (freed.same w kept.1 kept.2).1.symm ▸ high'
        exact kept.2 ((h'.tiles.eq_of_overlap kept.1 hz low' high'' low high).trans e)
    · obtain ⟨size', free'⟩ := freed.same z hz e
      exact .inl ⟨z, freed.sub hz, free'.symm.trans free, low, size' ▸ high⟩
  · have whole : ∀ z ∈ B, z ∉ B' ∨ z = x → a ∈ bytesOf s z → a ∈ FreeBytes s' B' := by
      rintro z hz gone ⟨low, high⟩
      have := freed.inside z hz gone
      refine ⟨x, freed.mem, freed.free, by omega, ?_⟩
      rw [freed.size]
      omega
    rintro (⟨z, hz, free, inside⟩ | inside)
    · by_cases gone : z ∉ B' ∨ z = x
      · exact whole z hz gone inside
      · rw [not_or, not_not] at gone
        obtain ⟨size', free'⟩ := freed.same z gone.1 gone.2
        exact ⟨z, gone.1, free'.trans free, inside.1, size'.symm ▸ inside.2⟩
    · refine whole m hm ?_ inside
      exact or_iff_not_imp_left.mpr fun kept => (freed.self (not_not.mp kept)).symm

include h freed in
/-- What is neither free nor `m` keeps all its bytes. -/
theorem bytes {z a : Nat} (hz : z ∈ B) (allocated : s.isFree z = false) (ne : z ≠ m) (ha : a ∈ bytesOf s z) :
    s'.mem a = s.mem a := by
  refine freed.loose a fun r hr => ?_
  obtain ⟨⟨hr, own⟩, len⟩ := hr
  have neR : r.1 ≠ z := by
    intro e
    rcases own with own | own
    · exact ne (e.symm.trans own)
    · rw [e, allocated] at own
      exact Bool.noConfusion own
  have apart := h.tiles.apart r.1 hr z hz neR
  have large := h.le_size hr
  have word : metaSize = 32 := rfl
  obtain ⟨low, high⟩ := ha
  omega

include h freed in
/-- So does everything outside the heap. -/
theorem bytes_outside {a : Nat} (out : a < s.heapBase ∨ hi ≤ a) : s'.mem a = s.mem a := by
  refine freed.loose a fun r hr => ?_
  obtain ⟨⟨hr, -⟩, len⟩ := hr
  have low := h.tiles.lower r.1 hr
  have high := h.tiles.upper r.1 hr
  have large := h.le_size hr
  have word : metaSize = 32 := rfl
  omega

end Freed

/-- **The loop never leaves the heap**: below the largest order it stops because the
buddy, a block of the heap, is not free or of another size. -/
theorem HeapInv.mergeUp_stops (h : HeapInv listed s hi B ∅) (room : hi ≤ s.heapBase + totalHeapSize) (hm : m ∈ B)
    (alloc : s.isFree m = false) {t : State}
    (run : Buddy.mergeUp (maxOrder - getOrder s m) m (getOrder s m) s = (x, k, t)) (lt : k < maxOrder) :
    (t.heapBase ≤ getBuddy t x k ∧ getBuddy t x k < t.heapBase + totalHeapSize) ∧
      ¬(t.isFree (getBuddy t x k) = true ∧ t.size (getBuddy t x k) = blockSize k) := by
  obtain ⟨j, order, size, -⟩ := h.size_cases hm
  have hold : HeapInv listed s hi B {m} := insert_empty_eq (β := Set Nat) m ▸ h.hold hm alloc
  obtain ⟨x', k', t', B', run', inv, merged, -, stop⟩ := hold.mergeUp (maxOrder - j) size (by omega)
  rw [getOrder_eq size order, run'] at run
  obtain ⟨rfl, rfl, rfl⟩ : x' = x ∧ k' = k ∧ t' = t := by simpa using run
  obtain ⟨low, high⟩ := inv.buddy_inside merged.mem merged.size lt
  have base := merged.globals.heapBase
  have inside : getBuddy t' x' k' < t'.heapBase + totalHeapSize := by omega
  exact ⟨⟨low, inside⟩, not_free_of_cannotMerge (stop lt) low inside⟩

/-- **Freeing coalesces completely.** `buddy_free_and_merge` of a live block of a
well-formed heap ends in a well-formed heap. The live blocks are those from before
without it, its bytes are free and the free bytes stay free, nothing else was written,
no two free buddies are left if there were none, and the merging loop was not stopped
by the ends of the heap. -/
theorem buddyFreeAndMerge_coalesces (h : HeapWellFormed s l) (hm : m ∈ l) (alloc : s.isFree m = false) :
    ∃ s' l', buddyFreeAndMerge m s = some s' ∧ HeapWellFormed s' l' ∧ s'.heapBase = s.heapBase ∧
      (∀ z, z ∈ l' ∧ s'.isFree z = false ↔ z ∈ l ∧ s.isFree z = false ∧ z ≠ m) ∧
      FreeBytes s' {x | x ∈ l'} = FreeBytes s {x | x ∈ l} ∪ bytesOf s m ∧
      (∀ z ∈ l, s.isFree z = false → z ≠ m → ∀ a ∈ bytesOf s z, s'.mem a = s.mem a) ∧
      (∀ a, a < s.heapBase ∨ s.heapEnd ≤ a → s'.mem a = s.mem a) ∧
      (Coalesced s {x | x ∈ l} → Coalesced s' {x | x ∈ l'}) ∧
      ∀ x k t, mergeUp (maxOrder - getOrder s m) m (getOrder s m) s = (x, k, t) → k < maxOrder →
        (t.heapBase ≤ getBuddy t x k ∧ getBuddy t x k < t.heapBase + totalHeapSize) ∧
          ¬(t.isFree (getBuddy t x k) = true ∧ t.size (getBuddy t x k) = blockSize k) := by
  have inv := h.inv
  obtain ⟨x, j, k, s', B', run, -, inv', freed⟩ := inv.buddyFreeAndMerge s.heapEnd_le hm alloc
  have base := freed.globals.heapBase
  have stop : s'.heapEnd = s.heapEnd := State.heapEnd_congr base
  rw [← stop] at inv'
  obtain ⟨l', wellFormed, rfl⟩ := inv'.wellFormed
  rw [stop] at inv'
  refine ⟨s', l', run, wellFormed, base, freed.live alloc, freed.freeBytes inv hm inv', ?_, ?_, ?_, ?_⟩
  · exact fun z hz allocated ne a ha => freed.bytes inv hz allocated ne ha
  · exact fun a out => freed.bytes_outside inv out
  · exact fun c => freed.coalesced inv' c fun lt _ => freed.apart lt
  · exact fun x k t loop lt => inv.mergeUp_stops s.heapEnd_le hm alloc loop lt

/-! ## A sample heap -/

/-- The heap that `buddy_init` sets up at 4 MiB. -/
theorem exists_firstHeap : ∃ s, HeapInv True s s.heapEnd (initialSet 4194304 initialBlocks) ∅ ∧
    s.heapBase = 4194304 ∧ ∀ x ∈ initialSet 4194304 initialBlocks, s.isFree x = true ∧ s.size x = blockSize maxOrder := by
  obtain ⟨s, -, inv, free, -, -, globals⟩ :=
    initBlocks_spec (s := { State.start (fun _ => 0) with heapBase := 4194304 }) .malloc3 (n := initialBlocks) (by decide)
      (fun _ => rfl) (by decide)
  have base : s.heapBase = 4194304 := globals.heapBase
  refine ⟨s, ?_, base, fun x hx => ⟨(free x hx).1, (free x hx).2.trans blockSize_maxOrder.symm⟩⟩
  have stop : s.heapEnd = 4194304 + initialBlocks * mmapThreshold := by
    unfold State.heapEnd
    rw [base]
    decide
  rw [stop]
  exact inv

/-- A coalesced heap with a live block of the largest order. -/
theorem exists_live : ∃ s l m, HeapWellFormed s l ∧ Coalesced s {x | x ∈ l} ∧ m ∈ l ∧ s.isFree m = false := by
  obtain ⟨s, inv, -, free⟩ := exists_firstHeap
  have c : Coalesced s (initialSet 4194304 initialBlocks) := coalesced_of_top fun z hz => (free z hz).2
  have mem : 4194304 ∈ initialSet 4194304 initialBlocks := ⟨0, by decide, rfl⟩
  have first : 4194304 ∈ FreeOf s (initialSet 4194304 initialBlocks) ∅ maxOrder := ⟨mem, Set.notMem_empty _, free _ mem⟩
  have top := inv.top_ne_zero first
  have order : sizeToOrder 131040 = maxOrder := by decide
  rcases inv.buddyAlloc .malloc3 131040 with ⟨-, empty⟩ | ⟨x, d, s', -, chosen, inv', alloc⟩
  · exact absurd (empty maxOrder order.le (le_refl _)) top
  have d0 : d = 0 := by
    have := chosen.order
    omega
  have coalesced := alloc.coalesced inv chosen inv'.tiles.lower c
  have stop : s'.heapEnd = s.heapEnd := State.heapEnd_congr alloc.globals.heapBase
  rw [← stop] at inv'
  obtain ⟨l, wellFormed, blocks⟩ := HeapInv.wellFormed { inv' with covers := fun l => inv'.covers ⟨l, d0⟩ }
  rw [blocks] at coalesced
  exact ⟨s', l, x, wellFormed, coalesced, (Set.ext_iff.mp blocks x).mp (.inl chosen.mem.1), alloc.free⟩

theorem buddyFreeAndMerge_coalesces_largest : ∃ s l m, HeapWellFormed s l ∧ m ∈ l ∧ s.isFree m = false ∧
    ∃ s' l', buddyFreeAndMerge m s = some s' ∧ HeapWellFormed s' l' ∧ Coalesced s' {x | x ∈ l'} := by
  obtain ⟨s, l, m, h, c, hm, alloc⟩ := exists_live
  obtain ⟨s', l', run, h', -, -, -, -, -, c', -⟩ := buddyFreeAndMerge_coalesces h hm alloc
  exact ⟨s, l, m, h, hm, alloc, s', l', run, h', c' c⟩

end OsProjects.Malloc.Buddy
