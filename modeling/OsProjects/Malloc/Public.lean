import OsProjects.Malloc.Allocate

/-!
# `smalloc` and `sfree`

Their effect on the held blocks. A request is always served with enough bytes except in the
window `131041 .. 131071` (`Narrow`): there the request alone is below
`MMAP_THRESHOLD`, so it goes to the heap, but with its metadata it is larger than
the largest block, and the order search stops at `MAX_ORDER`.
-/

namespace OsProjects.Malloc.Buddy

open Links Tiling

variable {listed : Prop} {ed : Edition} {os : Os} {s s' : State} {m x size : Nat} {B B' : Set Nat} {M : List Nat}

/-! ## `smalloc` -/

theorem smalloc_of_refused (h : Refused size) : smalloc ed os size s = some (0, s) := if_pos h

theorem Inv.smalloc (h : Inv listed s B M) (sound : Sound os s) (ed : Edition) (ok : ¬Refused size) :
    ∃ x s₁ B₁ s' B' M', smalloc ed os size s = some (userPtr x, s') ∧ Buddy.buddyInit ed os s = some s₁ ∧
      Booted ed os s s₁ B B₁ ∧ Inv (listed ∧ (size < mmapThreshold → NoSplit s size)) s' B' M' ∧
      Requested ed os (decide (hugepageSmalloc ≤ size)) size s s₁ s' B' (Held s B M) (Held s' B' M') x := by
  obtain ⟨x, s₁, B₁, s', B', M', run, rest⟩ :=
    h.allocate sound ed (decide (hugepageSmalloc ≤ size)) (not_refused.mp ok).2
  refine ⟨x, s₁, B₁, s', B', M', ?_, rest⟩
  have ok' : ¬(size = 0 ∨ exceedsMax size = true) := ok
  rw [smalloc_eq, if_neg ok', run]
  rfl

/-- The sizes for which the block is smaller than the request. -/
def Narrow (size : Nat) : Prop := 131040 < size ∧ size < 131072

instance (size : Nat) : Decidable (Narrow size) := inferInstanceAs (Decidable (_ ∧ _))

/-- The largest order serves every request above half its block. -/
theorem sizeToOrder_of_narrow (h : Narrow size) : sizeToOrder size = maxOrder := by
  obtain ⟨low, high⟩ := h
  by_contra ne
  have le := sizeToOrder_le size
  have enough : (size + metaSize) % 2 ^ 64 ≤ blockSize (sizeToOrder size) := by
    refine (orderSearch_spec ((size + metaSize) % 2 ^ 64) maxOrder 0).2.2.2 ?_
    exact lt_of_le_of_ne (by rw [Nat.zero_add]; exact le) (by rw [Nat.zero_add]; exact ne)
  have smaller := blockSize_le le
  have word : metaSize = 32 := rfl
  rw [blockSize_maxOrder] at smaller
  rw [Nat.mod_eq_of_lt (by omega)] at enough
  omega

/-- **What was reserved holds the request**, outside the narrow window. -/
theorem reserved_spec (sound : Sound os s) (ed : Edition) (hugepage : Bool) (small : size ≤ maxAllocSize) :
    (¬Narrow size → metaSize + size ≤ reserved ed os hugepage size) ∧
      (Narrow size → reserved ed os hugepage size = 131072) := by
  have max : maxAllocSize = 100000000 := rfl
  have threshold : mmapThreshold = 131072 := rfl
  have word : metaSize = 32 := rfl
  unfold reserved
  by_cases big : mmapThreshold ≤ size
  · rw [if_pos big]
    obtain ⟨j, hj, align⟩ := mapAlign_pow sound ed hugepage
    have round := (alignUp_spec (n := metaSize + size) hj (by omega)).1
    rw [← align] at round
    exact ⟨fun _ => round, fun narrow => by unfold Narrow at narrow; omega⟩
  · rw [if_neg big]
    refine ⟨fun wide => ?_, fun narrow => ?_⟩
    · have top : size + metaSize ≤ blockSize maxOrder := by
        rw [blockSize_maxOrder]
        unfold Narrow at wide
        omega
      rw [Nat.add_comm]
      exact le_blockSize_sizeToOrder top
    · rw [sizeToOrder_of_narrow narrow, blockSize_maxOrder]

/-- The usable bytes of a granted block. -/
theorem Inv.usable_of_reserved {hugepage : Bool} (h : Inv listed s' B M) (hx : x ∈ B ∨ x ∈ M) (sound : Sound os s)
    (small : size ≤ maxAllocSize) (extent : s'.extent x = reserved ed os hugepage size) :
    (¬Narrow size → size ≤ s'.usable x) ∧ (Narrow size → s'.usable x = 131040) := by
  have whole := h.usable_eq hx
  obtain ⟨wide, narrow⟩ := reserved_spec sound ed hugepage small
  have word : metaSize = 32 := rfl
  exact ⟨fun w => by have := wide w; omega, fun w => by have := narrow w; omega⟩

/-! ## `sfree` -/

/-- The block `m` was taken back from the client. -/
structure Frees (s s' : State) (H H' : Set Nat) (m : Nat) : Prop where
  held : H' = H \ {m}
  keeps : ∀ z ∈ H, z ≠ m → Keeps s s' z

/-- What merging `m` with free blocks does to the held blocks: those other than `m`
stay as they are. -/
theorem Inv.of_merged {j k : Nat} (h : Inv listed s B M) (hm : m ∈ B) (merged : Merged s s' B B' m x j k)
    (heap : HeapInv listed s' s.heapEnd B' ∅) :
    Inv listed s' B' M ∧ (∀ z ∈ Held s B M, z ≠ m → z ∈ Held s' B' M ∧ z ≠ x ∧ Keeps s s' z) ∧
      (∀ z ∈ Held s' B' M, z ≠ x → z ∈ Held s B M ∧ z ≠ m) ∧ (x = m ∨ x ∉ Held s B M) := by
  have init := h.initialized_of_mem (.inl hm)
  have within : ∀ a ∈ B, s.heapBase ≤ a ∧ a + metaSize ≤ s.heapEnd := fun a ha => Inv.header_within h.heap rfl ha
  obtain ⟨inv, keepMaps⟩ := h.of_heap init heap merged.globals merged.touches within
  have hx : x ∈ B := merged.sub merged.mem
  refine ⟨inv, ?_, ?_, ?_⟩
  · rintro z (⟨hz, allocated⟩ | hz) ne
    · have kept : ¬(z ∉ B' ∨ z = x) := fun gone => by
        rw [merged.absorbed z hz ne gone] at allocated
        exact Bool.noConfusion allocated
      have hz' : z ∈ B' := by_contra fun e => kept (.inl e)
      have neX : z ≠ x := fun e => kept (.inr e)
      obtain ⟨size, free⟩ := merged.same z hz' neX
      refine ⟨.inl ⟨hz', free.trans allocated⟩, neX, keeps_of_touches merged.touches size ?_ fun a ha => ?_⟩
      · rw [heap.notMmap z hz', h.heap.notMmap z hz]
      · rw [h.extent_heap hz]
        obtain rfl | e := eq_or_ne a z
        · exact .inl (le_refl a)
        · have := h.heap.tiles.apart a ha z hz e
          omega
    · exact ⟨.inr hz, fun e => h.notMem_map hx (e ▸ hz), keepMaps z hz⟩
  · rintro z (⟨hz, allocated⟩ | hz) ne
    · refine ⟨.inl ⟨merged.sub hz, (merged.same z hz ne).2.symm.trans allocated⟩, ?_⟩
      rintro rfl
      exact ne (merged.self hz).symm
    · exact ⟨.inr hz, fun e => h.notMem_map hm (e ▸ hz)⟩
  · refine or_iff_not_imp_left.mpr fun ne => ?_
    rintro (⟨-, allocated⟩ | hx')
    · rw [merged.absorbed x hx ne (.inr rfl)] at allocated
      exact Bool.noConfusion allocated
    · exact h.notMem_map hx hx'

theorem Inv.buddyFreeAndMerge (h : Inv listed s B M) (hm : m ∈ B) (alloc : s.isFree m = false) :
    ∃ s' B', buddyFreeAndMerge m s = some s' ∧ Inv listed s' B' M ∧ SameGlobals s s' ∧
      Frees s s' (Held s B M) (Held s' B' M) m := by
  obtain ⟨x, j, k, s', B', run, -, heap, freed⟩ := h.heap.buddyFreeAndMerge s.heapEnd_le hm alloc
  obtain ⟨inv, stays, comes, -⟩ := h.of_merged hm freed.toMerged heap
  refine ⟨s', B', run, inv, freed.globals, ?_, fun z hz ne => (stays z hz ne).2.2⟩
  ext z
  refine ⟨fun hz => comes z hz ?_, fun hz => (stays z hz.1 hz.2).1⟩
  rintro rfl
  rcases hz with ⟨-, allocated⟩ | hz
  · rw [freed.free] at allocated
    exact Bool.noConfusion allocated
  · exact inv.notMem_map freed.mem hz

/-- Unmapping a region leaves the metadata of the heap alone. -/
theorem Inv.mmapFree_header (h : Inv listed s B M) (hm : m ∈ M) {z : Nat} (hz : z ∈ B) :
    (Buddy.mmapFree m s).mem.header z = s.mem.header z := by
  obtain ⟨-, -, touches⟩ := h.maps.mmapFree hm
  refine touches.header_eq fun r hr => ?_
  have within := Inv.header_within h.heap rfl hz
  have := h.off r.1 hr.1
  rw [hr.2]
  omega

theorem Inv.mmapFree (h : Inv listed s B M) (hm : m ∈ M) :
    Inv listed (mmapFree m s) B (M.erase m) ∧ Frees s (mmapFree m s) (Held s B M) (Held (mmapFree m s) B (M.erase m)) m := by
  have init := h.initialized_of_mem (.inr hm)
  obtain ⟨maps, same, touches⟩ := h.maps.mmapFree hm
  have stop : (Buddy.mmapFree m s).heapEnd = s.heapEnd := State.heapEnd_congr (mmapFree_heapBase m s)
  have hdr : ∀ z ∈ B, (Buddy.mmapFree m s).mem.header z = s.mem.header z := fun z hz => h.mmapFree_header hm hz
  have outB : m ∉ B := fun hx => h.notMem_map hx hm
  refine ⟨⟨?_, maps, fun z hz => ?_, fun e => ?_⟩, ?_, ?_⟩
  · rw [stop]
    exact h.heap.of_frame hdr (mmapFree_heapBase m s) (mmapFree_freeLists m s)
  · have hz' := List.mem_of_mem_erase hz
    rw [(same z hz').1, mmapFree_heapBase, stop]
    exact h.off z hz'
  · rw [mmapFree_initialized, init] at e
    exact Bool.noConfusion e
  · ext z
    constructor
    · rintro (⟨hz, allocated⟩ | hz)
      · rw [State.isFree, hdr z hz] at allocated
        exact ⟨.inl ⟨hz, allocated⟩, fun e => outB (e ▸ hz)⟩
      · exact ⟨.inr (List.mem_of_mem_erase hz), (h.maps.nodup.mem_erase_iff.mp hz).1⟩
    · rintro ⟨⟨hz, allocated⟩ | hz, ne⟩
      · exact .inl ⟨hz, by rw [State.isFree, hdr z hz]; exact allocated⟩
      · exact .inr (h.maps.nodup.mem_erase_iff.mpr ⟨ne, hz⟩)
  · rintro z (⟨hz, -⟩ | hz) ne
    · refine keeps_of_touches touches (by rw [State.size, hdr z hz]) (by rw [State.isMmap, hdr z hz]) fun a ha => ?_
      have := h.mem_heap hz
      have := h.off a ha
      rw [h.extent_heap hz]
      omega
    · refine keeps_of_touches touches (same z hz).1 (same z hz).2 fun a ha => ?_
      rw [h.extent_map hz]
      obtain rfl | e := eq_or_ne a z
      · exact .inl (le_refl a)
      · have := h.maps.apart a ha z hz e
        omega

theorem userPtr_ne_zero (hx : x ≠ 0) : userPtr x = ptrFromMeta x := if_neg hx

theorem Inv.held_flag (h : Inv listed s B M) (hm : m ∈ Held s B M) : s.isFree m = false :=
  hm.elim And.right (h.maps.alloc m)

theorem sfree_heap (alloc : s.isFree m = false) (heap : s.isMmap m = false) :
    sfree (ptrFromMeta m) s = buddyFreeAndMerge m s := by
  have alloc' : (s.mem.header m).isFree = false := alloc
  have heap' : (s.mem.header m).isMmap = false := heap
  simp only [sfree, if_neg (ptrFromMeta_ne_zero m), metaFromPtr_ptrFromMeta, alloc', heap', Bool.false_eq_true, if_false]

theorem sfree_mmap (alloc : s.isFree m = false) (mmap : s.isMmap m = true) :
    sfree (ptrFromMeta m) s = some (mmapFree m s) := by
  have alloc' : (s.mem.header m).isFree = false := alloc
  have mmap' : (s.mem.header m).isMmap = true := mmap
  simp only [sfree, if_neg (ptrFromMeta_ne_zero m), metaFromPtr_ptrFromMeta, alloc', mmap', Bool.false_eq_true, if_false,
    if_true]

/-- **`sfree` of a live pointer.** -/
theorem Inv.sfree (h : Inv listed s B M) (hm : m ∈ Held s B M) :
    ∃ s' B' M', sfree (ptrFromMeta m) s = some s' ∧ Inv listed s' B' M' ∧ s'.heapBase = s.heapBase ∧
      Frees s s' (Held s B M) (Held s' B' M') m := by
  have flag := h.held_flag hm
  rcases hm with ⟨hm, -⟩ | hm
  · obtain ⟨s', B', run, inv, globals, frees⟩ := h.buddyFreeAndMerge hm flag
    exact ⟨s', B', M, (sfree_heap flag (h.heap.notMmap m hm)).trans run, inv, globals.heapBase, frees⟩
  · obtain ⟨inv, frees⟩ := h.mmapFree hm
    exact ⟨_, B, M.erase m, sfree_mmap flag (h.maps.isMmap m hm), inv, mmapFree_heapBase m s, frees⟩

end OsProjects.Malloc.Buddy
