import OsProjects.Malloc.Lists

/-!
# Setting up the heap and allocating from it

The steps that refine the tiling: adding a block at the end of the heap and
cutting a held block in two. `buddy_init` is a run of the first and the splitting
loop of `buddy_alloc` a run of the second; `CutDown` says what the whole loop did
to the blocks. The loop unlinks the block it is splitting again in every round,
after the first time from a list the block is not on, and so loses the lists it
has just added the upper halves to.
-/

namespace OsProjects.Malloc.Buddy

open Links Tiling

variable {listed : Prop} {ed : Edition} {s s' : State} {hi k m x y : Nat} {B D B' D' : Set Nat}

namespace HeapInv

/-! ## Changing the tiling -/

theorem order_lt (h : HeapInv listed s hi B D) (hx : x ∈ B) (size : s.size x = blockSize (k + 1)) :
    k < maxOrder := by
  obtain ⟨j, le, size', -⟩ := h.size_cases hx
  have := blockSize_inj (size.symm.trans size')
  omega

theorem order_le (h : HeapInv listed s hi B D) (hx : x ∈ B) (size : s.size x = blockSize k) : k ≤ maxOrder := by
  obtain ⟨j, le, size', -⟩ := h.size_cases hx
  have := blockSize_inj (size.symm.trans size')
  omega

theorem aligned (h : HeapInv listed s hi B D) (hx : x ∈ B) (size : s.size x = blockSize k) :
    blockSize k ∣ x - s.heapBase := by
  obtain ⟨j, -, size', dvd⟩ := h.size_cases hx
  exact blockSize_inj (size.symm.trans size') ▸ dvd

/-- The middle of a block is not a block. -/
theorem middle_not_mem (h : HeapInv listed s hi B D) (hx : x ∈ B) (size : s.size x = blockSize (k + 1)) :
    x + blockSize k ∉ B := by
  intro hy
  have pos := blockSize_pos k
  have pos' := h.tiles.pos _ hy
  have double := blockSize_succ k
  have := h.tiles.eq_of_overlap hx hy (z := x + blockSize k) (by omega) (by omega) (le_refl _) (by omega)
  omega

/-- The middle of a block is a place for a header. -/
theorem places_split (h : HeapInv listed s hi B D) (hx : x ∈ B) (size : s.size x = blockSize (k + 1)) :
    Places (insert (x + blockSize k) B) := by
  have double := blockSize_succ k
  have large := le_blockSize k
  have lt := h.lt x hx
  have away : ∀ z ∈ B, Apart z (x + blockSize k) := by
    intro z hz
    have := h.le_size hz
    obtain rfl | e := eq_or_ne z x
    · exact .inl (by rw [metaSize]; omega)
    · rcases h.tiles.apart z hz x hx e with le | le
      · exact .inl (by rw [metaSize]; omega)
      · exact .inr (by rw [metaSize]; omega)
  refine ⟨?_, ?_, ?_⟩
  · rintro p (rfl | hp) q (rfl | hq)
    · exact .inl rfl
    · exact .inr (away q hq).symm
    · exact .inr (away p hp)
    · exact h.places.slots p hp q hq
  · rintro p (rfl | hp)
    · omega
    · exact h.pos p hp
  · rintro p (rfl | hp)
    · omega
    · exact h.places.lt p hp

/-- Splitting a held block: both halves are held. -/
theorem split (h : HeapInv listed s hi B D) (hx : x ∈ D) (size : s.size x = blockSize (k + 1)) {mem : Mem}
    (same : ∀ z ∈ B, z ≠ x → mem.header z = s.mem.header z) (sizeX : (mem.header x).size = blockSize k)
    (mmapX : (mem.header x).isMmap = false) (sizeY : (mem.header (x + blockSize k)).size = blockSize k)
    (mmapY : (mem.header (x + blockSize k)).isMmap = false) :
    HeapInv listed { s with mem := mem } hi (insert (x + blockSize k) B) (insert (x + blockSize k) D) := by
  have hxB := h.held hx
  have double := blockSize_succ k
  have low := h.tiles.lower x hxB
  have lt := h.lt x hxB
  have dvd := h.aligned hxB size
  have half : blockSize k ∣ blockSize (k + 1) := double ▸ Nat.dvd_add (dvd_refl _) (dvd_refl _)
  have order := h.order_lt hxB size
  have neX : ∀ z, z ∉ D → z ≠ x := fun z hz e => hz (e ▸ hx)
  refine h.transport ?_ ?_ h.whole ?_ ?_ ?_ (fun j => ?_) (fun j z hz => ?_) rfl
    (Set.insert_subset_insert h.held)
  · exact h.tiles.split hxB (blockSize_pos k) (blockSize_pos k) (size.trans double) sizeX sizeY
      fun z hz ne => by rw [State.size, same z hz ne]
  · rintro z (rfl | hz)
    · refine ⟨k, order.le, by rw [← blockSize_eq]; exact sizeY, ?_⟩
      rw [← blockSize_eq, Nat.add_comm x, Nat.add_sub_assoc low]
      exact Nat.dvd_add (dvd_refl _) (half.trans dvd)
    · obtain rfl | e := eq_or_ne z x
      · exact ⟨k, order.le, by rw [← blockSize_eq]; exact sizeX, by rw [← blockSize_eq]; exact half.trans dvd⟩
      · obtain ⟨j, le, size', dvd'⟩ := h.dyadic z hz
        exact ⟨j, le, by rw [State.size, same z hz e]; exact size', dvd'⟩
  · rintro z (rfl | hz)
    · have := blockSize_pos k
      omega
    · exact h.pos z hz
  · rintro z (rfl | hz)
    · rw [State.size, sizeY]
      omega
    · obtain rfl | e := eq_or_ne z x
      · rw [State.size, sizeX]
        omega
      · rw [State.size, same z hz e]
        exact h.lt z hz
  · rintro z (rfl | hz)
    · exact mmapY
    · obtain rfl | e := eq_or_ne z x
      · exact mmapX
      · rw [State.isMmap, same z hz e]
        exact h.notMmap z hz
  · ext z
    simp only [mem_freeOf, Set.mem_insert_iff, not_or]
    constructor
    · rintro ⟨rfl | hz, ⟨ne, hd⟩, free, sz⟩
      · exact absurd rfl ne
      · rw [State.isFree, same z hz (neX z hd)] at free
        rw [State.size, same z hz (neX z hd)] at sz
        exact ⟨hz, hd, free, sz⟩
    · rintro ⟨hz, hd, free, sz⟩
      refine ⟨.inr hz, ⟨?_, hd⟩, ?_, ?_⟩
      · rintro rfl
        exact h.middle_not_mem hxB size hz
      · rwa [State.isFree, same z hz (neX z hd)]
      · rwa [State.size, same z hz (neX z hd)]
  · simp only [State.next, State.prev, same z hz.1 (neX z hz.2.1), and_self]

/-- The end of the heap is a place for a header. -/
theorem places_append (h : HeapInv listed s hi B D) (pos : hi ≠ 0) (lt : hi < 2 ^ 64) : Places (insert hi B) := by
  have away : ∀ z ∈ B, Apart z hi := fun z hz => by
    have := h.le_size hz
    have := h.tiles.upper z hz
    exact .inl (by rw [metaSize]; omega)
  refine ⟨?_, ?_, ?_⟩
  · rintro p (rfl | hp) q (rfl | hq)
    · exact .inl rfl
    · exact .inr (away q hq).symm
    · exact .inr (away p hp)
    · exact h.places.slots p hp q hq
  · rintro p (rfl | hp)
    · exact pos
    · exact h.pos p hp
  · rintro p (rfl | hp)
    · exact lt
    · exact h.places.lt p hp

theorem end_not_mem (h : HeapInv listed s hi B D) : hi ∉ B := fun hx => by
  have := h.tiles.upper hi hx
  have := h.tiles.pos hi hx
  omega

/-- A block of the largest order may be added at the end, held. -/
theorem append (h : HeapInv listed s hi B D) (pos : hi ≠ 0) (lt : hi + blockSize maxOrder < 2 ^ 64) {mem : Mem}
    (same : ∀ z ∈ B, mem.header z = s.mem.header z) (size : (mem.header hi).size = blockSize maxOrder)
    (mmap : (mem.header hi).isMmap = false) :
    HeapInv listed { s with mem := mem } (hi + blockSize maxOrder) (insert hi B) (insert hi D) := by
  have le := h.tiles.le
  have whole : blockSize maxOrder ∣ hi + blockSize maxOrder - s.heapBase := by
    rw [Nat.sub_add_comm le]
    exact Nat.dvd_add h.whole (dvd_refl _)
  refine h.transport ?_ ?_ whole ?_ ?_ ?_ (fun j => ?_) (fun j z hz => ?_) rfl
    (Set.insert_subset_insert h.held)
  · exact h.tiles.append (blockSize_pos maxOrder) size fun z hz => by rw [State.size, same z hz]
  · rintro z (rfl | hz)
    · exact ⟨maxOrder, le_refl _, by rw [← blockSize_eq]; exact size, by rw [← blockSize_eq]; exact h.whole⟩
    · obtain ⟨j, le', size', dvd⟩ := h.dyadic z hz
      exact ⟨j, le', by rw [State.size, same z hz]; exact size', dvd⟩
  · rintro z (rfl | hz)
    · exact pos
    · exact h.pos z hz
  · rintro z (rfl | hz)
    · rw [State.size, size]
      exact lt
    · rw [State.size, same z hz]
      exact h.lt z hz
  · rintro z (rfl | hz)
    · exact mmap
    · rw [State.isMmap, same z hz]
      exact h.notMmap z hz
  · ext z
    simp only [mem_freeOf, Set.mem_insert_iff, not_or]
    constructor
    · rintro ⟨rfl | hz, ⟨ne, hd⟩, free, sz⟩
      · exact absurd rfl ne
      · rw [State.isFree, same z hz] at free
        rw [State.size, same z hz] at sz
        exact ⟨hz, hd, free, sz⟩
    · rintro ⟨hz, hd, free, sz⟩
      refine ⟨.inr hz, ⟨?_, hd⟩, ?_, ?_⟩
      · rintro rfl
        exact h.end_not_mem hz
      · rwa [State.isFree, same z hz]
      · rwa [State.size, same z hz]
  · simp only [State.next, State.prev, same z hz.1, and_self]

end HeapInv

/-! ## New blocks -/

/-- The stores that set up a new free block at `y`, in `buddy_init` and `split_block`. -/
def freshBlock (ed : Edition) (mem : Mem) (y size : Nat) : Mem :=
  ((clearFlags ed ((mem.setSize y size).setIsFree y true) y).setNext y 0).setPrev y 0

theorem freshBlock_touches (ed : Edition) (mem : Mem) (y size : Nat) :
    Mem.Touches (metaRanges {y}) mem (freshBlock ed mem y size) := by
  have hy : y ∈ ({y} : Set Nat) := rfl
  have start := (Mem.touches_setSize (v := size) (m := mem) hy).trans (Mem.touches_setIsFree (b := true) hy)
  have flags : Mem.Touches (metaRanges {y}) mem (clearFlags ed ((mem.setSize y size).setIsFree y true) y) := by
    cases ed with
    | malloc3 => exact start.trans (Mem.touches_setIsMmap hy)
    | malloc4 => exact (start.trans (Mem.touches_setIsMmap hy)).trans (Mem.touches_setIsHuge hy)
  exact (flags.trans (Mem.touches_setNext hy)).trans (Mem.touches_setPrev hy)

theorem freshBlock_header (ed : Edition) (mem : Mem) {y size : Nat} (lt : size < 2 ^ 64) :
    ((freshBlock ed mem y size).header y).size = size ∧ ((freshBlock ed mem y size).header y).isFree = true ∧
      ((freshBlock ed mem y size).header y).isMmap = false ∧ ((freshBlock ed mem y size).header y).next = 0 ∧
      ((freshBlock ed mem y size).header y).prev = 0 := by
  cases ed <;> simp only [freshBlock, clearFlags, Mem.header_setPrev_self, Mem.header_setNext_self,
    Mem.header_setIsHuge_self, Mem.header_setIsMmap_self, Mem.header_setIsFree_self, Mem.header_setSize_self,
    Nat.mod_eq_of_lt lt, Nat.zero_mod, and_self]

theorem freshBlock_header_of_apart (ed : Edition) (mem : Mem) {y z size : Nat} (apart : Apart z y) :
    (freshBlock ed mem y size).header z = mem.header z :=
  Mem.header_of_apart (freshBlock_touches ed mem y size) apart

/-- The blocks of a heap that has just been set up. -/
def initialSet (base n : Nat) : Set Nat := {x | ∃ i < n, x = base + i * mmapThreshold}

theorem initialSet_succ (base n : Nat) :
    initialSet base (n + 1) = insert (base + n * mmapThreshold) (initialSet base n) := by
  ext x
  simp only [initialSet, Set.mem_ofPred_eq, Set.mem_insert_iff]
  constructor
  · rintro ⟨i, lt, rfl⟩
    by_cases e : i = n
    · exact .inl (by rw [e])
    · exact .inr ⟨i, by omega, rfl⟩
  · rintro (rfl | ⟨i, lt, rfl⟩)
    · exact ⟨n, by omega, rfl⟩
    · exact ⟨i, by omega, rfl⟩

theorem initBlock_eq (ed : Edition) (i : Nat) (s : State) :
    initBlock ed i s = flInsert maxOrder (s.heapBase + i * mmapThreshold)
      { s with mem := freshBlock ed s.mem (s.heapBase + i * mmapThreshold) mmapThreshold } := rfl

/-- **The loop of `buddy_init`**, after `n` rounds. -/
theorem initBlocks_spec (ed : Edition) {n : Nat} (base : s.heapBase ≠ 0) (lists : ∀ k, s.freeLists k = 0)
    (lt : s.heapBase + n * mmapThreshold < 2 ^ 64) :
    ∃ s', initBlocks ed n s = some s' ∧ HeapInv True s' (s.heapBase + n * mmapThreshold) (initialSet s.heapBase n) ∅ ∧
      (∀ x ∈ initialSet s.heapBase n, s'.isFree x = true ∧ s'.size x = mmapThreshold) ∧
      (∀ k, k ≠ maxOrder → s'.freeLists k = 0) ∧
      Mem.Touches (metaRanges (initialSet s.heapBase n)) s.mem s'.mem ∧ SameGlobals s s' := by
  induction n with
  | zero =>
    have none : initialSet s.heapBase 0 = ∅ := by simp [initialSet]
    refine ⟨s, rfl, ?_, by simp [none], fun k _ => lists k, Mem.Touches.refl _ _, SameGlobals.refl s⟩
    rw [none, Nat.zero_mul, Nat.add_zero]
    exact HeapInv.empty lists
  | succ n ih =>
    have threshold : mmapThreshold = blockSize maxOrder := blockSize_maxOrder.symm
    have small : mmapThreshold < 2 ^ 64 := by decide
    have step : (n + 1) * mmapThreshold = n * mmapThreshold + mmapThreshold := Nat.succ_mul _ _
    obtain ⟨s₁, run, inv, free, others, touches, globals⟩ := ih (by omega)
    set y := s.heapBase + n * mmapThreshold with hy
    have pos : y ≠ 0 := by omega
    have lt' : y + mmapThreshold < 2 ^ 64 := by omega
    have stop : s.heapBase + (n + 1) * mmapThreshold = y + mmapThreshold := by omega
    have place : s₁.heapBase + n * mmapThreshold = y := by rw [globals.heapBase]
    have apart : ∀ z ∈ initialSet s.heapBase n, Apart z y := fun z hz =>
      ((inv.places_append pos (by omega)).slots z (Set.mem_insert_of_mem _ hz) y (Set.mem_insert _ _)).resolve_left
        fun e => inv.end_not_mem (e ▸ hz)
    have hdr : ∀ z ∈ initialSet s.heapBase n, (freshBlock ed s₁.mem y mmapThreshold).header z = s₁.mem.header z :=
      fun z hz => freshBlock_header_of_apart ed _ (apart z hz)
    obtain ⟨sizeY, -, mmapY, -⟩ := freshBlock_header ed s₁.mem (y := y) small
    have inv' := inv.append pos (threshold ▸ lt') hdr (threshold ▸ sizeY) mmapY
    have mem : y ∈ insert y (initialSet s.heapBase n) := Set.mem_insert _ _
    obtain ⟨s', run', inv'', same, free', -⟩ := inv'.insert_free mem (Set.mem_insert y ∅) (threshold ▸ sizeY)
    have sub : initialSet s.heapBase n ⊆ insert y (initialSet s.heapBase n) := Set.subset_insert _ _
    rw [initialSet_succ, stop]
    refine ⟨s', ?_, ?_, ?_, ?_, ?_, ?_⟩
    · change (initBlocks ed n s).bind _ = _
      rw [run, Option.bind_some, initBlock_eq, place]
      exact run'
    · rw [Set.insert_sdiff_of_mem _ (Set.mem_singleton y), Set.empty_sdiff] at inv''
      exact threshold ▸ inv''
    · rintro x (rfl | hx)
      · exact ⟨by rw [free' _ mem, if_pos rfl], (same.size _ mem).trans sizeY⟩
      · have ne : x ≠ y := fun e => inv.end_not_mem (e ▸ hx)
        rw [free' x (sub hx), if_neg ne, same.size x (sub hx), State.isFree, State.size, hdr x hx]
        exact free x hx
    · intro k ne
      rw [same.lists k ne]
      exact others k ne
    · refine (touches_sub sub touches).trans (Mem.Touches.trans ?_ same.touches)
      exact touches_sub (Set.singleton_subset_iff.mpr mem) (freshBlock_touches ed s₁.mem y mmapThreshold)
    · exact (globals.trans (SameGlobals.store s₁ _)).trans same.globals

/-- A held block `x` became one of order `k` with a free buddy after it. -/
structure Carved (s s' : State) (B : Set Nat) (x k : Nat) : Prop where
  touches : Mem.Touches (metaRanges (insert (x + blockSize k) B)) s.mem s'.mem
  sizeX : s'.size x = blockSize k
  freeX : s'.isFree x = false
  next : s'.next x = s.next x
  prev : s'.prev x = s.prev x
  freeY : s'.isFree (x + blockSize k) = true
  same : ∀ z ∈ B, z ≠ x → s'.size z = s.size z ∧ s'.isFree z = s.isFree z
  sizeY : s'.size (x + blockSize k) = blockSize k
  lists : ∀ j, j ≠ k → s'.freeLists j = s.freeLists j
  globals : SameGlobals s s'

/-- The stores of `split_block` to the two halves of `x`. -/
def halve (ed : Edition) (x k : Nat) (mem : Mem) : Mem :=
  freshBlock ed ((mem.setSize x (blockSize k)).setIsFree x false) (x + blockSize k) (blockSize k)

/-- The part of `split_block` after the unlinking. -/
def carve (ed : Edition) (x k : Nat) (s : State) : Option State :=
  flInsert k (x + blockSize k) { s with mem := halve ed x k s.mem }

theorem splitBlock_eq (ed : Edition) (x k : Nat) (s : State) :
    splitBlock ed x (k + 1) s = (carve ed x k (flRemove (k + 1) x s)).map (Prod.mk x) := by
  change (carve ed x k (flRemove (k + 1) x s)).bind _ = _
  cases carve ed x k (flRemove (k + 1) x s) <;> rfl

theorem halve_header (places : Places (insert (x + blockSize k) B)) (hx : x ∈ B) (out : x + blockSize k ∉ B)
    (small : blockSize k < 2 ^ 64) {mem : Mem} {z : Nat} (hz : z ∈ B) : (halve ed x k mem).header z =
      if z = x then { mem.header z with size := blockSize k, isFree := false } else mem.header z := by
  have slots : Slots B := places.slots.mono (Set.subset_insert _ B)
  have apart : Apart z (x + blockSize k) :=
    (places.slots z (Set.mem_insert_of_mem _ hz) _ (Set.mem_insert _ B)).resolve_left fun e => out (e ▸ hz)
  rw [halve, freshBlock_header_of_apart ed _ apart, slots.header_setIsFree hz hx, slots.header_setSize hz hx,
    Nat.mod_eq_of_lt small]
  split_ifs <;> rfl

/-- Before the upper half is linked in, both halves are held. -/
theorem HeapInv.halve (h : HeapInv listed s hi B D) (ed : Edition) (hx : x ∈ D) (size : s.size x = blockSize (k + 1)) :
    (∀ z ∈ B, (halve ed x k s.mem).header z =
        if z = x then { s.mem.header z with size := blockSize k, isFree := false } else s.mem.header z) ∧
      ((halve ed x k s.mem).header (x + blockSize k)).size = blockSize k ∧
      HeapInv listed { s with mem := halve ed x k s.mem } hi (insert (x + blockSize k) B) (insert (x + blockSize k) D) := by
  have hxB := h.held hx
  have places := h.places_split hxB size
  have double := blockSize_succ k
  have lt := h.lt x hxB
  have small : blockSize k < 2 ^ 64 := by omega
  have notB := h.middle_not_mem hxB size
  have hdr : ∀ z ∈ B, (Buddy.halve ed x k s.mem).header z = _ := fun z hz => halve_header places hxB notB small hz
  obtain ⟨sizeY, -, mmapY, -⟩ := freshBlock_header ed ((s.mem.setSize x (blockSize k)).setIsFree x false)
    (y := x + blockSize k) small
  exact ⟨hdr, sizeY, h.split hx size (fun z hz ne => by rw [hdr z hz, if_neg ne]) (by rw [hdr x hxB, if_pos rfl])
    (by rw [hdr x hxB, if_pos rfl]; exact h.notMmap x hxB) sizeY mmapY⟩

/-- **Carving a held block.** -/
theorem HeapInv.carve (h : HeapInv listed s hi B D) (ed : Edition) (hx : x ∈ D) (size : s.size x = blockSize (k + 1)) :
    ∃ s', carve ed x k s = some s' ∧ HeapInv listed s' hi (insert (x + blockSize k) B) D ∧
      Carved s s' B x k := by
  have hxB := h.held hx
  have pos := blockSize_pos k
  have notB := h.middle_not_mem hxB size
  have inX : x ∈ insert (x + blockSize k) B := Set.mem_insert_of_mem _ hxB
  obtain ⟨hdr, sizeY, inv⟩ := h.halve ed hx size
  obtain ⟨s', run, inv', same, free, links⟩ := inv.insert_free (Set.mem_insert _ B) (Set.mem_insert _ D) sizeY
  have neY : x ≠ x + blockSize k := by omega
  have hx' : s'.next x = s.next x ∧ s'.prev x = s.prev x := by
    obtain ⟨n, p⟩ := links x (Set.mem_insert_of_mem _ hx) neY
    rw [n, p]
    simp only [State.next, State.prev, hdr x hxB, if_pos, and_self]
  refine ⟨s', run, ?_, ?_⟩
  · have eq : insert (x + blockSize k) D \ {x + blockSize k} = D := by
      rw [Set.insert_sdiff_of_mem _ (Set.mem_singleton _)]
      exact Set.sdiff_singleton_eq_self fun hd => notB (h.held hd)
    exact eq ▸ inv'
  · refine ⟨?_, ?_, ?_, hx'.1, hx'.2, ?_, fun z hz ne => ⟨?_, ?_⟩, ?_, same.lists,
      (SameGlobals.store s _).trans same.globals⟩
    · refine Mem.Touches.trans ?_ same.touches
      exact ((Mem.touches_setSize inX).trans (Mem.touches_setIsFree inX)).trans
        (touches_sub (Set.singleton_subset_iff.mpr (Set.mem_insert _ B)) (freshBlock_touches ed _ _ _))
    · rw [same.size x inX, State.size, hdr x hxB, if_pos rfl]
    · rw [free x inX, if_neg neY, State.isFree, hdr x hxB, if_pos rfl]
    · rw [free _ (Set.mem_insert _ B), if_pos rfl]
    · rw [same.size z (Set.mem_insert_of_mem _ hz), State.size, hdr z hz, if_neg ne]
    · have neY' : z ≠ x + blockSize k := fun e => notB (e ▸ hz)
      rw [free z (Set.mem_insert_of_mem _ hz), if_neg neY', State.isFree, hdr z hz, if_neg ne]
    · exact (same.size _ (Set.mem_insert _ B)).trans sizeY

/-! ## The splitting loop -/

/-- The splitting loop of `buddy_alloc` with its unlinkings moved to the ends of the
rounds: `x` is off the lists when the loop is entered. -/
def carveDown (ed : Edition) (t : Nat) : (n x : Nat) → State → Option State
  | 0, _, s => some s
  | n + 1, x, s => do
    let s ← carve ed x (t + n) s
    carveDown ed t n x (flRemove (t + n) x s)

theorem splitDown_eq (ed : Edition) (t n x : Nat) (s : State) :
    ((splitDown ed t n x s).bind fun r => some (r.1, flRemove t r.1 r.2)) =
      (carveDown ed t n x (flRemove (t + n) x s)).map (Prod.mk x) := by
  induction n generalizing s with
  | zero => rfl
  | succ n ih =>
    change ((splitBlock ed x (t + n + 1) s).bind fun r => splitDown ed t n r.1 r.2).bind _ =
      ((carve ed x (t + n) (flRemove (t + n + 1) x s)).bind fun s => _).map _
    rw [splitBlock_eq]
    cases carve ed x (t + n) (flRemove (t + n + 1) x s) with
    | none => rfl
    | some s' => exact ih s'

/-- The blocks cut off above `x`. -/
def upperHalves (x t n : Nat) : Set Nat := {y | ∃ j < n, y = x + blockSize (t + j)}

/-- The held block `x` was cut down from order `t + n` to order `t`. -/
structure CutDown (s s' : State) (B : Set Nat) (x t n : Nat) : Prop where
  touches : Mem.Touches (metaRanges (B ∪ upperHalves x t n)) s.mem s'.mem
  size : s'.size x = blockSize t
  free : n ≠ 0 → s'.isFree x = false
  next : s'.next x = 0
  prev : s'.prev x = 0
  upper : ∀ j < n, s'.size (x + blockSize (t + j)) = blockSize (t + j) ∧ s'.isFree (x + blockSize (t + j)) = true
  same : ∀ z ∈ B, z ≠ x → s'.size z = s.size z ∧ s'.isFree z = s.isFree z
  lost : ∀ j < n, s'.freeLists (t + j) = 0
  lists : ∀ j, j < t ∨ t + n ≤ j → s'.freeLists j = s.freeLists j
  globals : SameGlobals s s'

theorem upperHalves_succ (x t n : Nat) :
    upperHalves x t (n + 1) = insert (x + blockSize (t + n)) (upperHalves x t n) := by
  ext y
  simp only [upperHalves, Set.mem_ofPred_eq, Set.mem_insert_iff]
  constructor
  · rintro ⟨j, lt, rfl⟩
    by_cases e : j = n
    · exact .inl (by rw [e])
    · exact .inr ⟨j, by omega, rfl⟩
  · rintro (rfl | ⟨j, lt, rfl⟩)
    · exact ⟨n, by omega, rfl⟩
    · exact ⟨j, by omega, rfl⟩

theorem HeapInv.carveDown {t n : Nat} (h : HeapInv listed s hi B D) (ed : Edition) (hx : x ∈ D)
    (size : s.size x = blockSize (t + n)) (next : s.next x = 0) (prev : s.prev x = 0) :
    ∃ s', carveDown ed t n x s = some s' ∧ HeapInv (listed ∧ n = 0) s' hi (B ∪ upperHalves x t n) D ∧
      CutDown s s' B x t n := by
  induction n generalizing s listed B with
  | zero =>
    have none : upperHalves x t 0 = ∅ := by simp [upperHalves]
    refine ⟨s, rfl, ?_, ?_⟩
    · rw [none, Set.union_empty]
      exact { h with covers := fun l => h.covers l.1 }
    · exact ⟨Mem.Touches.refl _ _, size, fun ne => absurd rfl ne, next, prev, fun j lt => by omega,
        fun _ _ _ => ⟨rfl, rfl⟩, fun j lt => by omega, fun _ _ => rfl, SameGlobals.refl s⟩
  | succ n ih =>
    have hxB := h.held hx
    obtain ⟨s₁, run, inv, cut⟩ := h.carve ed (k := t + n) hx size
    obtain ⟨inv', hdr, same, lists⟩ := inv.unlink_held (Set.mem_insert_of_mem _ hxB) (cut.next.trans next)
      (cut.prev.trans prev) (t + n)
    set B₁ := insert (x + blockSize (t + n)) B with hB₁
    have inX : x ∈ B₁ := Set.mem_insert_of_mem _ hxB
    have hdrX := hdr x inX
    obtain ⟨s', run', inv'', cut'⟩ := ih inv' (by rw [State.size, hdrX]; exact cut.sizeX)
      (by rw [State.next, hdrX]; exact cut.next.trans next) (by rw [State.prev, hdrX]; exact cut.prev.trans prev)
    have blocks : B₁ ∪ upperHalves x t n = B ∪ upperHalves x t (n + 1) := by
      rw [upperHalves_succ, hB₁, Set.insert_union, Set.union_insert]
    have neX : ∀ j, x + blockSize j ≠ x := fun j => by
      have := blockSize_pos j
      omega
    refine ⟨s', ?_, ?_, ?_⟩
    · change (Buddy.carve ed x (t + n) s).bind _ = _
      rw [run]
      exact run'
    · rw [← blocks]
      exact { inv'' with covers := fun l => absurd l.2 (Nat.succ_ne_zero n) }
    · refine ⟨?_, cut'.size, fun _ => ?_, cut'.next, cut'.prev, fun j lt => ?_, fun z hz ne => ?_, fun j lt => ?_,
        fun j far => ?_, (cut.globals.trans same.globals).trans cut'.globals⟩
      · rw [← blocks]
        exact (touches_sub Set.subset_union_left (cut.touches.trans same.touches)).trans cut'.touches
      · by_cases e : n = 0
        · subst e
          obtain rfl : flRemove (t + 0) x s₁ = s' := Option.some_inj.mp run'
          rw [State.isFree, hdrX]
          exact cut.freeX
        · exact cut'.free e
      · by_cases e : j = n
        · subst e
          have inY := Set.mem_insert (x + blockSize (t + j)) B
          obtain ⟨size', free'⟩ := cut'.same _ inY (neX _)
          rw [size', free', State.size, State.isFree, hdr _ inY]
          exact ⟨cut.sizeY, cut.freeY⟩
        · exact cut'.upper j (by omega)
      · obtain ⟨size', free'⟩ := cut'.same z (Set.mem_insert_of_mem _ hz) ne
        rw [size', free', State.size, State.isFree, hdr z (Set.mem_insert_of_mem _ hz)]
        exact cut.same z hz ne
      · by_cases e : j = n
        · rw [e, cut'.lists (t + n) (by omega), lists, Function.update_self]
        · exact cut'.lost j (by omega)
      · rw [cut'.lists j (by omega), same.lists j (by omega), cut.lists j (by omega)]

/-! ## Orders -/

/-- The search returns the first order that is large enough, or the last one. -/
theorem orderSearch_spec (needed left order : Nat) :
    order ≤ orderSearch needed left order (blockSize order) ∧
      orderSearch needed left order (blockSize order) ≤ order + left ∧
      (∀ j, order ≤ j → j < orderSearch needed left order (blockSize order) → blockSize j < needed) ∧
      (orderSearch needed left order (blockSize order) < order + left →
        needed ≤ blockSize (orderSearch needed left order (blockSize order))) := by
  induction left generalizing order with
  | zero => exact ⟨le_refl _, le_refl _, fun j le lt => absurd lt (not_lt.mpr le), fun lt => absurd lt (lt_irrefl _)⟩
  | succ left ih =>
    have double : blockSize order <<< 1 = blockSize (order + 1) := by
      rw [Nat.shiftLeft_eq, blockSize_succ]
      omega
    rw [orderSearch, double]
    split_ifs with small
    · obtain ⟨low, up, below, enough⟩ := ih (order + 1)
      refine ⟨by omega, by omega, fun j le lt => ?_, fun lt => enough (by omega)⟩
      by_cases e : j = order
      · exact e ▸ small
      · exact below j (by omega) lt
    · exact ⟨le_refl _, by omega, fun j le lt => absurd lt (not_lt.mpr le), fun _ => not_lt.mp small⟩

theorem sizeToOrder_le (n : Nat) : sizeToOrder n ≤ maxOrder := by
  have := (orderSearch_spec ((n + metaSize) % 2 ^ 64) maxOrder 0).2.1
  rwa [Nat.zero_add] at this

/-- The block of the chosen order holds the request, unless the request is too
large for every order. -/
theorem le_blockSize_sizeToOrder {n : Nat} (hn : n + metaSize ≤ blockSize maxOrder) :
    n + metaSize ≤ blockSize (sizeToOrder n) := by
  have small : (n + metaSize) % 2 ^ 64 = n + metaSize := by
    rw [blockSize_maxOrder] at hn
    exact Nat.mod_eq_of_lt (by omega)
  by_cases e : sizeToOrder n = maxOrder
  · rwa [e]
  · have lt : sizeToOrder n < 0 + maxOrder := by
      have := sizeToOrder_le n
      omega
    have enough : (n + metaSize) % 2 ^ 64 ≤ blockSize (sizeToOrder n) :=
      (orderSearch_spec ((n + metaSize) % 2 ^ 64) maxOrder 0).2.2.2 lt
    rwa [small] at enough

theorem getOrder_eq (size : s.size m = blockSize k) (le : k ≤ maxOrder) : getOrder s m = k := by
  obtain ⟨-, up, below, enough⟩ := orderSearch_spec (blockSize k) maxOrder 0
  have eq : getOrder s m = orderSearch (blockSize k) maxOrder 0 (blockSize 0) := by
    rw [getOrder, ← State.size, size]
    rfl
  rw [eq]
  rcases lt_trichotomy (orderSearch (blockSize k) maxOrder 0 (blockSize 0)) k with lt | e | gt
  · have strict : blockSize (orderSearch (blockSize k) maxOrder 0 (blockSize 0)) < blockSize k := by
      refine lt_of_le_of_ne (blockSize_le lt.le) fun e => ?_
      exact absurd (blockSize_inj e) lt.ne
    exact absurd (enough (by omega)) (not_le.mpr strict)
  · exact e
  · exact absurd (below k (Nat.zero_le k) gt) (lt_irrefl _)

theorem firstOrder_none {left ord : Nat} :
    firstOrder s left ord = none ↔ ∀ j, ord ≤ j → j < ord + left → s.freeLists j = 0 := by
  induction left generalizing ord with
  | zero => exact ⟨fun _ j le lt => absurd lt (by omega), fun _ => rfl⟩
  | succ left ih =>
    rw [firstOrder]
    split_ifs with e
    · rw [ih]
      constructor
      · intro h j le lt
        by_cases ej : j = ord
        · exact ej ▸ e
        · exact h j (by omega) (by omega)
      · exact fun h j le lt => h j (by omega) (by omega)
    · constructor
      · exact fun h => nomatch h
      · exact fun h => absurd (h ord (le_refl _) (by omega)) e

theorem firstOrder_some {left ord o : Nat} (h : firstOrder s left ord = some o) :
    ord ≤ o ∧ o < ord + left ∧ s.freeLists o ≠ 0 ∧ ∀ j, ord ≤ j → j < o → s.freeLists j = 0 := by
  induction left generalizing ord with
  | zero => exact nomatch h
  | succ left ih =>
    rw [firstOrder] at h
    split_ifs at h with e
    · obtain ⟨le, lt, ne, first⟩ := ih h
      refine ⟨by omega, by omega, ne, fun j le' lt' => ?_⟩
      by_cases ej : j = ord
      · exact ej ▸ e
      · exact first j (by omega) lt'
    · obtain rfl := Option.some_inj.mp h
      exact ⟨le_refl _, by omega, e, fun j le' lt' => absurd lt' (not_lt.mpr le')⟩

/-! ## Allocation -/

/-- `x` was allocated as a block of order `t`, cut out of a free block of order
`t + n`. -/
structure Allocated (s s' : State) (B : Set Nat) (x t n : Nat) : Prop where
  touches : Mem.Touches (metaRanges (B ∪ upperHalves x t n)) s.mem s'.mem
  size : s'.size x = blockSize t
  free : s'.isFree x = false
  upper : ∀ j < n, s'.size (x + blockSize (t + j)) = blockSize (t + j) ∧ s'.isFree (x + blockSize (t + j)) = true
  same : ∀ z ∈ B, z ≠ x → s'.size z = s.size z ∧ s'.isFree z = s.isFree z
  lost : ∀ j < n, s'.freeLists (t + j) = 0
  lists : ∀ j, j < t ∨ t + n < j → s'.freeLists j = s.freeLists j
  globals : SameGlobals s s'

/-- The block `buddy_alloc` takes: the head of the first non-empty list from the
target order on. -/
structure Chosen (s : State) (B : Set Nat) (x t n : Nat) : Prop where
  head : s.freeLists (t + n) = x
  mem : x ∈ FreeOf s B ∅ (t + n)
  first : ∀ j, t ≤ j → j < t + n → s.freeLists j = 0
  order : t + n ≤ maxOrder

theorem buddyAlloc_some {n o : Nat} (h : firstOrder s (maxOrder + 1 - sizeToOrder n) (sizeToOrder n) = some o) :
    buddyAlloc ed n s = (carveDown ed (sizeToOrder n) (o - sizeToOrder n) (s.freeLists o)
      (flRemove o (s.freeLists o) s)).map fun s' =>
        (s.freeLists o, { s' with mem := s'.mem.setIsFree (s.freeLists o) false }) := by
  have le := (firstOrder_some h).1
  have eq := splitDown_eq ed (sizeToOrder n) (o - sizeToOrder n) (s.freeLists o) s
  rw [Nat.add_sub_cancel' le] at eq
  unfold buddyAlloc
  simp only [if_neg (not_lt.mpr (sizeToOrder_le n)), h]
  change (splitDown ed _ _ _ s).bind _ = _
  generalize carveDown ed (sizeToOrder n) (o - sizeToOrder n) (s.freeLists o) (flRemove o (s.freeLists o) s) = r
    at eq ⊢
  cases run : splitDown ed (sizeToOrder n) (o - sizeToOrder n) (s.freeLists o) s with
  | none =>
    rw [run] at eq
    cases r with
    | none => rfl
    | some _ => exact nomatch eq
  | some p =>
    rw [run] at eq
    cases r with
    | none => exact nomatch eq
    | some s' =>
      obtain ⟨e, e'⟩ := Prod.mk.inj (Option.some_inj.mp eq)
      simp only [Option.bind_some, Option.map_some, ← e, ← e']
      rfl

/-- **`buddy_alloc`** fails exactly when all lists from the target order on are
empty. Otherwise it takes the head of the first non-empty one; the lists stay
complete only when nothing had to be split. -/
theorem HeapInv.buddyAlloc (h : HeapInv listed s hi B ∅) (ed : Edition) (n : Nat) :
    (buddyAlloc ed n s = some (0, s) ∧ ∀ j, sizeToOrder n ≤ j → j ≤ maxOrder → s.freeLists j = 0) ∨
      ∃ x d s', buddyAlloc ed n s = some (x, s') ∧ Chosen s B x (sizeToOrder n) d ∧
        HeapInv (listed ∧ d = 0) s' hi (B ∪ upperHalves x (sizeToOrder n) d) ∅ ∧
        Allocated s s' B x (sizeToOrder n) d := by
  have order := sizeToOrder_le n
  cases first : firstOrder s (maxOrder + 1 - sizeToOrder n) (sizeToOrder n) with
  | none =>
    left
    refine ⟨?_, fun j le le' => firstOrder_none.mp first j le (by omega)⟩
    unfold Buddy.buddyAlloc
    simp only [if_neg (not_lt.mpr order), first]
  | some o =>
    right
    obtain ⟨le, lt, ne, empty⟩ := firstOrder_some first
    obtain ⟨d, rfl⟩ := Nat.exists_eq_add_of_le le
    set t := sizeToOrder n
    set x := s.freeLists (t + d) with hx
    have mem : x ∈ FreeOf s B ∅ (t + d) := ((h.heads (t + d)).resolve_left ne).1
    obtain ⟨inv, same, free, next, prev⟩ := h.unlink mem
    have size := (same.size x mem.1).trans mem.2.2.2
    obtain ⟨s', run, inv', cut⟩ := inv.carveDown ed (t := t) (n := d) (Set.mem_insert x ∅) size next prev
    have inX : x ∈ B ∪ upperHalves x t d := .inl mem.1
    have inv'' := inv'.setIsFree inX (Set.mem_insert x ∅) false
    have hdr : ∀ z ∈ B ∪ upperHalves x t d, (s'.mem.setIsFree x false).header z = _ :=
      fun z hz => inv'.places.slots.header_setIsFree hz inX false
    have others : ∀ z ∈ B ∪ upperHalves x t d, z ≠ x →
        ((s'.mem.setIsFree x false).header z).size = s'.size z ∧
          ((s'.mem.setIsFree x false).header z).isFree = s'.isFree z := by
      intro z hz e
      rw [hdr z hz, if_neg e]
      exact ⟨rfl, rfl⟩
    refine ⟨x, d, { s' with mem := s'.mem.setIsFree x false }, ?_, ?_, ?_, ?_⟩
    · rw [buddyAlloc_some first, Nat.add_sub_cancel_left, ← hx, run]
      rfl
    · exact ⟨hx.symm, mem, fun j le' lt' => empty j le' lt', by omega⟩
    · have self : ({ s' with mem := s'.mem.setIsFree x false } : State).isFree x = false := by
        rw [State.isFree, hdr x inX, if_pos rfl]
      have := inv''.release self
      rwa [Set.insert_sdiff_of_mem _ (Set.mem_singleton x), Set.empty_sdiff] at this
    · refine ⟨?_, ?_, ?_, fun j ltj => ?_, fun z hz e => ?_, cut.lost, fun j far => ?_, ?_⟩
      · exact ((touches_sub Set.subset_union_left same.touches).trans cut.touches).trans (Mem.touches_setIsFree inX)
      · rw [State.size, hdr x inX, if_pos rfl]
        exact cut.size
      · rw [State.isFree, hdr x inX, if_pos rfl]
      · have pos := blockSize_pos (t + j)
        have neX : x + blockSize (t + j) ≠ x := by omega
        obtain ⟨size', free'⟩ := others _ (.inr ⟨j, ltj, rfl⟩) neX
        exact (cut.upper j ltj).imp size'.trans free'.trans
      · obtain ⟨size', free'⟩ := others z (.inl hz) e
        obtain ⟨size'', free''⟩ := cut.same z hz e
        exact ⟨size'.trans (size''.trans (same.size z hz)), free'.trans (free''.trans (free z hz))⟩
      · exact (cut.lists j (by omega)).trans (same.lists j (by omega))
      · exact (same.globals.trans cut.globals).trans (SameGlobals.store s' _)

end OsProjects.Malloc.Buddy
