import OsProjects.Malloc.Split

/-!
# Merging blocks

Joining a held block with its free buddy, and the two loops that do it. The loop
of `buddy_free_and_merge` looks before each round whether the buddy can be
merged; `srealloc` first runs the tests alone and then the rounds alone. Both
are runs of the same round (`absorb`), and `Merged` says what a run did.
-/

namespace OsProjects.Malloc.Buddy

open Links Tiling

variable {listed : Prop} {s s' s'' : State} {hi i j k m x y : Nat} {B D B' B'' : Set Nat}

namespace HeapInv

/-- Joining two held buddies: the lower one is held. -/
theorem join (h : HeapInv listed s hi B D) (hx : x ∈ D) (hy : y ∈ D) (sizeX : s.size x = blockSize k)
    (sizeY : s.size y = blockSize k) (next : y = x + blockSize k) (dvd : blockSize (k + 1) ∣ x - s.heapBase)
    (order : k < maxOrder) {mem : Mem} (same : ∀ z ∈ B, z ≠ x → mem.header z = s.mem.header z)
    (size : (mem.header x).size = blockSize (k + 1)) (mmap : (mem.header x).isMmap = false) :
    HeapInv listed { s with mem := mem } hi (B \ {y}) (D \ {y}) := by
  have hxB := h.held hx
  have double := blockSize_succ k
  have ltY := h.lt y (h.held hy)
  have neX : ∀ z, z ∉ D → z ≠ x := fun z hz e => hz (e ▸ hx)
  refine h.transport ?_ ?_ h.whole (fun z hz => h.pos z hz.1) ?_ ?_ (fun j => ?_) (fun j z hz => ?_) rfl
    fun z hz => ⟨h.held hz.1, hz.2⟩
  · refine h.tiles.join hxB (h.held hy) (sizeX ▸ next) ?_ fun z hz ne _ => by rw [State.size, same z hz ne]
    rw [sizeX, sizeY, ← double]
    exact size
  · rintro z ⟨hz, -⟩
    obtain rfl | e := eq_or_ne z x
    · exact ⟨k + 1, order, by rw [← blockSize_eq]; exact size, by rw [← blockSize_eq]; exact dvd⟩
    · obtain ⟨j, le, size', dvd'⟩ := h.dyadic z hz
      exact ⟨j, le, by rw [State.size, same z hz e]; exact size', dvd'⟩
  · rintro z ⟨hz, -⟩
    obtain rfl | e := eq_or_ne z x
    · rw [State.size, size]
      omega
    · rw [State.size, same z hz e]
      exact h.lt z hz
  · rintro z ⟨hz, -⟩
    obtain rfl | e := eq_or_ne z x
    · exact mmap
    · rw [State.isMmap, same z hz e]
      exact h.notMmap z hz
  · ext z
    simp only [mem_freeOf, Set.mem_sdiff, Set.mem_singleton_iff, not_and, not_not]
    constructor
    · rintro ⟨⟨hz, ne⟩, hd, free, sz⟩
      have hd' : z ∉ D := fun held => ne (hd held)
      rw [State.isFree, same z hz (neX z hd')] at free
      rw [State.size, same z hz (neX z hd')] at sz
      exact ⟨hz, hd', free, sz⟩
    · rintro ⟨hz, hd, free, sz⟩
      refine ⟨⟨hz, fun e => hd (e ▸ hy)⟩, fun held => absurd held hd, ?_, ?_⟩
      · rwa [State.isFree, same z hz (neX z hd)]
      · rwa [State.size, same z hz (neX z hd)]
  · simp only [State.next, State.prev, same z hz.1 (neX z hz.2.1), and_self]

/-- The buddy of a block below the largest order is a block, right before or right
after it, and the lower one of the two starts at a multiple of their joint size. -/
theorem buddy_cases (h : HeapInv listed s hi B D) (hm : m ∈ B) (size : s.size m = blockSize k)
    (order : k < maxOrder) :
    getBuddy s m k ∈ B ∧
      (getBuddy s m k = m + blockSize k ∧ blockSize (k + 1) ∣ m - s.heapBase ∨
        m = getBuddy s m k + blockSize k ∧ blockSize (k + 1) ∣ getBuddy s m k - s.heapBase) := by
  have low := h.tiles.lower m hm
  have whole : 2 ^ (7 + k + 1) ∣ hi - s.heapBase := by
    refine Nat.dvd_trans ?_ h.whole
    rw [blockSize_eq]
    exact pow_dvd_pow 2 (by omega)
  have pow : 2 ^ (7 + k + 1) = blockSize (k + 1) := (blockSize_eq (k + 1)).symm
  have mem := (h.dyadic.buddy h.tiles hm (size.trans (blockSize_eq k)) whole).1
  have dvd := h.aligned hm size
  rw [blockSize_eq] at dvd
  have sides := xor_pow_of_dvd dvd
  rw [← blockSize_eq] at mem sides
  rw [pow] at sides
  unfold getBuddy
  refine ⟨mem, sides.imp ?_ ?_⟩
  · rintro ⟨e, dvd'⟩
    exact ⟨by omega, dvd'⟩
  · rintro ⟨e, dvd'⟩
    exact ⟨by omega, by rwa [Nat.add_sub_cancel_left]⟩

end HeapInv

/-- What the test of a merging loop lets through. -/
theorem cannotMerge_eq_false (h : cannotMerge s y k = false) : s.isFree y = true ∧ s.size y = blockSize k := by
  simp only [cannotMerge, Bool.or_eq_false_iff, Bool.not_eq_false', decide_eq_false_iff_not, not_not] at h
  exact ⟨h.1.2, h.2⟩

/-- Inside the heap the test stops a loop only for the block's sake. -/
theorem not_free_of_cannotMerge (h : cannotMerge s y k = true) (low : s.heapBase ≤ y)
    (high : y < s.heapBase + totalHeapSize) : ¬(s.isFree y = true ∧ s.size y = blockSize k) := by
  rintro ⟨free, size⟩
  have free' : (s.mem.header y).isFree = true := free
  have size' : (s.mem.header y).size = blockSize k := size
  simp only [cannotMerge, free', size', not_lt.mpr low, not_le.mpr high, decide_false, Bool.not_true, Bool.or_self,
    ne_eq, not_true_eq_false, Bool.false_eq_true] at h

theorem getBuddy_congr (base : s'.heapBase = s.heapBase) (m k : Nat) : getBuddy s' m k = getBuddy s m k := by
  unfold getBuddy
  rw [base]

/-! ## One round -/

/-- A round of a merging loop: the block that results and the state. -/
def absorb (k m : Nat) (s : State) : Nat × State :=
  let b := getBuddy s m k
  let s := flRemove k b s
  let m := if b < m then b else m
  (m, { s with mem := s.mem.setSize m (blockSize (k + 1)) })

theorem mergeUp_succ (left m k : Nat) (s : State) : mergeUp (left + 1) m k s =
    if cannotMerge s (getBuddy s m k) k then (m, k, s)
    else mergeUp left (absorb k m s).1 (k + 1) (absorb k m s).2 := rfl

theorem mergeInto_succ (n m k : Nat) (s : State) :
    mergeInto (n + 1) m k s = mergeInto n (absorb k m s).1 (k + 1) (absorb k m s).2 := rfl

/-- The block `m` of order `j` was merged with free blocks into the block `x` of
order `k`. -/
structure Merged (s s' : State) (B B' : Set Nat) (m x j k : Nat) : Prop where
  le : j ≤ k
  sub : B' ⊆ B
  mem : x ∈ B'
  self : m ∈ B' → x = m
  size : s'.size x = blockSize k
  low : x ≤ m
  high : m + blockSize j ≤ x + blockSize k
  inside : ∀ z ∈ B, z ∉ B' ∨ z = x → x ≤ z ∧ z + s.size z ≤ x + blockSize k
  absorbed : ∀ z ∈ B, z ≠ m → z ∉ B' ∨ z = x → s.isFree z = true
  same : ∀ z ∈ B', z ≠ x → s'.size z = s.size z ∧ s'.isFree z = s.isFree z
  lists : ∀ i, i < j ∨ k < i → s'.freeLists i = s.freeLists i
  touches : Mem.Touches (metaRanges B) s.mem s'.mem
  globals : SameGlobals s s'

theorem Merged.refl (hm : m ∈ B) (size : s.size m = blockSize k) : Merged s s B B m m k k where
  le := le_refl k
  sub := subset_rfl
  mem := hm
  self := fun _ => rfl
  size := size
  low := le_refl m
  high := le_refl _
  inside z hz h := by
    obtain rfl := h.resolve_left (not_not.mpr hz)
    exact ⟨le_refl z, size ▸ le_refl _⟩
  absorbed z hz ne h := absurd (h.resolve_left (not_not.mpr hz)) ne
  same _ _ _ := ⟨rfl, rfl⟩
  lists _ _ := rfl
  touches := Mem.Touches.refl _ _
  globals := SameGlobals.refl s

theorem Merged.trans (h : Merged s s' B B' m x i j) (h' : Merged s' s'' B' B'' x y j k) :
    Merged s s'' B B'' m y i k := by
  have le := h.le
  have le' := h'.le
  have low := h'.low
  have high := h.high
  have high' := h'.high
  refine ⟨by omega, h'.sub.trans h.sub, h'.mem, ?_, h'.size, low.trans h.low, by omega, ?_, ?_, ?_, ?_, ?_,
    h.globals.trans h'.globals⟩
  · intro hm
    obtain rfl := h.self (h'.sub hm)
    exact h'.self hm
  · intro z hz out
    by_cases hz' : z ∈ B'
    · obtain ⟨a, b⟩ := h'.inside z hz' out
      obtain rfl | e := eq_or_ne z x
      · have := (h.inside z hz (.inr rfl)).2
        omega
      · rw [(h.same z hz' e).1] at b
        exact ⟨a, b⟩
    · have := h.inside z hz (.inl hz')
      omega
  · intro z hz ne out
    by_cases hz' : z ∈ B'
    · by_cases e : z = x
      · exact h.absorbed z hz ne (.inr e)
      · rw [← (h.same z hz' e).2]
        exact h'.absorbed z hz' e out
    · exact h.absorbed z hz ne (.inl hz')
  · intro z hz ne
    have neX : z ≠ x := fun e => ne (by rw [h'.self (e ▸ hz), e])
    obtain ⟨size, free⟩ := h'.same z hz ne
    obtain ⟨size', free'⟩ := h.same z (h'.sub hz) neX
    exact ⟨size.trans size', free.trans free'⟩
  · intro l far
    rw [h'.lists l (by omega), h.lists l (by omega)]
  · exact h.touches.trans (touches_sub h.sub h'.touches)

/-- **One round of merging.** -/
theorem HeapInv.absorb (h : HeapInv listed s hi B {m}) (size : s.size m = blockSize k) (order : k < maxOrder)
    (can : cannotMerge s (getBuddy s m k) k = false) :
    ∃ B', HeapInv listed (absorb k m s).2 hi B' {(absorb k m s).1} ∧
      Merged s (absorb k m s).2 B B' m (absorb k m s).1 k (k + 1) := by
  have hm : m ∈ B := h.held rfl
  obtain ⟨hb, sides⟩ := h.buddy_cases hm size order
  obtain ⟨freeB, sizeB⟩ := cannotMerge_eq_false can
  have pos := blockSize_pos k
  have double := blockSize_succ k
  unfold Buddy.absorb
  set b := getBuddy s m k
  have ne : b ≠ m := by omega
  obtain ⟨inv, same, free, -, -⟩ := h.unlink (m := b) ⟨hb, ne, freeB, sizeB⟩
  have sizes : ∀ z ∈ B, (flRemove k b s).size z = s.size z := same.size
  -- the two buddies in address order
  obtain ⟨x, y, hx, hy, lower, next, dvd, pair⟩ : ∃ x y, x ∈ B ∧ y ∈ B ∧ (if b < m then b else m) = x ∧
      y = x + blockSize k ∧ blockSize (k + 1) ∣ x - s.heapBase ∧ (x = m ∧ y = b ∨ x = b ∧ y = m) := by
    rcases sides with ⟨e, dvd⟩ | ⟨e, dvd⟩
    · exact ⟨m, b, hm, hb, if_neg (by omega), e, dvd, .inl ⟨rfl, rfl⟩⟩
    · exact ⟨b, m, hb, hm, if_pos (by omega), e, dvd, .inr ⟨rfl, rfl⟩⟩
  have held : ∀ z, z = x ∨ z = y ↔ z ∈ insert b ({m} : Set Nat) := by
    intro z
    rw [Set.mem_insert_iff, Set.mem_singleton_iff]
    omega
  have sizeOf : ∀ z, z = x ∨ z = y → s.size z = blockSize k := by
    rintro z hz
    rcases (held z).mp hz with rfl | rfl
    · exact sizeB
    · exact size
  have lt := h.lt y hy
  have sizeY := sizeOf y (.inr rfl)
  have small : blockSize (k + 1) < 2 ^ 64 := by omega
  set mem := (flRemove k b s).mem.setSize x (blockSize (k + 1)) with hmem
  have hdr : ∀ z ∈ B, mem.header z = _ := fun z hz => inv.places.slots.header_setSize hz hx (blockSize (k + 1))
  have off : ∀ z ∈ B, z ≠ x → mem.header z = (flRemove k b s).mem.header z := fun z hz e => by
    rw [hdr z hz, if_neg e]
  have sizeX : (mem.header x).size = blockSize (k + 1) := by
    rw [hdr x hx, if_pos rfl]
    exact Nat.mod_eq_of_lt small
  have joined := inv.join (x := x) (y := y) (k := k) ((held x).mp (.inl rfl)) ((held y).mp (.inr rfl))
    ((sizes x hx).trans (sizeOf x (.inl rfl))) ((sizes y hy).trans sizeY) next
    (by rw [flRemove_heapBase]; exact dvd) order off sizeX (by rw [hdr x hx, if_pos rfl]; exact inv.notMmap x hx)
  have left : insert b ({m} : Set Nat) \ {y} = {x} := by
    ext z
    rw [Set.mem_sdiff, ← held, Set.mem_singleton_iff, Set.mem_singleton_iff]
    omega
  rw [left] at joined
  simp only [lower]
  refine ⟨B \ {y}, joined, ?_⟩
  have isPair : ∀ z ∈ B, z ∉ B \ {y} ∨ z = x → z = x ∨ z = y := by
    rintro z hz (out | e)
    · exact .inr (by_contra fun e => out ⟨hz, e⟩)
    · exact .inl e
  refine ⟨Nat.le_succ k, fun _ hz => hz.1, ⟨hx, by rw [Set.mem_singleton_iff]; omega⟩, ?_, sizeX, by omega,
    by omega, ?_, ?_, ?_, ?_, ?_, same.globals.trans (SameGlobals.store _ mem)⟩
  · rintro ⟨-, e⟩
    rw [Set.mem_singleton_iff] at e
    omega
  · intro z hz out
    have := isPair z hz out
    rw [sizeOf z this]
    omega
  · intro z hz e out
    have := isPair z hz out
    obtain rfl : z = b := by omega
    exact freeB
  · rintro z ⟨hz, -⟩ e
    rw [State.size, State.isFree, off z hz e]
    exact ⟨sizes z hz, free z hz⟩
  · exact fun l far => same.lists l (by omega)
  · exact same.touches.trans (Mem.touches_setSize hx)

/-- Flags and links of the result may change afterwards. -/
theorem Merged.relink (h : Merged s s' B B' m x j k) (same : SameBlocks B' k s' s'')
    (free : ∀ z ∈ B', z ≠ x → s''.isFree z = s'.isFree z) : Merged s s'' B B' m x j k :=
  { h with
    size := (same.size x h.mem).trans h.size
    same := fun z hz ne => ⟨(same.size z hz).trans (h.same z hz ne).1, (free z hz ne).trans (h.same z hz ne).2⟩
    lists := fun i far => (same.lists i (by have := h.le; omega)).trans (h.lists i far)
    touches := h.touches.trans (touches_sub h.sub same.touches)
    globals := h.globals.trans same.globals }

/-- The flag of a held block may be written at any time. -/
theorem HeapInv.sameBlocks_setIsFree (h : HeapInv listed s hi B D) (hm : m ∈ B) (b : Bool) (k : Nat) :
    SameBlocks B k s { s with mem := s.mem.setIsFree m b } ∧
      ∀ z ∈ B, (s.mem.setIsFree m b).header z =
        if z = m then { s.mem.header z with isFree := b } else s.mem.header z := by
  have hdr : ∀ z ∈ B, _ := fun z hz => h.places.slots.header_setIsFree (m := s.mem) hz hm b
  refine ⟨⟨Mem.touches_setIsFree hm, fun z hz => ?_, fun z hz => ?_, fun _ _ => rfl, SameGlobals.store s _⟩, hdr⟩
  · rw [State.size, hdr z hz]
    split_ifs <;> rfl
  · rw [State.isMmap, hdr z hz]
    split_ifs <;> rfl

/-! ## What a round writes to -/

/-- The blocks whose metadata a merging loop may write: the free ones and the one being
merged. -/
def Loose (s : State) (B : Set Nat) (m : Nat) : Set Nat := {z | z ∈ B ∧ (z = m ∨ s.isFree z = true)}

theorem freeOf_loose (s : State) (B D : Set Nat) (m k : Nat) : FreeOf s B D k ⊆ Loose s B m :=
  fun _ hz => ⟨hz.1, .inr hz.2.2.1⟩

/-- Merging adds no block to these. -/
theorem Merged.loose (h : Merged s s' B B' m x j k) : Loose s' B' x ⊆ Loose s B m := by
  rintro z ⟨hz, own⟩
  refine ⟨h.sub hz, or_iff_not_imp_left.mpr fun neM => ?_⟩
  by_cases e : z = x
  · exact h.absorbed z (h.sub hz) neM (.inr e)
  · rw [← (h.same z hz e).2]
    exact own.resolve_left e

theorem HeapInv.unlink_touches (h : HeapInv listed s hi B D) (hy : y ∈ FreeOf s B D k) :
    Mem.Touches (metaRanges (FreeOf s B D k)) s.mem (flRemove k y s).mem := by
  have places := h.places.mono (HeapInv.freeOf_sub s B D k)
  exact (flRemove_relinks places subset_rfl (h.linked k) (h.heads k) hy).1.touches

theorem HeapInv.insert_touches (h : HeapInv listed s hi B D) (hm : m ∈ B) (held : m ∈ D)
    (run : flInsert k m s = some s') : Mem.Touches (metaRanges (insert m (FreeOf s B D k))) s.mem s'.mem := by
  have places := h.places.mono (Set.insert_subset hm (HeapInv.freeOf_sub s B D k))
  obtain ⟨t, run', relinks, -⟩ := flInsert_relinks places (Set.subset_insert m _) (h.linked k) (h.heads k)
    (Set.mem_insert m _) fun hm' => hm'.2.1 held
  obtain rfl := Option.some_inj.mp (run.symm.trans run')
  exact relinks.touches

theorem HeapInv.absorb_touches (h : HeapInv listed s hi B {m}) (size : s.size m = blockSize k) (order : k < maxOrder)
    (can : cannotMerge s (getBuddy s m k) k = false) :
    Mem.Touches (metaRanges (Loose s B m)) s.mem (Buddy.absorb k m s).2.mem := by
  have hm : m ∈ B := h.held rfl
  obtain ⟨hb, sides⟩ := h.buddy_cases hm size order
  obtain ⟨freeB, sizeB⟩ := cannotMerge_eq_false can
  have pos := blockSize_pos k
  unfold Buddy.absorb
  set b := getBuddy s m k
  have ne : b ≠ m := by omega
  have first := touches_sub (freeOf_loose s B {m} m k) (h.unlink_touches (y := b) ⟨hb, ne, freeB, sizeB⟩)
  refine first.trans (Mem.touches_setSize ?_)
  split_ifs
  · exact ⟨hb, .inr freeB⟩
  · exact ⟨hm, .inl rfl⟩

/-! ## The loop of `buddy_free_and_merge` -/

/-- **The loop** ends at the largest order or in front of a buddy it cannot merge. -/
theorem HeapInv.mergeUp (h : HeapInv listed s hi B {m}) (left : Nat) (size : s.size m = blockSize k)
    (order : k + left = maxOrder) :
    ∃ x j s' B', mergeUp left m k s = (x, j, s') ∧ HeapInv listed s' hi B' {x} ∧ Merged s s' B B' m x k j ∧
      Mem.Touches (metaRanges (Loose s B m)) s.mem s'.mem ∧
      (j < maxOrder → cannotMerge s' (getBuddy s' x j) j = true) := by
  induction left generalizing s m k B with
  | zero => exact ⟨m, k, s, B, rfl, h, Merged.refl (h.held rfl) size, Mem.Touches.refl _ _, fun lt => by omega⟩
  | succ left ih =>
    rw [mergeUp_succ]
    by_cases can : cannotMerge s (getBuddy s m k) k = true
    · rw [if_pos can]
      exact ⟨m, k, s, B, rfl, h, Merged.refl (h.held rfl) size, Mem.Touches.refl _ _, fun _ => can⟩
    · rw [if_neg can]
      have can' := Bool.eq_false_iff.mpr can
      obtain ⟨B₁, inv, merged⟩ := h.absorb size (by omega) can'
      obtain ⟨x, j, s', B', run, inv', merged', touches, stop⟩ := ih inv merged.size (by omega)
      refine ⟨x, j, s', B', run, inv', merged.trans merged', ?_, stop⟩
      exact (h.absorb_touches size (by omega) can').trans (touches_sub merged.loose touches)

/-- The buddy that a merging loop looks at is inside the heap. -/
theorem HeapInv.buddy_inside (h : HeapInv listed s hi B D) (hm : m ∈ B) (size : s.size m = blockSize k)
    (order : k < maxOrder) : s.heapBase ≤ getBuddy s m k ∧ getBuddy s m k < hi := by
  have hb := (h.buddy_cases hm size order).1
  have := h.tiles.upper _ hb
  have := h.tiles.pos _ hb
  exact ⟨h.tiles.lower _ hb, by omega⟩

/-- The block `m` of order `j` was freed: it became a part of the free block `x` of
order `k`, whose buddy is not a free block of that order. -/
structure Freed (s s' : State) (B B' : Set Nat) (m x j k : Nat) : Prop extends Merged s s' B B' m x j k where
  free : s'.isFree x = true
  loose : Mem.Touches (metaRanges (Loose s B m)) s.mem s'.mem
  apart : k < maxOrder → getBuddy s' x k ∉ FreeOf s' B' ∅ k

/-- The end of `buddy_free_and_merge`: the merged block is put down as free. -/
theorem HeapInv.putDown (h : HeapInv listed s hi B {x}) (size : s.size x = blockSize k) :
    ∃ s', flInsert k x { s with mem := s.mem.setIsFree x true } = some s' ∧ HeapInv listed s' hi B ∅ ∧
      SameBlocks B k s s' ∧ (∀ z ∈ B, s'.isFree z = if z = x then true else s.isFree z) ∧
      Mem.Touches (metaRanges (Loose s B x)) s.mem s'.mem := by
  have hx : x ∈ B := h.held rfl
  obtain ⟨same, hdr⟩ := h.sameBlocks_setIsFree hx true k
  have h' := h.setIsFree hx rfl true
  obtain ⟨s', run, inv, same', free, -⟩ := h'.insert_free hx rfl ((same.size x hx).trans size)
  have own : x ∈ Loose s B x := ⟨hx, .inl rfl⟩
  have nodes : insert x (FreeOf { s with mem := s.mem.setIsFree x true } B {x} k) ⊆ Loose s B x := by
    rintro z (rfl | ⟨hz, held, flag, -⟩)
    · exact own
    · have ne : z ≠ x := held
      rw [State.isFree, hdr z hz, if_neg ne] at flag
      exact ⟨hz, .inr flag⟩
  rw [Set.sdiff_self] at inv
  refine ⟨s', run, inv, ⟨same.touches.trans same'.touches, ?_, ?_, ?_, same.globals.trans same'.globals⟩, fun z hz => ?_, ?_⟩
  · exact fun z hz => (same'.size z hz).trans (same.size z hz)
  · exact fun z hz => (same'.isMmap z hz).trans (same.isMmap z hz)
  · exact fun i ne => (same'.lists i ne).trans (same.lists i ne)
  · rw [free z hz, State.isFree, hdr z hz]
    split_ifs <;> rfl
  · exact (Mem.touches_setIsFree own).trans (touches_sub nodes (h'.insert_touches hx rfl run))

theorem buddyFreeAndMerge_eq (size : s.size m = blockSize j) (order : j ≤ maxOrder) (left : j + i = maxOrder)
    (run : mergeUp i m j s = (x, k, s')) :
    buddyFreeAndMerge m s = flInsert k x { s' with mem := s'.mem.setIsFree x true } := by
  obtain rfl : maxOrder - j = i := by omega
  simp only [Buddy.buddyFreeAndMerge, getOrder_eq size order, run]

/-- **`buddy_free_and_merge`** of an allocated block. -/
theorem HeapInv.buddyFreeAndMerge (h : HeapInv listed s hi B ∅) (room : hi ≤ s.heapBase + totalHeapSize) (hm : m ∈ B)
    (alloc : s.isFree m = false) :
    ∃ x j k s' B', buddyFreeAndMerge m s = some s' ∧ s.size m = blockSize j ∧ HeapInv listed s' hi B' ∅ ∧
      Freed s s' B B' m x j k := by
  obtain ⟨j, order, size, -⟩ := h.size_cases hm
  have hold : HeapInv listed s hi B {m} := insert_empty_eq (β := Set Nat) m ▸ h.hold hm alloc
  obtain ⟨left, whole⟩ := Nat.exists_eq_add_of_le order
  obtain ⟨x, k, s₁, B', run, inv, merged, touches, stop⟩ := hold.mergeUp left size whole.symm
  obtain ⟨s', run', inv', same, free, touches'⟩ := inv.putDown merged.size
  have relinked := merged.relink same fun z hz ne => (free z hz).trans (if_neg ne)
  refine ⟨x, j, k, s', B', (buddyFreeAndMerge_eq size order whole.symm run).trans run', size, inv',
    ⟨relinked, (free x merged.mem).trans (if_pos rfl), touches.trans (touches_sub merged.loose touches'), fun lt => ?_⟩⟩
  obtain ⟨low, high⟩ := inv.buddy_inside merged.mem merged.size lt
  obtain ⟨hb, sides⟩ := inv.buddy_cases merged.mem merged.size lt
  have base : s₁.heapBase = s.heapBase := merged.globals.heapBase
  have pos := blockSize_pos k
  rintro ⟨-, -, flag, sz⟩
  have ne : getBuddy s₁ x k ≠ x := by omega
  rw [getBuddy_congr same.globals.heapBase] at flag sz
  rw [free _ hb, if_neg ne] at flag
  rw [same.size _ hb] at sz
  exact not_free_of_cannotMerge (stop lt) low (by omega) ⟨flag, sz⟩

/-! ## The merging of `srealloc` -/

/-- The tests of the simulated merging still hold while the rounds are carried
out: a round changes no block but the one being merged. -/
theorem cannotMerge_congr (size : s'.size y = s.size y) (free : s'.isFree y = s.isFree y)
    (base : s'.heapBase = s.heapBase) : cannotMerge s' y k = cannotMerge s y k := by
  unfold cannotMerge
  rw [base, show (s'.mem.header y).size = (s.mem.header y).size from size,
    show (s'.mem.header y).isFree = (s.mem.header y).isFree from free]

theorem simulateMerge_succ (size left cur k : Nat) (s : State) : simulateMerge size s (left + 1) cur k =
    if cannotMerge s (getBuddy s cur k) k then none
    else if size ≤ subSize (blockSize (k + 1)) metaSize then some (k + 1)
    else simulateMerge size s left (if getBuddy s cur k < cur then getBuddy s cur k else cur) (k + 1) := rfl

/-- A round of the simulated merging sees what the round that is carried out sees. -/
theorem HeapInv.simulated {cur : Nat} (h : HeapInv listed s' hi B' {cur}) (merged : Merged s s' B B' m cur j k)
    (order : k < maxOrder) :
    getBuddy s cur k ∈ B' ∧ cannotMerge s' (getBuddy s' cur k) k = cannotMerge s (getBuddy s cur k) k ∧
      (Buddy.absorb k cur s').1 = if getBuddy s cur k < cur then getBuddy s cur k else cur := by
  have base := merged.globals.heapBase
  obtain ⟨hb, sides⟩ := h.buddy_cases merged.mem merged.size order
  rw [getBuddy_congr base] at hb sides
  have ne : getBuddy s cur k ≠ cur := by
    have := blockSize_pos k
    omega
  obtain ⟨sizeB, freeB⟩ := merged.same _ hb ne
  refine ⟨hb, ?_, ?_⟩
  · rw [getBuddy_congr base, cannotMerge_congr sizeB freeB base]
  · rw [← getBuddy_congr base]
    rfl

/-- **The simulated merging is carried out as simulated.** -/
theorem HeapInv.mergeInto {left size cur o : Nat} (h : HeapInv listed s' hi B' {cur})
    (merged : Merged s s' B B' m cur j k) (order : k + left = maxOrder)
    (sim : simulateMerge size s left cur k = some o) :
    ∃ x s'' B'', mergeInto (o - k) cur k s' = (x, s'') ∧ HeapInv listed s'' hi B'' {x} ∧
      Merged s s'' B B'' m x j o ∧ k < o ∧ size ≤ subSize (blockSize o) metaSize := by
  induction left generalizing s' cur k B' with
  | zero => exact nomatch sim
  | succ left ih =>
    obtain ⟨-, test, step⟩ := h.simulated merged (by omega)
    rw [simulateMerge_succ] at sim
    by_cases can : cannotMerge s (getBuddy s cur k) k = true
    · rw [if_pos can] at sim
      exact nomatch sim
    rw [if_neg can] at sim
    have can' := test.trans (Bool.eq_false_iff.mpr can)
    obtain ⟨B₁, inv, round⟩ := h.absorb merged.size (by omega) can'
    by_cases enough : size ≤ subSize (blockSize (k + 1)) metaSize
    · rw [if_pos enough] at sim
      obtain rfl := Option.some_inj.mp sim
      refine ⟨(Buddy.absorb k cur s').1, (Buddy.absorb k cur s').2, B₁, ?_, inv, merged.trans round, by omega, enough⟩
      rw [Nat.add_sub_cancel_left, mergeInto_succ]
      rfl
    · rw [if_neg enough, ← step] at sim
      obtain ⟨x, s'', B'', run, inv', merged', lt, fits⟩ := ih inv (merged.trans round) (by omega) sim
      refine ⟨x, s'', B'', ?_, inv', merged', by omega, fits⟩
      rw [show o - k = o - (k + 1) + 1 by omega, mergeInto_succ]
      exact run

end OsProjects.Malloc.Buddy
