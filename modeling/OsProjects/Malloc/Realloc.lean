import OsProjects.Malloc.Public

/-!
# `srealloc`

The two files write `srealloc` differently, and agree on four paths: the block is
large enough, it grows by merging with its buddies, an mmap block moves, a heap
block moves. On each the new block starts with the bytes of the old one
(`Moves`), and the other held blocks keep theirs.
-/

namespace OsProjects.Malloc.Buddy

open Links Tiling

variable {listed : Prop} {ed : Edition} {os : Os} {s s₁ s₃ : State} {m x size : Nat}
  {B B₁ H H₃ : Set Nat} {M M₁ : List Nat}

/-- The block `m` was replaced by `x`, which starts with the bytes of `m`. -/
structure Moves (s s' : State) (H H' : Set Nat) (m x : Nat) : Prop where
  fresh : x = m ∨ x ∉ H
  held : H' = insert x (H \ {m})
  keeps : ∀ z ∈ H, z ≠ m → Keeps s s' z
  bytes : ∀ i < s.usable m, s'.mem (ptrFromMeta x + i) = s.mem (ptrFromMeta m + i)

theorem Moves.refl (hm : m ∈ H) : Moves s s H H m m :=
  ⟨.inl rfl, (Set.insert_sdiff_self_of_mem hm).symm, fun z _ _ => Keeps.refl s z, fun _ _ => rfl⟩

/-- The first `n` bytes of the block `m` are copied to `p`. -/
def copyTo (p m n : Nat) (s : State) : State := { s with mem := s.mem.memmove p (ptrFromMeta m) n }

/-- **Moving to a new block**: allocate, copy, free. -/
theorem Inv.moves {bytes : Nat} (h : Inv listed s B M) (hm : m ∈ Held s B M) (inv : Inv listed s₁ B₁ M₁)
    (grants : Grants s s₁ (Held s B M) (Held s₁ B₁ M₁) x bytes) (room : s.usable m ≤ s₁.usable x)
    (frees : Frees (copyTo (ptrFromMeta x) m (s.usable m) s₁) s₃
      (Held (copyTo (ptrFromMeta x) m (s.usable m) s₁) B₁ M₁) H₃ m) :
    Moves s s₃ (Held s B M) H₃ m x := by
  have hx₁ : x ∈ Held s₁ B₁ M₁ := by
    rw [grants.held]
    exact Set.mem_insert x _
  have hx := Inv.blocks_of_held hx₁
  have whole := inv.usable_eq hx
  have wholeM := h.usable_eq (Inv.blocks_of_held hm)
  have ne : x ≠ m := fun e => grants.fresh (e ▸ hm)
  obtain ⟨-, held, hdr, keeps⟩ := inv.write (n := s.usable m) hx (by omega)
    (Inv.touches_memmove s₁.mem x (ptrFromMeta m) (s.usable m))
  change Held (copyTo (ptrFromMeta x) m (s.usable m) s₁) B₁ M₁ = _ at held
  rw [held] at frees
  have old : ∀ z ∈ Held s B M, z ∈ Held s₁ B₁ M₁ ∧ z ≠ x := fun z hz =>
    ⟨grants.held ▸ Set.mem_insert_of_mem x hz, fun e => grants.fresh (e ▸ hz)⟩
  refine ⟨.inr grants.fresh, ?_, fun z hz neM => ?_, fun i lt => ?_⟩
  · have out : x ∉ ({m} : Set Nat) := ne
    rw [frees.held, grants.held, Set.insert_sdiff_of_notMem _ out]
  · obtain ⟨hz₁, neX⟩ := old z hz
    exact ((grants.keeps z hz).trans (keeps z (Inv.blocks_of_held hz₁) neX)).trans (frees.keeps z hz₁ neM)
  · have final := frees.keeps x hx₁ ne
    have extent : (copyTo (ptrFromMeta x) m (s.usable m) s₁).extent x = s₁.extent x := State.extent_congr (hdr x hx)
    rw [final.bytes _ (by unfold ptrFromMeta; omega) (by rw [extent]; unfold ptrFromMeta; omega)]
    change s₁.mem.memmove (ptrFromMeta x) (ptrFromMeta m) (s.usable m) (ptrFromMeta x + i) = _
    rw [Mem.memmove_apply_of_lt lt]
    exact (grants.keeps m hm).bytes _ (by unfold ptrFromMeta; omega) (by unfold ptrFromMeta; omega)

/-- The `smalloc` of the last resort of `srealloc`: the new block has room for the old one. -/
theorem Inv.relocate (h : Inv listed s B M) (sound : Sound os s) (ed : Edition) (ok : ¬Refused size)
    (hm : m ∈ Held s B M) (small : s.usable m < size) :
    ∃ x s₁ B₁ M₁, Buddy.smalloc ed os size s = some (userPtr x, s₁) ∧
      Inv (listed ∧ (size < mmapThreshold → NoSplit s size)) s₁ B₁ M₁ ∧ s₁.heapBase = s.heapBase ∧
      (Narrow size → (x = 0 ↔ s.freeLists maxOrder = 0)) ∧
      (x = 0 ∧ Held s₁ B₁ M₁ = Held s B M ∧ (∀ z ∈ Held s B M, Keeps s s₁ z) ∨
        x ≠ 0 ∧ x ∈ Held s₁ B₁ M₁ ∧ m ∈ Held s₁ B₁ M₁ ∧ x ≠ m ∧ s.usable m ≤ s₁.usable x ∧
          (¬Narrow size → size ≤ s₁.usable x) ∧ (Narrow size → s₁.usable x = 131040) ∧
          ∃ bytes, Grants s s₁ (Held s B M) (Held s₁ B₁ M₁) x bytes) := by
  have init := h.initialized_of_mem (Inv.blocks_of_held hm)
  obtain ⟨x, s₀, B₀, s₁, B₁, M₁, run, -, boot, inv, req⟩ := h.smalloc sound ed ok
  have same : s₀ = s := by
    rcases boot with ⟨-, e, -⟩ | ⟨fresh⟩ | ⟨fresh⟩
    · exact e
    · rw [init] at fresh
      exact Bool.noConfusion fresh
    · rw [init] at fresh
      exact Bool.noConfusion fresh
  subst same
  have narrow : Narrow size → (x = 0 ↔ s₀.freeLists maxOrder = 0) := by
    intro band
    have lt : size < mmapThreshold := band.2
    rw [req.heap lt, sizeToOrder_of_narrow band]
    exact ⟨fun all => all maxOrder (le_refl _) (le_refl _), fun zero j le le' => le_antisymm le' le ▸ zero⟩
  refine ⟨x, s₁, B₁, M₁, run, inv, req.base, narrow, ?_⟩
  rcases req.result with ⟨rfl, held, keeps⟩ | ⟨pos, grants⟩
  · exact .inl ⟨rfl, held, keeps⟩
  · have hx : x ∈ Held s₁ B₁ M₁ := by
      rw [grants.held]
      exact Set.mem_insert x _
    have hm₁ : m ∈ Held s₁ B₁ M₁ := by
      rw [grants.held]
      exact Set.mem_insert_of_mem x hm
    have ne : x ≠ m := fun e => grants.fresh (e ▸ hm)
    obtain ⟨wide, band⟩ :=
      inv.usable_of_reserved (Inv.blocks_of_held hx) sound (not_refused.mp ok).2 grants.extent
    refine .inr ⟨pos, hx, hm₁, ne, ?_, wide, band, _, grants⟩
    by_cases b : Narrow size
    · rw [band b]
      obtain ⟨low, high⟩ := b
      rcases Inv.blocks_of_held hm with hm' | hm'
      · exact h.usable_le hm'
      · have whole := h.usable_eq (.inr hm')
        have := h.maps.large m hm'
        have : mmapThreshold = 131072 := rfl
        rw [h.extent_map hm'] at whole
        omega
    · have := wide b
      omega

theorem userPtr_eq_zero : userPtr x = 0 ↔ x = 0 := by
  unfold userPtr
  split_ifs with e
  · simp [e]
  · simp [e, ptrFromMeta_ne_zero]

/-- The last resort of `srealloc`: a new block, a copy, and `sfree` of the old one. -/
theorem Inv.reallocCopy (h : Inv listed s B M) (sound : Sound os s) (ed : Edition) (ok : ¬Refused size)
    (hm : m ∈ Held s B M) (small : s.usable m < size) :
    ∃ p s₁, Buddy.smalloc ed os size s = some (p, s₁) ∧ (Narrow size → (p = 0 ↔ s.freeLists maxOrder = 0)) ∧
      (p = 0 ∧ (∃ B' M', Inv (listed ∧ (size < mmapThreshold → NoSplit s size)) s₁ B' M' ∧
          s₁.heapBase = s.heapBase ∧ Held s₁ B' M' = Held s B M ∧ ∀ z ∈ Held s B M, Keeps s s₁ z) ∨
        p ≠ 0 ∧ (copyTo p m (s.usable m) s₁).isFree m = false ∧ (copyTo p m (s.usable m) s₁).isMmap m = s.isMmap m ∧
          s₁.size m = s.size m ∧
          ∃ x s₃ B' M', p = ptrFromMeta x ∧
            Buddy.sfree (ptrFromMeta m) (copyTo p m (s.usable m) s₁) = some s₃ ∧
            Inv (listed ∧ (size < mmapThreshold → NoSplit s size)) s₃ B' M' ∧ s₃.heapBase = s.heapBase ∧
            Moves s s₃ (Held s B M) (Held s₃ B' M') m x ∧ (¬Narrow size → size ≤ s₃.usable x) ∧
            (Narrow size → s₃.usable x = 131040)) := by
  obtain ⟨x, s₁, B₁, M₁, run, inv, base, narrow, outcome⟩ := h.relocate sound ed ok hm small
  refine ⟨userPtr x, s₁, run, fun b => userPtr_eq_zero.trans (narrow b), ?_⟩
  rcases outcome with ⟨rfl, held, keeps⟩ | ⟨pos, hx, hm₁, ne, room, wide, band, bytes, grants⟩
  · exact .inl ⟨rfl, B₁, M₁, inv, base, held, keeps⟩
  · right
    rw [userPtr_ne_zero pos]
    have whole := inv.usable_eq (Inv.blocks_of_held hx)
    obtain ⟨inv₂, held₂, hdr, keeps₂⟩ := inv.write (n := s.usable m) (Inv.blocks_of_held hx) (by omega)
      (Inv.touches_memmove s₁.mem x (ptrFromMeta m) (s.usable m))
    obtain ⟨s₃, B₃, M₃, run₃, inv₃, base₃, frees⟩ := inv₂.sfree (held₂.symm ▸ hm₁)
    have keepM := grants.keeps m hm
    have moves := (h.weaken And.left).moves hm inv grants room frees
    have final := frees.keeps x (held₂.symm ▸ hx) ne
    have usable : s₃.usable x = s₁.usable x := by
      unfold State.usable
      rw [final.size, final.isMmap, State.size, State.isMmap, hdr x (Inv.blocks_of_held hx)]
    have hdrM := hdr m (Inv.blocks_of_held hm₁)
    refine ⟨ptrFromMeta_ne_zero x, ?_, ?_, keepM.size, x, s₃, B₃, M₃, rfl, run₃, inv₃, base₃.trans base, moves, ?_, ?_⟩
    · exact (congrArg MallocMetadata.isFree hdrM).trans (inv.held_flag hm₁)
    · exact (congrArg MallocMetadata.isMmap hdrM).trans keepM.isMmap
    · rw [usable]
      exact wide
    · rw [usable]
      exact band

/-- The end of the merging of `srealloc`: mark the block allocated and move the data
down when its start has moved. -/
def settle (x m n : Nat) (s : State) : State :=
  let mem := s.mem.setIsFree x false
  { s with mem := if x ≠ m then mem.memmove (ptrFromMeta x) (ptrFromMeta m) n else mem }

theorem settle_same (n : Nat) (s : State) : settle m m n s = { s with mem := s.mem.setIsFree m false } := by
  simp only [settle, ne_eq, not_true_eq_false, if_false]

theorem settle_moved (ne : x ≠ m) (n : Nat) (s : State) :
    settle x m n s = copyTo (ptrFromMeta x) m n { s with mem := s.mem.setIsFree x false } := by
  simp only [settle, ne_eq, ne, not_false_eq_true, if_true, copyTo]

/-- The merging of `srealloc` up to the flag of the merged block. -/
theorem HeapInv.growMerged {hi j o : Nat} {s₀ : State} (heap₀ : HeapInv listed s₀ hi B {m})
    (merged₀ : Merged s s₀ B B m m j j) (order : j ≤ maxOrder)
    (sim : simulateMerge size s (maxOrder - j) m j = some o) :
    ∃ x s₁ B', Buddy.mergeInto (o - j) m j s₀ = (x, s₁) ∧
      HeapInv listed { s₁ with mem := s₁.mem.setIsFree x false } hi B' ∅ ∧
      Merged s { s₁ with mem := s₁.mem.setIsFree x false } B B' m x j o ∧
      ({ s₁ with mem := s₁.mem.setIsFree x false } : State).isFree x = false ∧ j < o ∧
      size ≤ subSize (blockSize o) metaSize := by
  obtain ⟨x, s₁, B', run, heap, merged, lt, fits⟩ := heap₀.mergeInto merged₀ (by omega) sim
  obtain ⟨same, hdr⟩ := heap.sameBlocks_setIsFree merged.mem false o
  have flag : ({ s₁ with mem := s₁.mem.setIsFree x false } : State).isFree x = false := by
    rw [State.isFree, hdr x merged.mem, if_pos rfl]
  have heap' := (heap.setIsFree merged.mem rfl false).release flag
  rw [Set.sdiff_self] at heap'
  refine ⟨x, s₁, B', run, heap', merged.relink same fun z hz ne => ?_, flag, lt, fits⟩
  rw [State.isFree, hdr z hz, if_neg ne]

/-- The bytes of the block survive the merging. -/
theorem Inv.bytes_of_merged {j o i : Nat} {B' : Set Nat} (h : Inv listed s B M) (hm : m ∈ B)
    (sizeM : s.size m = blockSize j) (merged : Merged s s₁ B B' m x j o) (lt : i < s.usable m) :
    s₁.mem (ptrFromMeta m + i) = s.mem (ptrFromMeta m + i) := by
  have whole := h.usable_eq (.inl hm)
  rw [h.extent_heap hm, sizeM] at whole
  refine merged.touches _ fun r hr => ?_
  rw [hr.2]
  unfold ptrFromMeta
  obtain e | e := eq_or_ne r.1 m
  · omega
  · have := h.heap.tiles.apart r.1 hr.1 m hm e
    have := h.heap.le_size hr.1
    have word : metaSize = 32 := rfl
    omega

/-- The size that `simulateMerge` computes is the room in the merged block. -/
theorem Inv.usable_of_merged {o : Nat} (inv : Inv listed s₁ B₁ M) (hx : x ∈ B₁) (sizeX : s₁.size x = blockSize o) :
    s₁.usable x = subSize (blockSize o) metaSize := by
  have whole := inv.usable_eq (.inl hx)
  rw [inv.extent_heap hx, sizeX] at whole
  have bound := blockSize_le (inv.heap.order_le hx sizeX)
  have large := le_blockSize o
  have word : metaSize = 32 := rfl
  rw [blockSize_maxOrder] at bound
  rw [subSize_of_le (by omega) (by omega)]
  omega

/-- **Growing in place**: the merging of `srealloc`. `s₀` is the state in which it
starts, with `m` in hand. -/
theorem Inv.reallocMerge {j o : Nat} {s₀ : State} (h : Inv listed s B M) (hm : m ∈ B) (sizeM : s.size m = blockSize j)
    (merged₀ : Merged s s₀ B B m m j j) (heap₀ : HeapInv listed s₀ s.heapEnd B {m})
    (sim : simulateMerge size s (maxOrder - j) m j = some o) :
    ∃ x s₁ B', mergeInto (o - j) m j s₀ = (x, s₁) ∧ Inv listed (settle x m (s.usable m) s₁) B' M ∧
      (settle x m (s.usable m) s₁).heapBase = s.heapBase ∧
      Moves s (settle x m (s.usable m) s₁) (Held s B M) (Held (settle x m (s.usable m) s₁) B' M) m x ∧
      size ≤ (settle x m (s.usable m) s₁).usable x := by
  obtain ⟨x, s₁, B', run, heap, merged', flag, lt, fits⟩ := heap₀.growMerged merged₀ (h.heap.order_le hm sizeM) sim
  set s₂ : State := { s₁ with mem := s₁.mem.setIsFree x false } with hs₂
  obtain ⟨inv, stays, comes, fresh⟩ := h.of_merged hm merged' heap
  have hx : x ∈ Held s₂ B' M := .inl ⟨merged'.mem, flag⟩
  have held : Held s₂ B' M = insert x (Held s B M \ {m}) := by
    ext z
    constructor
    · intro hz
      obtain e | e := eq_or_ne z x
      · exact .inl e
      · exact .inr (comes z hz e)
    · rintro (rfl | ⟨hz, ne⟩)
      · exact hx
      · exact (stays z hz ne).1
  have whole := inv.usable_eq (.inl merged'.mem)
  have wholeM := h.usable_eq (.inl hm)
  rw [inv.extent_heap merged'.mem, merged'.size] at whole
  rw [h.extent_heap hm, sizeM] at wholeM
  have grow := blockSize_le lt.le
  have bytes : ∀ i < s.usable m, s₂.mem (ptrFromMeta m + i) = s.mem (ptrFromMeta m + i) := fun i lti =>
    h.bytes_of_merged hm sizeM merged' lti
  have enough : size ≤ s₂.usable x := by
    rw [inv.usable_of_merged merged'.mem merged'.size]
    exact fits
  have base : s₂.heapBase = s.heapBase := merged'.globals.heapBase
  refine ⟨x, s₁, B', run, ?_⟩
  obtain e | e := eq_or_ne x m
  · have settled : settle x m (s.usable m) s₁ = s₂ := by
      subst e
      exact settle_same _ s₁
    rw [settled]
    exact ⟨inv, base, ⟨fresh, held, fun z hz ne => (stays z hz ne).2.2, e ▸ bytes⟩, enough⟩
  · have settled : settle x m (s.usable m) s₁ = copyTo (ptrFromMeta x) m (s.usable m) s₂ := settle_moved e _ s₁
    have blocks := Inv.blocks_of_held hx
    obtain ⟨inv', held', hdr', keeps⟩ := inv.write (n := s.usable m) blocks
      (by rw [inv.extent_heap merged'.mem, merged'.size]; omega)
      (Inv.touches_memmove s₂.mem x (ptrFromMeta m) (s.usable m))
    rw [settled]
    refine ⟨inv', base, ⟨fresh, held'.trans held, fun z hz ne => ?_, fun i lti => ?_⟩, ?_⟩
    · obtain ⟨hz', neX, keep⟩ := stays z hz ne
      exact keep.trans (keeps z (Inv.blocks_of_held hz') neX)
    · exact (Mem.memmove_apply_of_lt lti).trans (bytes i lti)
    · unfold copyTo
      rw [State.usable_congr (s := s₂) (hdr' x blocks)]
      exact enough

/-- `srealloc` of either file. -/
def srealloc (ed : Edition) (os : Os) (oldp size : Nat) (s : State) : Option (Nat × State) :=
  match ed with
  | .malloc3 => Malloc3.srealloc os oldp size s
  | .malloc4 => Malloc4.srealloc os oldp size s

/-- `srealloc` of the block `m` cannot be served in place and calls `smalloc`. -/
def Relocates (s : State) (m size : Nat) : Prop :=
  s.usable m < size ∧
    (s.isMmap m = true ∨ simulateMerge size s (maxOrder - getOrder s m) m (getOrder s m) = none)

/-- What `srealloc` of the block `m` did. -/
structure Reallocated (s s' : State) (size : Nat) (B H H' : Set Nat) (m p : Nat) : Prop where
  result : (p = 0 ∧ H' = H ∧ ∀ z ∈ H, Keeps s s' z) ∨
    ∃ x, p = ptrFromMeta x ∧ Moves s s' H H' m x ∧ (¬(Narrow size ∧ m ∈ B) → size ≤ s'.usable x) ∧
      (Narrow size → m ∈ B → s'.usable x = 131040)
  narrow : Narrow size → m ∈ B → (p = 0 ↔ s.freeLists maxOrder = 0)

/-- The request fits where it is. -/
theorem Inv.realloc_same (h : Inv listed s B M) (hm : m ∈ Held s B M) (fits : size ≤ s.usable m) :
    Reallocated s s size B (Held s B M) (Held s B M) m (ptrFromMeta m) := by
  have band : Narrow size → m ∉ B := fun narrow hm' => by
    have := h.usable_le hm'
    have := narrow.1
    omega
  exact ⟨.inr ⟨m, rfl, Moves.refl hm, fun _ => fits, fun narrow hm' => absurd hm' (band narrow)⟩,
    fun narrow hm' => absurd hm' (band narrow)⟩

/-! The paths through `srealloc`, in a form common to both files. -/

theorem srealloc_of_refused (bad : Refused size) {p : Nat} : srealloc ed os p size s = some (0, s) := by
  have bad' : size = 0 ∨ exceedsMax size = true := bad
  cases ed <;> simp only [srealloc, Malloc3.srealloc, Malloc4.srealloc, if_pos bad']

theorem srealloc_null (ok : ¬Refused size) {p : Nat} (null : p = 0) :
    srealloc ed os p size s = smalloc ed os size s := by
  have ok' : ¬(size = 0 ∨ exceedsMax size = true) := ok
  cases ed <;> simp only [srealloc, Malloc3.srealloc, Malloc4.srealloc, if_neg ok', if_pos null]

section Paths

variable (ok : ¬Refused size)
include ok

theorem srealloc_mmap (mmap : s.isMmap m = true) : srealloc ed os (ptrFromMeta m) size s =
    if size ≤ s.size m then some (ptrFromMeta m, s)
    else (smalloc ed os size s).map fun r =>
      if r.1 = 0 then (0, r.2)
      else (r.1, mmapFree m (copyTo r.1 m (r.2.size m) r.2)) := by
  have ok' : ¬(size = 0 ∨ exceedsMax size = true) := ok
  have mmap' : (s.mem.header m).isMmap = true := mmap
  cases ed <;>
  · simp only [srealloc, Malloc3.srealloc, Malloc4.srealloc, if_neg ok', if_neg (ptrFromMeta_ne_zero m),
      metaFromPtr_ptrFromMeta, mmap', if_true]
    by_cases fits : size ≤ (s.mem.header m).size
    · rw [if_pos fits, if_pos fits]
    · rw [if_neg fits, if_neg fits]
      cases smalloc _ os size s with
      | none => rfl
      | some r =>
        simp only [Option.bind_eq_bind, Option.bind_some, Option.map_some]
        split_ifs <;> rfl

theorem srealloc_fits (heap : s.isMmap m = false) (fits : size ≤ s.usable m) :
    srealloc ed os (ptrFromMeta m) size s = some (ptrFromMeta m, s) := by
  have ok' : ¬(size = 0 ∨ exceedsMax size = true) := ok
  have heap' : (s.mem.header m).isMmap = false := heap
  have fits' : size ≤ subSize (s.mem.header m).size metaSize := by
    rw [State.usable, heap] at fits
    exact fits
  cases ed <;> simp only [srealloc, Malloc3.srealloc, Malloc4.srealloc, if_neg ok', if_neg (ptrFromMeta_ne_zero m),
    metaFromPtr_ptrFromMeta, heap', Bool.false_eq_true, if_false, fits', if_true, true_and, ite_self]

/-- malloc_3 marks the block free before it merges. -/
def mark (ed : Edition) (m : Nat) (s : State) : State :=
  match ed with
  | .malloc3 => { s with mem := s.mem.setIsFree m true }
  | .malloc4 => s

theorem srealloc_merge {o : Nat} (heap : s.isMmap m = false) (small : s.usable m < size)
    (sim : simulateMerge size s (maxOrder - getOrder s m) m (getOrder s m) = some o) :
    srealloc ed os (ptrFromMeta m) size s =
      some (ptrFromMeta (mergeInto (o - getOrder s m) m (getOrder s m) (mark ed m s)).1,
        settle (mergeInto (o - getOrder s m) m (getOrder s m) (mark ed m s)).1 m (s.usable m)
          (mergeInto (o - getOrder s m) m (getOrder s m) (mark ed m s)).2) := by
  have ok' : ¬(size = 0 ∨ exceedsMax size = true) := ok
  have heap' : (s.mem.header m).isMmap = false := heap
  have usable : s.usable m = subSize (s.mem.header m).size metaSize := by
    rw [State.usable, heap]
    rfl
  have small' : ¬size ≤ subSize (s.mem.header m).size metaSize := by
    rw [← usable]
    exact not_le.mpr small
  cases ed with
  | malloc3 =>
    simp only [srealloc, Malloc3.srealloc, if_neg ok', if_neg (ptrFromMeta_ne_zero m), metaFromPtr_ptrFromMeta, heap',
      Bool.false_eq_true, if_false, small', false_and, sim, settle, mark, usable, if_pos (not_le.mp small')]
  | malloc4 =>
    simp only [srealloc, Malloc4.srealloc, if_neg ok', if_neg (ptrFromMeta_ne_zero m), metaFromPtr_ptrFromMeta, heap',
      Bool.false_eq_true, if_false, small', sim, settle, mark, usable]

/-- malloc_3 marks the block allocated again before it frees it. -/
def unmark (ed : Edition) (m : Nat) (s : State) : State :=
  match ed with
  | .malloc3 => { s with mem := s.mem.setIsFree m false }
  | .malloc4 => s

theorem srealloc_copy (heap : s.isMmap m = false) (small : s.usable m < size)
    (sim : simulateMerge size s (maxOrder - getOrder s m) m (getOrder s m) = none) :
    srealloc ed os (ptrFromMeta m) size s = (smalloc ed os size s).bind fun r =>
      if r.1 = 0 then some (0, r.2)
      else (sfree (ptrFromMeta m) (unmark ed m (copyTo r.1 m (s.usable m) r.2))).map (Prod.mk r.1) := by
  have ok' : ¬(size = 0 ∨ exceedsMax size = true) := ok
  have heap' : (s.mem.header m).isMmap = false := heap
  have usable : s.usable m = subSize (s.mem.header m).size metaSize := by
    rw [State.usable, heap]
    rfl
  have small' : ¬size ≤ subSize (s.mem.header m).size metaSize := by
    rw [← usable]
    exact not_le.mpr small
  cases ed with
  | malloc3 =>
    simp only [srealloc, Malloc3.srealloc, if_neg ok', if_neg (ptrFromMeta_ne_zero m), metaFromPtr_ptrFromMeta, heap',
      Bool.false_eq_true, if_false, small', false_and, sim, unmark, copyTo, usable]
    refine Option.bind_congr fun r _ => ?_
    rw [Option.map_eq_bind]
    rfl
  | malloc4 =>
    simp only [srealloc, Malloc4.srealloc, if_neg ok', if_neg (ptrFromMeta_ne_zero m), metaFromPtr_ptrFromMeta, heap',
      Bool.false_eq_true, if_false, small', sim, unmark, copyTo, usable]
    refine Option.bind_congr fun r _ => ?_
    rw [Option.map_eq_bind]
    rfl

end Paths

/-- The merging of `srealloc` starts with the block in hand. -/
theorem Inv.mark (h : Inv listed s B M) (hm : m ∈ B) (alloc : s.isFree m = false) {j : Nat}
    (sizeM : s.size m = blockSize j) (ed : Edition) :
    Merged s (mark ed m s) B B m m j j ∧ HeapInv listed (mark ed m s) s.heapEnd B {m} := by
  have hold : HeapInv listed s s.heapEnd B {m} := insert_empty_eq (β := Set Nat) m ▸ h.heap.hold hm alloc
  have merged := Merged.refl hm sizeM
  cases ed with
  | malloc3 =>
    obtain ⟨same, hdr⟩ := hold.sameBlocks_setIsFree hm true j
    refine ⟨merged.relink same fun z hz ne => ?_, hold.setIsFree hm rfl true⟩
    change ((s.mem.setIsFree m true).header z).isFree = _
    rw [hdr z hz, if_neg ne]
  | malloc4 => exact ⟨merged, hold⟩

theorem unmark_eq (ed : Edition) (alloc : s.isFree m = false) : unmark ed m s = s := by
  cases ed with
  | malloc3 => rw [unmark, Mem.setIsFree_false_eq_self alloc]
  | malloc4 => rfl

/-- `srealloc` of the block `m` returns and keeps the invariant. -/
def Resizes (listed : Prop) (ed : Edition) (os : Os) (s : State) (B : Set Nat) (M : List Nat) (m size : Nat) : Prop :=
  ∃ p s' B' M', srealloc ed os (ptrFromMeta m) size s = some (p, s') ∧
    Inv (listed ∧ (Relocates s m size → size < mmapThreshold → NoSplit s size)) s' B' M' ∧
    s'.heapBase = s.heapBase ∧ Reallocated s s' size B (Held s B M) (Held s' B' M') m p

/-! The four paths; on each the reason for taking it is what `Relocates` asks for. -/

theorem Inv.resizes_fits (h : Inv listed s B M) (ed : Edition) (os : Os) (ok : ¬Refused size) (hm : m ∈ Held s B M)
    (fits : size ≤ s.usable m) : Resizes listed ed os s B M m size := by
  have inv : Inv (listed ∧ (Relocates s m size → size < mmapThreshold → NoSplit s size)) s B M := by
    apply h.weaken
    exact And.left
  refine ⟨ptrFromMeta m, s, B, M, ?_, inv, rfl, h.realloc_same hm fits⟩
  rcases hm with ⟨hm, -⟩ | hm
  · exact srealloc_fits ok (h.heap.notMmap m hm) fits
  · have mmap := h.maps.isMmap m hm
    rw [srealloc_mmap ok mmap, if_pos]
    rwa [State.usable, mmap] at fits

/-- A block that has grown in the heap has no room for the last 32 bytes of the largest order. -/
theorem Inv.not_narrow_of_moves {B' : Set Nat} (h : Inv listed s B M) (hm : m ∈ B) (inv : Inv listed s₁ B' M)
    (moves : Moves s s₁ (Held s B M) (Held s₁ B' M) m x) (enough : size ≤ s₁.usable x) : ¬Narrow size := by
  intro band
  have hx : x ∈ Held s₁ B' M := by
    rw [moves.held]
    exact Set.mem_insert x _
  rcases Inv.blocks_of_held hx with hx' | hx'
  · have := inv.usable_le hx'
    have := band.1
    omega
  · have notMap : x ∉ M := by
      rcases moves.fresh with rfl | out
      · exact h.notMem_map hm
      · exact fun e => out (.inr e)
    exact notMap hx'

theorem Inv.resizes_merge {o : Nat} (h : Inv listed s B M) (ed : Edition) (os : Os) (ok : ¬Refused size) (hm : m ∈ B)
    (alloc : s.isFree m = false) (small : s.usable m < size)
    (sim : simulateMerge size s (maxOrder - getOrder s m) m (getOrder s m) = some o) :
    Resizes listed ed os s B M m size := by
  obtain ⟨j, order, sizeM, -⟩ := h.heap.size_cases hm
  have getOrd := getOrder_eq sizeM order
  obtain ⟨merged, held⟩ := h.mark hm alloc sizeM ed
  have sim' := sim
  rw [getOrd] at sim'
  obtain ⟨x, s₁, B', run, inv, base, moves, enough⟩ := h.reallocMerge hm sizeM merged held sim'
  have wide := h.not_narrow_of_moves hm inv moves enough
  unfold Resizes
  rw [srealloc_merge ok (h.heap.notMmap m hm) small sim, getOrd, run]
  refine ⟨_, _, B', M, rfl, ?_, base, .inr ⟨x, rfl, moves, fun _ => enough, fun band => absurd band wide⟩,
    fun band => absurd band wide⟩
  apply inv.weaken
  exact And.left

theorem Inv.resizes_copy (h : Inv listed s B M) (sound : Sound os s) (ed : Edition) (ok : ¬Refused size) (hm : m ∈ B)
    (alloc : s.isFree m = false) (small : s.usable m < size)
    (sim : simulateMerge size s (maxOrder - getOrder s m) m (getOrder s m) = none) :
    Resizes listed ed os s B M m size := by
  have reloc : Relocates s m size := ⟨small, .inr sim⟩
  obtain ⟨p, s₁, run, narrow, outcome⟩ := h.reallocCopy sound ed ok (.inl ⟨hm, alloc⟩) small
  unfold Resizes
  rw [srealloc_copy ok (h.heap.notMmap m hm) small sim, run, Option.bind_some]
  rcases outcome with ⟨rfl, B', M', inv, base, held, keeps⟩ |
    ⟨pos, flag, -, -, x, s₃, B', M', rfl, free, inv, base, moves, wide, band⟩
  · exact ⟨0, s₁, B', M', rfl, inv.weaken fun l => ⟨l.1, l.2 reloc⟩, base, .inl ⟨rfl, held, keeps⟩,
      fun b _ => narrow b⟩
  · rw [if_neg pos, unmark_eq ed flag, free]
    refine ⟨ptrFromMeta x, s₃, B', M', rfl, inv.weaken fun l => ⟨l.1, l.2 reloc⟩, base,
      .inr ⟨x, rfl, moves, fun no => wide ?_, fun b _ => band b⟩, fun b _ => narrow b⟩
    exact fun b => no ⟨b, hm⟩

theorem Inv.resizes_mmap (h : Inv listed s B M) (sound : Sound os s) (ed : Edition) (ok : ¬Refused size) (hm : m ∈ M)
    (small : s.usable m < size) : Resizes listed ed os s B M m size := by
  have mmap := h.maps.isMmap m hm
  have reloc : Relocates s m size := ⟨small, .inl mmap⟩
  have usable : s.usable m = s.size m := by rw [State.usable, mmap, if_pos rfl]
  have wideBand : ¬Narrow size := by
    intro b
    have large := h.maps.large m hm
    have threshold : mmapThreshold = 131072 := rfl
    have := b.2
    omega
  obtain ⟨p, s₁, run, -, outcome⟩ := h.reallocCopy sound ed ok (.inr hm) small
  unfold Resizes
  rw [srealloc_mmap ok mmap, if_neg (usable ▸ not_le.mpr small), run, Option.map_some]
  rcases outcome with ⟨rfl, B', M', inv, base, held, keeps⟩ |
    ⟨pos, flag, mmap', size', x, s₃, B', M', rfl, free, inv, base, moves, wide, -⟩
  · exact ⟨0, s₁, B', M', rfl, inv.weaken fun l => ⟨l.1, l.2 reloc⟩, base, .inl ⟨rfl, held, keeps⟩,
      fun b => absurd b wideBand⟩
  · have unmapped : Buddy.mmapFree m (copyTo (ptrFromMeta x) m (s₁.size m) s₁) = s₃ := by
      rw [sfree_mmap flag (mmap'.trans mmap)] at free
      rw [size', ← usable]
      exact Option.some_inj.mp free
    rw [if_neg pos, unmapped]
    exact ⟨ptrFromMeta x, s₃, B', M', rfl, inv.weaken fun l => ⟨l.1, l.2 reloc⟩, base,
      .inr ⟨x, rfl, moves, fun _ => wide wideBand, fun b => absurd b wideBand⟩, fun b => absurd b wideBand⟩

/-- **`srealloc` of a live pointer.** -/
theorem Inv.srealloc (h : Inv listed s B M) (sound : Sound os s) (ed : Edition) (ok : ¬Refused size)
    (hm : m ∈ Held s B M) :
    ∃ p s' B' M', srealloc ed os (ptrFromMeta m) size s = some (p, s') ∧
      Inv (listed ∧ (Relocates s m size → size < mmapThreshold → NoSplit s size)) s' B' M' ∧
      s'.heapBase = s.heapBase ∧ Reallocated s s' size B (Held s B M) (Held s' B' M') m p := by
  obtain fits | small := le_or_gt size (s.usable m)
  · exact h.resizes_fits ed os ok hm fits
  · rcases hm with ⟨hmB, alloc⟩ | hmM
    · cases sim : simulateMerge size s (maxOrder - getOrder s m) m (getOrder s m) with
      | some o => exact h.resizes_merge ed os ok hmB alloc small sim
      | none => exact h.resizes_copy sound ed ok hmB alloc small sim
    · exact h.resizes_mmap sound ed ok hmM small

end OsProjects.Malloc.Buddy
