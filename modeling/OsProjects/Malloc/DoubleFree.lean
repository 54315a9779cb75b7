import OsProjects.Malloc.Coalesce
import OsProjects.Malloc.Public

/-!
# Freeing a block twice

`sfree` returns at once when the metadata in front of the pointer says free. After the
first `sfree(p)` that metadata is a block header only if `p`'s block was the lower one
of every pair that was merged (`StaysLow`). Otherwise it is left over inside a larger
free block, still says allocated, and the second `sfree(p)` puts an address that is no
block on a free list.
-/

namespace OsProjects.Malloc.Buddy

open Links Tiling

variable {listed : Prop} {s s' t t' : State} {hi i j k m o p x y z : Nat} {A B B' D : Set Nat} {l : List Nat}

/-! ## The metadata that merging leaves behind -/

/-- Stores to the blocks of a coarser tiling leave the metadata inside them alone. -/
theorem HeapInv.header_off (h : HeapInv listed s hi B D) (sub : B' ⊆ B)
    (touches : Mem.Touches (metaRanges B') t.mem t'.mem) (hz : z ∈ B) (out : z ∉ B') :
    t'.mem.header z = t.mem.header z := by
  refine touches.header_eq fun r hr => ?_
  obtain ⟨hr, len⟩ := hr
  rw [len]
  exact (h.places.slots z hz r.1 (sub hr)).resolve_left fun e => out (e ▸ hr)

/-- A round of merging changes the size of one block and no flag. -/
theorem HeapInv.absorb_flags (h : HeapInv listed s hi B {m}) (size : s.size m = blockSize k) (order : k < maxOrder)
    (can : cannotMerge s (getBuddy s m k) k = false) (hz : z ∈ B) :
    (Buddy.absorb k m s).2.isFree z = s.isFree z ∧ (Buddy.absorb k m s).2.isMmap z = s.isMmap z ∧
      (z ≠ (Buddy.absorb k m s).1 → (Buddy.absorb k m s).2.size z = s.size z) := by
  have hm : m ∈ B := h.held rfl
  obtain ⟨hb, sides⟩ := h.buddy_cases hm size order
  obtain ⟨freeB, sizeB⟩ := cannotMerge_eq_false can
  have pos := blockSize_pos k
  unfold Buddy.absorb
  set b := getBuddy s m k
  have ne : b ≠ m := by omega
  obtain ⟨inv, same, free, -, -⟩ := h.unlink (m := b) ⟨hb, ne, freeB, sizeB⟩
  have lower : (if b < m then b else m) ∈ B := by
    split_ifs
    · exact hb
    · exact hm
  have hdr := inv.places.slots.header_setSize (m := (flRemove k b s).mem) hz lower (blockSize (k + 1))
  refine ⟨?_, ?_, fun off => ?_⟩
  · rw [← free z hz]
    simp only [State.isFree, hdr]
    split_ifs <;> rfl
  · rw [← same.isMmap z hz]
    simp only [State.isMmap, hdr]
    split_ifs <;> rfl
  · rw [← same.size z hz]
    simp only [State.size, hdr, if_neg off]

/-- **What the loop leaves at `m`.** The flags are those from before, and the size is
that of the last order `i` at which the merged block started at `m`. When it moved
down from there, the buddy it moved to has another size. The induction is on the
orders left. -/
theorem HeapInv.mergeUp_stale {left : Nat} (h : HeapInv listed s hi B {m}) (size : s.size m = blockSize k)
    (order : k + left = maxOrder) (run : Buddy.mergeUp left m k s = (x, j, s')) :
    s'.isFree m = s.isFree m ∧ s'.isMmap m = s.isMmap m ∧ ∃ i, k ≤ i ∧ s'.size m = blockSize i ∧
      (x ≠ m → i < maxOrder ∧ getBuddy s m i ∈ B ∧ s'.size (getBuddy s m i) ≠ blockSize i) := by
  have hm : m ∈ B := h.held rfl
  have stays : ∀ {t : State}, (m, k, s) = (x, j, t) → t = s ∧ x = m := fun e => by
    obtain ⟨rfl, -, rfl⟩ : m = x ∧ k = j ∧ s = _ := by simpa using e
    exact ⟨rfl, rfl⟩
  induction left generalizing s m k B with
  | zero =>
    obtain ⟨rfl, e⟩ := stays run
    exact ⟨rfl, rfl, k, le_refl k, size, fun ne => absurd e ne⟩
  | succ left ih =>
    rw [mergeUp_succ] at run
    by_cases can : cannotMerge s (getBuddy s m k) k = true
    · rw [if_pos can] at run
      obtain ⟨rfl, e⟩ := stays run
      exact ⟨rfl, rfl, k, le_refl k, size, fun ne => absurd e ne⟩
    rw [if_neg can] at run
    have can' := Bool.eq_false_iff.mpr can
    have lt : k < maxOrder := by omega
    obtain ⟨B₁, inv, merged⟩ := h.absorb size lt can'
    obtain ⟨free, mmap, sizes⟩ := h.absorb_flags size lt can' hm
    obtain ⟨hb, sides⟩ := h.buddy_cases hm size lt
    have pos := blockSize_pos k
    obtain ⟨free', mmap', i, le, size', moved⟩ := ih inv merged.size (by omega) run (inv.held rfl) fun e => by
      obtain ⟨rfl, -, rfl⟩ : _ = x ∧ k + 1 = j ∧ _ = _ := by simpa using e
      exact ⟨rfl, rfl⟩
    by_cases down : getBuddy s m k < m
    · -- the merged block moves down to the buddy, and the metadata at `m` is left behind
      have start : (Buddy.absorb k m s).1 = getBuddy s m k := if_pos down
      rw [start] at size' merged
      have out : m ∉ B₁ := fun hm' => by
        have := merged.self hm'
        omega
      obtain ⟨x', j', t', B', run', -, merged', -, -⟩ := inv.mergeUp left (start ▸ merged.size) (by omega)
      rw [run'] at run
      obtain ⟨rfl, rfl, rfl⟩ : x' = x ∧ j' = j ∧ t' = s' := by simpa using run
      have hdr := h.header_off merged.sub merged'.touches hm out
      have sizeM := sizes (by omega)
      refine ⟨?_, ?_, k, le_refl k, ?_, fun _ => ⟨lt, hb, fun e => ?_⟩⟩
      · rw [State.isFree, hdr]
        exact free
      · rw [State.isMmap, hdr]
        exact mmap
      · rw [State.size, hdr]
        exact sizeM.trans size
      · have := blockSize_inj (size'.symm.trans e)
        omega
    · have start : (Buddy.absorb k m s).1 = m := if_neg down
      rw [start] at free' mmap' size' moved
      rw [getBuddy_congr merged.globals.heapBase] at moved
      refine ⟨free'.trans free, mmap'.trans mmap, i, by omega, size', fun ne => ?_⟩
      obtain ⟨lt', mem, other⟩ := moved ne
      exact ⟨lt', merged.sub mem, other⟩

/-! ## Where the merged block starts -/

/-- Going up from the order of `m` through free buddies, `m` is the lower one of every
pair. -/
def StaysLow (s : State) (l : List Nat) (m : Nat) : Prop :=
  ∀ i, getOrder s m ≤ i → i < maxOrder →
    (∀ n, getOrder s m ≤ n → n ≤ i → getBuddy s m n ∈ l ∧ s.isFree (getBuddy s m n) = true ∧
      s.size (getBuddy s m n) = minBlockSize * 2 ^ n) → m < getBuddy s m i

/-- **The merged block starts at `m`** exactly when `m` was the lower one of every pair. -/
theorem HeapInv.mergeUp_start {left : Nat} (h : HeapInv listed t hi B' {m}) (merged : Merged s t B B' m m j k)
    (heap : HeapInv listed s hi B ∅) (room : hi ≤ s.heapBase + totalHeapSize) (order : k + left = maxOrder)
    (run : Buddy.mergeUp left m k t = (x, o, t')) : x = m ↔
      ∀ i, k ≤ i → i < maxOrder → (∀ n, k ≤ n → n ≤ i → getBuddy s m n ∈ FreeOf s B ∅ n) → m < getBuddy s m i := by
  have stays : ∀ {t' : State}, (m, k, t) = (x, o, t') → x = m := fun e => by
    obtain ⟨rfl, -⟩ : m = x ∧ _ := by simpa using e
    rfl
  induction left generalizing t k B' with
  | zero =>
    have e := stays run
    exact ⟨fun _ i le lt => by omega, fun _ => e⟩
  | succ left ih =>
    have lt : k < maxOrder := by omega
    obtain ⟨hb, test, -⟩ := h.simulated merged lt
    rw [mergeUp_succ, test] at run
    by_cases can : cannotMerge s (getBuddy s m k) k = true
    · rw [if_pos can] at run
      have e := stays run
      refine ⟨fun _ i le lt' all => ?_, fun _ => e⟩
      obtain ⟨mem, -, free, size⟩ := all k (le_refl k) le
      have low := heap.tiles.lower _ mem
      have high := heap.tiles.upper _ mem
      have pos := heap.tiles.pos _ mem
      exact absurd ⟨free, size⟩ (not_free_of_cannotMerge can low (by omega))
    · rw [if_neg can] at run
      have can' := Bool.eq_false_iff.mpr can
      obtain ⟨free, size⟩ := cannotMerge_eq_false can'
      have here : getBuddy s m k ∈ FreeOf s B ∅ k := ⟨merged.sub hb, Set.notMem_empty _, free, size⟩
      obtain ⟨B₁, inv, round⟩ := h.absorb merged.size lt (test.trans can')
      have base := merged.globals.heapBase
      by_cases down : getBuddy s m k < m
      · -- the block ends at or below its buddy, and the condition fails at this order
        have start : (Buddy.absorb k m t).1 = getBuddy s m k := by
          rw [← getBuddy_congr base]
          exact if_pos (by rwa [getBuddy_congr base])
        obtain ⟨x', o', t₁, B₂, run', -, after, -⟩ := inv.mergeUp left round.size (by omega)
        rw [run'] at run
        obtain ⟨rfl, -⟩ : x' = x ∧ _ := by simpa using run
        have low := after.low
        rw [start] at low
        constructor
        · intro e
          omega
        · intro all
          have up := all k (le_refl k) lt fun n le le' => le_antisymm le le' ▸ here
          omega
      · have start : (Buddy.absorb k m t).1 = m := by
          refine if_neg ?_
          rwa [getBuddy_congr base]
        have ne : getBuddy s m k ≠ m := by
          obtain ⟨-, sides⟩ := h.buddy_cases merged.mem merged.size lt
          rw [getBuddy_congr base] at sides
          have := blockSize_pos k
          omega
        rw [start] at run
        rw [start] at inv round
        have above := ih inv (merged.trans round) (by omega) run fun e => by
          obtain ⟨rfl, -⟩ : m = x ∧ _ := by simpa using e
          rfl
        refine above.trans ?_
        constructor
        · intro all i le lt' free'
          obtain rfl | gt := le.eq_or_lt
          · omega
          · exact all i gt lt' fun n le' => free' n (by omega)
        · intro all i le lt' free'
          refine all i (by omega) lt' fun n le' le'' => ?_
          obtain rfl | gt := le'.eq_or_lt
          · exact here
          · exact free' n gt le''

/-! ## The second call -/

/-- A second `sfree(p)` right after the first leaves the free lists and the metadata of
every block as they are. -/
def DoubleFreeHarmless (p : Nat) (s : State) : Prop :=
  ∃ s₁ s₂ l₁, sfree p s = some s₁ ∧ Walk s₁.size s₁.heapEnd s₁.heapBase l₁ ∧ sfree p s₁ = some s₂ ∧
    s₂.freeLists = s₁.freeLists ∧ ∀ x ∈ l₁, s₂.mem.header x = s₁.mem.header x

/-- **Linking a foreign address into a list shows**: the head of the list or the header
of a block changes. -/
theorem flInsert_visible (h : HeapInv True s hi B ∅) (hA : Places A) (sub : B ⊆ A) (hm : m ∈ A) (out : m ∉ B)
    (run : flInsert k m { s with mem := s.mem.setIsFree m true } = some s') (lists : s'.freeLists = s.freeLists) :
    ∃ z ∈ B, s'.mem.header z ≠ s.mem.header z := by
  by_contra same
  have same' : ∀ z ∈ B, s'.mem.header z = s.mem.header z := fun z hz => by_contra fun ne => same ⟨z, hz, ne⟩
  have hdr : ∀ z ∈ B, (s.mem.setIsFree m true).header z = s.mem.header z := fun z hz => by
    have ne : z ≠ m := fun e => out (e ▸ hz)
    rw [hA.slots.header_setIsFree (sub hz) hm, if_neg ne]
  have fresh : m ∉ FreeOf s B ∅ k := fun hm' => out hm'.1
  obtain ⟨t, run', relinks, -⟩ := flInsert_relinks (s := { s with mem := s.mem.setIsFree m true }) hA
    ((HeapInv.freeOf_sub s B ∅ k).trans sub)
    ((h.linked k).congr (fun z hz => by rw [State.next, hdr z hz.1]) fun z hz => by rw [State.prev, hdr z hz.1])
    ((h.heads k).congr fun z hz => by rw [State.prev, hdr z hz.1]) hm fresh
  obtain rfl := Option.some_inj.mp (run'.symm.trans run)
  have own : m ∈ insert m (FreeOf s B ∅ k) := Set.mem_insert m _
  by_cases first : t.prev m = 0
  · -- `m` starts its chain, so it is the head of the list
    have covers := relinks.covers ((h.covers trivial k).congr fun z hz => by rw [State.prev, hdr z hz.1])
    have head : s.freeLists k = m := lists ▸ covers m own first
    rcases h.heads k with null | ⟨mem, -⟩
    · exact hA.pos m hm (head.symm.trans null)
    · exact fresh (head ▸ mem)
  · -- otherwise a block of the list points at it
    have back := relinks.linked.next_prev m own first
    have mem := (relinks.linked.prev_mem m own first).resolve_left (relinks.linked.prev_ne_self own first)
    rw [State.next, same' _ mem.1] at back
    have next := (h.linked k).next_mem _ mem (by rw [State.next, back]; exact hA.pos m hm)
    rw [State.next, back] at next
    exact fresh next

section Twice

variable (h : HeapWellFormed s l) (hm : m ∈ l) (alloc : s.isFree m = false)
include h hm alloc

/-- What the first call does: `m` is the free block again, or its metadata is left over. -/
theorem sfree_first : ∃ s₁ l₁, sfree (ptrFromMeta m) s = some s₁ ∧ HeapWellFormed s₁ l₁ ∧ l₁ ⊆ l ∧
    (StaysLow s l m ∧ s₁.isFree m = true ∨
      ¬StaysLow s l m ∧ m ∉ l₁ ∧ s₁.isFree m = false ∧ s₁.isMmap m = false ∧
        ∃ i < maxOrder, s₁.size m = blockSize i ∧ s₁.size (getBuddy s₁ m i) ≠ blockSize i) := by
  have inv := h.inv
  obtain ⟨j, order, size, -⟩ := inv.size_cases hm
  have hold : HeapInv True s s.heapEnd {x | x ∈ l} {m} := insert_empty_eq (β := Set Nat) m ▸ inv.hold hm alloc
  obtain ⟨left, whole⟩ := Nat.exists_eq_add_of_le order
  obtain ⟨x, k, t, B', run, inv', merged, -, -⟩ := hold.mergeUp left size whole.symm
  obtain ⟨s₁, run', inv₁, same, free, -⟩ := inv'.putDown merged.size
  have base : s₁.heapBase = s.heapBase := (merged.globals.trans same.globals).heapBase
  have stop : s₁.heapEnd = s.heapEnd := State.heapEnd_congr base
  rw [← stop] at inv₁
  obtain ⟨l₁, wellFormed, rfl⟩ := inv₁.wellFormed
  have low : x = m ↔ StaysLow s l m := by
    rw [hold.mergeUp_start (Merged.refl hm size) inv s.heapEnd_le whole.symm run]
    unfold StaysLow
    rw [getOrder_eq size order]
    simp only [mem_freeOf_list]
  have returns := (sfree_heap alloc (inv.notMmap m hm)).trans ((buddyFreeAndMerge_eq size order whole.symm run).trans run')
  refine ⟨s₁, l₁, returns, wellFormed, fun z hz => merged.sub hz, ?_⟩
  by_cases e : x = m
  · refine .inl ⟨low.mp e, ?_⟩
    rw [← e, free x merged.mem, if_pos rfl]
  · have out : m ∉ l₁ := fun hm' => e (merged.self hm')
    obtain ⟨freeM, mmapM, i, -, sizeM, moved⟩ := hold.mergeUp_stale size whole.symm run
    obtain ⟨lt, hb, other⟩ := moved e
    -- putting the merged block down writes to blocks of the new heap only
    have hdr : ∀ z ∈ l, z ∉ l₁ → s₁.mem.header z = t.mem.header z := fun z hz out' =>
      inv.header_off merged.sub same.touches hz out'
    have sizes : ∀ z ∈ l, s₁.size z = t.size z := fun z hz => by
      by_cases hz' : z ∈ l₁
      · exact same.size z hz'
      · rw [State.size, hdr z hz hz']
    refine .inr ⟨fun stays => e (low.mpr stays), out, ?_, ?_, i, lt, (sizes m hm).trans sizeM, ?_⟩
    · rw [State.isFree, hdr m hm out]
      exact freeM.trans alloc
    · rw [State.isMmap, hdr m hm out]
      exact mmapM.trans (inv.notMmap m hm)
    · rw [getBuddy_congr base, sizes _ hb]
      exact other

/-- A block that is not the lower one of a pair is freed twice. -/
theorem not_doubleFreeHarmless (moves : ¬StaysLow s l m) : ¬DoubleFreeHarmless (ptrFromMeta m) s := by
  rintro ⟨s₁, s₂, l₁, first, walk, second, lists, same⟩
  obtain ⟨s₁', l₁', first', wellFormed, sub, result⟩ := sfree_first h hm alloc
  obtain rfl := Option.some_inj.mp (first'.symm.trans first)
  obtain rfl := wellFormed.walk.unique walk
  rcases result with ⟨stays, -⟩ | ⟨-, out, free, mmap, i, lt, size, other⟩
  · exact moves stays
  -- the guards of `sfree` read the metadata left over, and the merging loop stops at once
  obtain ⟨left, whole⟩ := Nat.exists_eq_add_of_lt lt
  have stuck : cannotMerge s₁' (getBuddy s₁' m i) i = true := by
    have other' : (s₁'.mem.header (getBuddy s₁' m i)).size ≠ blockSize i := other
    simp only [cannotMerge, decide_eq_true other', Bool.or_true]
  have loop : mergeUp (left + 1) m i s₁' = (m, i, s₁') := by
    rw [mergeUp_succ, if_pos stuck]
  rw [sfree_heap free mmap, buddyFreeAndMerge_eq size (by omega) (by omega : i + (left + 1) = maxOrder) loop] at second
  obtain ⟨z, hz, ne⟩ := flInsert_visible wellFormed.inv h.inv.places sub hm out second lists
  exact ne (same z hz)

end Twice

/-- **A double free is harmless exactly when the block is the lower one of every pair it
is merged in.** -/
theorem doubleFree_harmless_iff (h : HeapWellFormed s l) (hm : m ∈ l) (alloc : s.isFree m = false) :
    DoubleFreeHarmless (ptrFromMeta m) s ↔ StaysLow s l m := by
  constructor
  · exact fun harmless => by_contra fun moves => not_doubleFreeHarmless h hm alloc moves harmless
  · intro stays
    obtain ⟨s₁, l₁, first, wellFormed, -, result⟩ := sfree_first h hm alloc
    rcases result with ⟨-, free⟩ | ⟨moves, -⟩
    · refine ⟨s₁, s₁, l₁, first, wellFormed.walk, ?_, rfl, fun _ _ => rfl⟩
      have free' : (s₁.mem.header m).isFree = true := free
      simp only [sfree, if_neg (ptrFromMeta_ne_zero m), metaFromPtr_ptrFromMeta, free', if_true]
    · exact absurd stays moves

theorem doubleFree_harmless_iff_largest : ∃ s l m, HeapWellFormed s l ∧ m ∈ l ∧ s.isFree m = false ∧
    (DoubleFreeHarmless (ptrFromMeta m) s ↔ StaysLow s l m) := by
  obtain ⟨s, l, m, h, -, hm, alloc⟩ := exists_live
  exact ⟨s, l, m, h, hm, alloc, doubleFree_harmless_iff h hm alloc⟩

/-! ## A live upper half -/

/-- The heap of `buddy_init` with its first block cut in two: the lower half is in hand and
the upper half is free. -/
theorem exists_halves : ∃ s, HeapInv True s s.heapEnd (insert 4259840 (initialSet 4194304 initialBlocks)) {4194304} ∧
    s.heapBase = 4194304 ∧ s.isFree 4194304 = false ∧ s.size 4194304 = blockSize 9 ∧
    s.isFree 4259840 = true ∧ s.size 4259840 = blockSize 9 ∧
    ∀ z ∈ initialSet 4194304 initialBlocks, z ≠ 4194304 → s.size z = blockSize maxOrder := by
  obtain ⟨s, inv, base, free⟩ := exists_firstHeap
  have mem : 4194304 ∈ initialSet 4194304 initialBlocks := ⟨0, by decide, rfl⟩
  have first : 4194304 ∈ FreeOf s (initialSet 4194304 initialBlocks) ∅ maxOrder := ⟨mem, Set.notMem_empty _, free _ mem⟩
  obtain ⟨inv₁, same, -⟩ := inv.unlink first
  rw [insert_empty_eq] at inv₁
  have size₁ : (flRemove maxOrder 4194304 s).size 4194304 = blockSize (9 + 1) := (same.size _ mem).trans (free _ mem).2
  obtain ⟨s', -, inv', cut⟩ := inv₁.carve .malloc3 rfl size₁
  have place : 4194304 + blockSize 9 = 4259840 := by decide
  rw [place] at inv'
  obtain ⟨freeY, sizeY⟩ := And.intro cut.freeY cut.sizeY
  rw [place] at freeY sizeY
  have base' : s'.heapBase = 4194304 := (same.globals.trans cut.globals).heapBase.trans base
  refine ⟨s', ?_, base', cut.freeX, cut.sizeX, freeY, sizeY, fun z hz ne => ?_⟩
  · have stop : s'.heapEnd = s.heapEnd := State.heapEnd_congr (base'.trans base.symm)
    rw [stop]
    exact inv'
  · exact (cut.same z hz ne).1.trans ((same.size z hz).trans (free z hz).2)

/-- The same heap with the lower half free and the upper half live. -/
theorem exists_upper_live : ∃ s l, HeapWellFormed s l ∧ Coalesced s {x | x ∈ l} ∧ 4259840 ∈ l ∧
    s.isFree 4259840 = false ∧ ¬StaysLow s l 4259840 := by
  obtain ⟨s, inv, base, -, sizeX, freeY, sizeY, others⟩ := exists_halves
  set B : Set Nat := insert 4259840 (initialSet 4194304 initialBlocks) with hB
  have memX : 4194304 ∈ B := .inr ⟨0, by decide, rfl⟩
  have memY : 4259840 ∈ B := .inl rfl
  -- the upper half is given out
  obtain ⟨inv₁, same₁, free₁, -, -⟩ := inv.unlink (m := 4259840) (k := 9) ⟨memY, by decide, freeY, sizeY⟩
  have held : 4259840 ∈ insert 4259840 ({4194304} : Set Nat) := .inl rfl
  obtain ⟨same₂, hdr⟩ := inv₁.sameBlocks_setIsFree memY false 9
  have inv₂ := inv₁.setIsFree memY held false
  set s₁ := flRemove 9 4259840 s
  set s₂ : State := { s₁ with mem := s₁.mem.setIsFree 4259840 false } with hs₂
  have flagY : s₂.isFree 4259840 = false := by
    rw [State.isFree, hdr _ memY, if_pos rfl]
  have inv₃ := inv₂.release flagY
  rw [Set.insert_sdiff_of_mem _ (Set.mem_singleton _), Set.sdiff_singleton_eq_self (by decide)] at inv₃
  -- the lower half is put down
  obtain ⟨t, -, inv₄, same₄, free₄, -⟩ := inv₃.putDown (k := 9) ((same₂.size _ memX).trans ((same₁.size _ memX).trans sizeX))
  have size : ∀ z ∈ B, t.size z = s.size z := fun z hz =>
    (same₄.size z hz).trans ((same₂.size z hz).trans (same₁.size z hz))
  have base' : t.heapBase = 4194304 := ((same₁.globals.trans same₂.globals).trans same₄.globals).heapBase.trans base
  have neY : 4259840 ≠ 4194304 := by decide
  have flagY' : t.isFree 4259840 = false := by
    rw [free₄ _ memY, if_neg neY]
    exact flagY
  have flagX : t.isFree 4194304 = true := by rw [free₄ _ memX, if_pos rfl]
  have stop : t.heapEnd = s.heapEnd := State.heapEnd_congr (base'.trans base.symm)
  rw [← stop] at inv₄
  have buddyX : getBuddy t 4194304 9 = 4259840 := by
    unfold getBuddy
    rw [base']
    decide
  have buddyY : getBuddy t 4259840 9 = 4194304 := by
    unfold getBuddy
    rw [base']
    decide
  have coalesced : Coalesced t B := by
    rintro i lt z ⟨hz, -, free, sz⟩ hb
    obtain rfl : z = 4194304 := by
      by_contra ne
      rcases hz with rfl | hz
      · rw [flagY'] at free
        exact Bool.noConfusion free
      · have := blockSize_inj (((size z (.inr hz)).trans (others z hz ne)).symm.trans sz)
        omega
    obtain rfl : 9 = i := blockSize_inj (((size _ memX).trans sizeX).symm.trans sz)
    rw [buddyX] at hb
    exact Bool.noConfusion (hb.2.2.1.symm.trans flagY')
  obtain ⟨l, wellFormed, blocks⟩ := inv₄.wellFormed
  have all : ∀ z, z ∈ B ↔ z ∈ l := fun z => Set.ext_iff.mp blocks z
  rw [blocks] at coalesced
  refine ⟨t, l, wellFormed, coalesced, (all _).mp memY, flagY', fun stays => ?_⟩
  have order : getOrder t 4259840 = 9 := getOrder_eq ((size _ memY).trans sizeY) (by decide)
  have up := stays 9 order.le (by decide) fun n le le' => by
    obtain rfl : n = 9 := by omega
    rw [buddyY]
    exact ⟨(all _).mp memX, flagX, ((size _ memX).trans sizeX).trans (blockSize_eq_mul 9)⟩
  rw [buddyY] at up
  exact absurd up (by decide)

/-- A live block of order 9 whose lower buddy is free: freeing it twice puts it on a list
inside the block it was merged into. -/
theorem doubleFree_corrupts : ∃ s l, HeapWellFormed s l ∧ Coalesced s {x | x ∈ l} ∧ 4259840 ∈ l ∧
    s.isFree 4259840 = false ∧ ¬DoubleFreeHarmless (ptrFromMeta 4259840) s := by
  obtain ⟨s, l, h, c, hm, alloc, moves⟩ := exists_upper_live
  exact ⟨s, l, h, c, hm, alloc, not_doubleFreeHarmless h hm alloc moves⟩

end OsProjects.Malloc.Buddy
