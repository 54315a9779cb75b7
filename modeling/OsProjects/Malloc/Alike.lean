import OsProjects.Malloc.Realloc

/-!
# Heaps that differ in `is_huge`

malloc_4 runs the heap code of malloc_3 and also writes the flag `is_huge`. `Alike B D`
says that two states have the same heap with blocks `B`: their headers agree in the
fields malloc_3 has, up to the flag `is_free` of the blocks `D`, which an operation has
in hand. Every operation of the heap takes alike states to alike states, whichever file
it is taken from.
-/

namespace OsProjects.Malloc.Buddy

open Links Tiling

/-- Two headers agree in the fields malloc_3 has, up to `is_free` when `loose`. -/
structure Matches (loose : Prop) (h h' : MallocMetadata) : Prop where
  size : h'.size = h.size
  isFree : ¬loose → h'.isFree = h.isFree
  isMmap : h'.isMmap = h.isMmap
  next : h'.next = h.next
  prev : h'.prev = h.prev

structure Alike (B D : Set Nat) (s t : State) : Prop where
  header : ∀ x ∈ B, Matches (x ∈ D) (s.mem.header x) (t.mem.header x)
  lists : t.freeLists = s.freeLists
  base : ∀ x ∈ B, t.heapBase = s.heapBase

variable {listed : Prop} {ed ed' : Edition} {s s' t t' : State} {hi k m n x : Nat} {B B' D E : Set Nat}

theorem Matches.mono {loose loose' : Prop} {h h' : MallocMetadata} (same : Matches loose h h')
    (imp : loose → loose') : Matches loose' h h' :=
  { same with isFree := fun tight => same.isFree fun l => tight (imp l) }

namespace Alike

theorem size (h : Alike B D s t) (hx : x ∈ B) : t.size x = s.size x := (h.header x hx).size

theorem isFree (h : Alike B D s t) (hx : x ∈ B) (out : x ∉ D) : t.isFree x = s.isFree x := (h.header x hx).isFree out

theorem isMmap (h : Alike B D s t) (hx : x ∈ B) : t.isMmap x = s.isMmap x := (h.header x hx).isMmap

theorem next (h : Alike B D s t) (hx : x ∈ B) : t.next x = s.next x := (h.header x hx).next

theorem prev (h : Alike B D s t) (hx : x ∈ B) : t.prev x = s.prev x := (h.header x hx).prev

theorem mono (h : Alike B D s t) (sub : B' ⊆ B) (held : ∀ x ∈ B', x ∈ D → x ∈ E) : Alike B' E s t :=
  ⟨fun x hx => (h.header x (sub hx)).mono (held x hx), h.lists, fun x hx => h.base x (sub hx)⟩

/-- Writing the flag of a block on both sides. -/
theorem setIsFree (h : Alike B D s t) (places : Places B) (hm : m ∈ B) (b : Bool) :
    Alike B (D \ {m}) { s with mem := s.mem.setIsFree m b } { t with mem := t.mem.setIsFree m b } := by
  refine ⟨fun x hx => ?_, h.lists, h.base⟩
  have same := h.header x hx
  rw [places.slots.header_setIsFree hx hm, places.slots.header_setIsFree hx hm]
  by_cases e : x = m
  · rw [if_pos e, if_pos e]
    exact { same with isFree := fun _ => rfl }
  · rw [if_neg e, if_neg e]
    exact same.mono fun hd => ⟨hd, e⟩

/-- Writing the size of a block on both sides. -/
theorem setSize (h : Alike B D s t) (places : Places B) (hm : m ∈ B) (v : Nat) :
    Alike B D { s with mem := s.mem.setSize m v } { t with mem := t.mem.setSize m v } := by
  refine ⟨fun x hx => ?_, h.lists, h.base⟩
  have same := h.header x hx
  rw [places.slots.header_setSize hx hm, places.slots.header_setSize hx hm]
  by_cases e : x = m
  · rw [if_pos e, if_pos e]
    exact { same with size := rfl }
  · rw [if_neg e, if_neg e]
    exact same

/-! ## The free-list primitives -/

theorem flRemove (h : Alike B D s t) (places : Places B) (hm : m ∈ B) (hprev : s.prev m = 0 ∨ s.prev m ∈ B)
    (hnext : s.next m = 0 ∨ s.next m ∈ B) (nePrev : s.prev m ≠ m) (k : Nat) :
    Alike B D (flRemove k m s) (flRemove k m t) := by
  have prevM := h.prev hm
  have nextM := h.next hm
  refine ⟨fun x hx => ?_, ?_, fun x hx => ?_⟩
  · have same := h.header x hx
    rw [flRemove_header places hm hprev hnext nePrev hx, flRemove_header (s := t) places hm (prevM.symm ▸ hprev)
      (nextM.symm ▸ hnext) (prevM.symm ▸ nePrev) hx, prevM, nextM, h.next hx, h.prev hx]
    exact { same with next := rfl, prev := rfl }
  · rw [flRemove_freeLists, flRemove_freeLists, prevM, nextM, h.lists]
  · rw [flRemove_heapBase, flRemove_heapBase]
    exact h.base x hx

/-- Unlinking a free block. -/
theorem unlink (h : Alike B E s t) (inv : HeapInv listed s hi B D) (hm : m ∈ FreeOf s B D k) :
    Alike B E (Buddy.flRemove k m s) (Buddy.flRemove k m t) := by
  have linked := inv.linked k
  have hprev : s.prev m = 0 ∨ s.prev m ∈ B := or_iff_not_imp_left.mpr fun e => (linked.prev_mem m hm e).1
  have hnext : s.next m = 0 ∨ s.next m ∈ B := or_iff_not_imp_left.mpr fun e => (linked.next_mem m hm e).1
  refine h.flRemove inv.places hm.1 hprev hnext ?_ k
  by_cases e : s.prev m = 0
  · exact e ▸ (inv.pos m hm.1).symm
  · exact linked.prev_ne_self hm e

/-- Unlinking a block that is on no list. -/
theorem unlink_held (h : Alike B E s t) (inv : HeapInv listed s hi B D) (hm : m ∈ B) (next : s.next m = 0)
    (prev : s.prev m = 0) (k : Nat) : Alike B E (Buddy.flRemove k m s) (Buddy.flRemove k m t) :=
  h.flRemove inv.places hm (.inl prev) (.inl next) (prev ▸ (inv.pos m hm).symm) k

/-- The search of `fl_insert` only looks at links. The induction is on the distance to `m`. -/
theorem flSeek_congr {mem mem' : Mem} {prev : Nat → Nat} {S : Set Nat} {cur : Nat}
    (linked : Linked (fun x => (mem.header x).next) prev 0 S)
    (same : ∀ x ∈ S, (mem'.header x).next = (mem.header x).next) (hcur : cur ∈ S) (lt : cur < m) :
    flSeek mem' m cur = flSeek mem m cur := by
  generalize hn : m - cur = n
  induction n using Nat.strongRecOn generalizing cur with
  | ind n ih =>
    rw [Mem.flSeek.eq_1 mem' m cur, Mem.flSeek.eq_1 mem m cur, same cur hcur]
    by_cases go : (mem.header cur).next ≠ 0 ∧ (mem.header cur).next < m
    · have up := linked.lt_next cur hcur go.1
      rw [if_pos go, if_pos go]
      exact ih _ (by omega) (linked.next_mem cur hcur go.1) go.2 rfl
    · rw [if_neg go, if_neg go]

/-- Linking a block in. -/
theorem insert_free (h : Alike B E s t) (inv : HeapInv listed s hi B D) (hm : m ∈ B) (held : m ∈ D)
    (run : flInsert k m s = some s') : ∃ t', flInsert k m t = some t' ∧ Alike B (E \ {m}) s' t' := by
  have places := inv.places
  have fresh : m ∉ FreeOf s B D k := fun hm' => hm'.2.1 held
  have lists := congrFun h.lists k
  have headB : s.freeLists k = 0 ∨ s.freeLists k ∈ B := (inv.heads k).imp_right fun h => h.1.1
  have headNe : s.freeLists k ≠ m := (ne_link places hm fresh ((inv.heads k).imp_right And.left)).symm
  by_cases front : s.freeLists k = 0 ∨ m < s.freeLists k
  · obtain rfl := Option.some_inj.mp ((flInsert_front front).symm.trans run)
    refine ⟨_, flInsert_front (lists.symm ▸ front), fun x hx => ?_, ?_, h.base⟩
    · have same := h.header x hx
      rw [linkFront_header places hm headB headNe hx, linkFront_header (s := t) (k := k) places hm (lists.symm ▸ headB)
        (lists.symm ▸ headNe) hx, lists, h.next hx, h.prev hx]
      refine { same with isFree := fun out => ?_, next := rfl, prev := rfl }
      by_cases e : x = m
      · simp only [if_pos e]
      · simp only [if_neg e]
        exact same.isFree fun hd => out ⟨hd, e⟩
    · simp only [linkFront, h.lists]
  · have front' := front
    rw [not_or, not_lt] at front
    obtain ⟨ne0, le⟩ := front
    obtain ⟨headS, -⟩ := (inv.heads k).resolve_left ne0
    have detached : ∀ u : State, ∀ x ∈ FreeOf s B D k, (detach m u.mem).header x = u.mem.header x := fun u x hx =>
      detach_header_of_mem places (HeapInv.freeOf_sub s B D k) hm fresh u.mem hx
    have linked : Linked (fun x => ((detach m s.mem).header x).next) s.prev 0 (FreeOf s B D k) :=
      (inv.linked k).congr (fun x hx => by rw [detached s x hx]) fun _ _ => rfl
    have lt : s.freeLists k < m := lt_of_le_of_ne le headNe
    obtain ⟨cur, seek, hcur, ltCur, -⟩ := flSeek_spec _ _ linked headS lt
    have seek' : flSeek (detach m t.mem) m (t.freeLists k) = some cur := by
      rw [lists, flSeek_congr linked (fun x hx => ?_) headS lt, seek]
      rw [detached t x hx, detached s x hx]
      exact h.next hx.1
    obtain rfl := Option.some_inj.mp ((flInsert_after front' seek).symm.trans run)
    have succ : s.next cur = 0 ∨ s.next cur ∈ FreeOf s B D k :=
      or_iff_not_imp_left.mpr ((inv.linked k).next_mem cur hcur)
    have succB : s.next cur = 0 ∨ s.next cur ∈ B := succ.imp_right And.left
    have succNe : s.next cur ≠ m := (ne_link places hm fresh succ).symm
    have nextCur := h.next hcur.1
    refine ⟨_, flInsert_after (lists.symm ▸ front') seek', fun x hx => ?_, h.lists, h.base⟩
    have same := h.header x hx
    rw [linkAfter_header places hm hcur.1 ltCur.ne succB succNe hx, linkAfter_header (s := t) places hm hcur.1 ltCur.ne
      (nextCur.symm ▸ succB) (nextCur.symm ▸ succNe) hx, nextCur, h.next hx, h.prev hx]
    refine { same with isFree := fun out => ?_, next := rfl, prev := rfl }
    by_cases e : x = m
    · simp only [if_pos e]
    · simp only [if_neg e]
      exact same.isFree fun hd => out ⟨hd, e⟩

/-! ## Splitting -/

theorem carve (h : Alike B ∅ s t) (ed' : Edition) (inv : HeapInv listed s hi B D) (hx : x ∈ D) (size : s.size x = blockSize (k + 1))
    (run : carve ed x k s = some s') :
    ∃ t', Buddy.carve ed' x k t = some t' ∧ Alike (insert (x + blockSize k) B) ∅ s' t' := by
  have hxB := inv.held hx
  have places := inv.places_split hxB size
  have out := inv.middle_not_mem hxB size
  have lt := inv.lt x hxB
  have double := blockSize_succ k
  have small : blockSize k < 2 ^ 64 := by omega
  have halves : Alike (insert (x + blockSize k) B) ∅ { s with mem := halve ed x k s.mem }
      { t with mem := halve ed' x k t.mem } := by
    refine ⟨?_, h.lists, fun _ _ => h.base x hxB⟩
    rintro z (rfl | hz)
    · obtain ⟨size₁, free₁, mmap₁, next₁, prev₁⟩ := freshBlock_header ed
        ((s.mem.setSize x (blockSize k)).setIsFree x false) (y := x + blockSize k) small
      obtain ⟨size₂, free₂, mmap₂, next₂, prev₂⟩ := freshBlock_header ed'
        ((t.mem.setSize x (blockSize k)).setIsFree x false) (y := x + blockSize k) small
      exact ⟨size₂.trans size₁.symm, fun _ => free₂.trans free₁.symm, mmap₂.trans mmap₁.symm, next₂.trans next₁.symm,
        prev₂.trans prev₁.symm⟩
    · have same := h.header z hz
      rw [halve_header places hxB out small hz, halve_header places hxB out small hz]
      by_cases e : z = x
      · rw [if_pos e, if_pos e]
        exact { same with size := rfl, isFree := fun _ => rfl }
      · rw [if_neg e, if_neg e]
        exact same
  obtain ⟨-, -, inv'⟩ := inv.halve ed hx size
  obtain ⟨t', run', alike⟩ := halves.insert_free inv' (Set.mem_insert _ B) (Set.mem_insert _ D) run
  exact ⟨t', run', Set.empty_sdiff _ ▸ alike⟩

theorem carveDown (h : Alike B ∅ s t) (ed' : Edition) (inv : HeapInv listed s hi B D) (hx : x ∈ D) {target : Nat}
    (size : s.size x = blockSize (target + n)) (next : s.next x = 0) (prev : s.prev x = 0)
    (run : carveDown ed target n x s = some s') :
    ∃ t', Buddy.carveDown ed' target n x t = some t' ∧ Alike (B ∪ upperHalves x target n) ∅ s' t' := by
  induction n generalizing s t listed B with
  | zero =>
    have none : upperHalves x target 0 = ∅ := by simp [upperHalves]
    obtain rfl : s = s' := Option.some_inj.mp run
    rw [none, Set.union_empty]
    exact ⟨t, rfl, h⟩
  | succ n ih =>
    have hxB := inv.held hx
    obtain ⟨s₁, run₁, inv₁, cut⟩ := inv.carve ed (k := target + n) hx size
    obtain ⟨t₁, run₁', alike₁⟩ := h.carve ed' inv hx size run₁
    have inX : x ∈ insert (x + blockSize (target + n)) B := Set.mem_insert_of_mem _ hxB
    have next₁ := cut.next.trans next
    have prev₁ := cut.prev.trans prev
    obtain ⟨inv₂, hdr, -, -⟩ := inv₁.unlink_held inX next₁ prev₁ (target + n)
    have alike₂ := alike₁.unlink_held inv₁ inX next₁ prev₁ (target + n)
    have step : ∀ e u u₁, Buddy.carve e x (target + n) u = some u₁ → Buddy.carveDown e target (n + 1) x u =
        Buddy.carveDown e target n x (Buddy.flRemove (target + n) x u₁) := by
      intro e u u₁ cut
      change (Buddy.carve e x (target + n) u).bind _ = _
      rw [cut]
      rfl
    rw [step _ _ _ run₁] at run
    obtain ⟨t', run', alike'⟩ := ih alike₂ inv₂ (by rw [State.size, hdr x inX]; exact cut.sizeX)
      (by rw [State.next, hdr x inX]; exact next₁) (by rw [State.prev, hdr x inX]; exact prev₁) run
    refine ⟨t', (step _ _ _ run₁').trans run', ?_⟩
    rwa [upperHalves_succ, Set.union_insert, ← Set.insert_union]

theorem firstOrder (h : Alike B D s t) (left ord : Nat) : firstOrder t left ord = firstOrder s left ord := by
  induction left generalizing ord with
  | zero => rfl
  | succ left ih => simp only [Buddy.firstOrder, h.lists, ih]

/-- **`buddy_alloc`** takes the same block of alike heaps. -/
theorem buddyAlloc (h : Alike B ∅ s t) (ed' : Edition) (inv : HeapInv listed s hi B ∅) (n : Nat)
    (run : buddyAlloc ed n s = some (x, s')) :
    ∃ t' B', Buddy.buddyAlloc ed' n t = some (x, t') ∧ Alike B' ∅ s' t' ∧ HeapInv False s' hi B' ∅ := by
  have order := sizeToOrder_le n
  cases first : Buddy.firstOrder s (maxOrder + 1 - sizeToOrder n) (sizeToOrder n) with
  | none =>
    have first' := (h.firstOrder _ _).trans first
    unfold Buddy.buddyAlloc at run ⊢
    simp only [if_neg (not_lt.mpr order), first] at run
    simp only [if_neg (not_lt.mpr order), first']
    obtain ⟨rfl, rfl⟩ := Prod.mk.inj (Option.some_inj.mp run)
    exact ⟨t, B, rfl, h, inv.weaken⟩
  | some o =>
    obtain ⟨le, lt, ne, empty⟩ := firstOrder_some first
    obtain ⟨d, rfl⟩ := Nat.exists_eq_add_of_le le
    have lists := congrFun h.lists (sizeToOrder n + d)
    have mem : s.freeLists (sizeToOrder n + d) ∈ FreeOf s B ∅ (sizeToOrder n + d) :=
      ((inv.heads _).resolve_left ne).1
    obtain ⟨inv₁, same, -, next, prev⟩ := inv.unlink mem
    have alike₁ := h.unlink inv mem
    have size := (same.size _ mem.1).trans mem.2.2.2
    obtain ⟨s₂, cut, inv₂, -⟩ := inv₁.carveDown ed (Set.mem_insert _ ∅) size next prev
    obtain ⟨t₂, cut', alike₂⟩ := alike₁.carveDown ed' inv₁ (Set.mem_insert _ ∅) size next prev cut
    rw [buddyAlloc_some first, Nat.add_sub_cancel_left, cut] at run
    obtain ⟨rfl, rfl⟩ := Prod.mk.inj (Option.some_inj.mp run)
    have inX : s.freeLists (sizeToOrder n + d) ∈ B ∪ upperHalves (s.freeLists (sizeToOrder n + d)) (sizeToOrder n) d :=
      .inl mem.1
    refine ⟨_, _, ?_, Set.empty_sdiff _ ▸ alike₂.setIsFree inv₂.places inX false, ?_⟩
    · rw [buddyAlloc_some ((h.firstOrder _ _).trans first), Nat.add_sub_cancel_left, lists, cut']
      rfl
    · have inv₃ := inv₂.weaken.setIsFree inX (Set.mem_insert _ ∅) false
      have := inv₃.release (m := s.freeLists (sizeToOrder n + d)) (by
        rw [State.isFree, inv₂.places.slots.header_setIsFree inX inX, if_pos rfl])
      rwa [Set.insert_sdiff_of_mem _ (Set.mem_singleton _), Set.empty_sdiff] at this

/-! ## Initialisation -/

theorem initBlocks (base : s.heapBase ≠ 0) (lists : ∀ k, s.freeLists k = 0)
    (lt : s.heapBase + n * mmapThreshold < 2 ^ 64) (sameBase : t.heapBase = s.heapBase)
    (sameLists : t.freeLists = s.freeLists) (run : initBlocks ed n s = some s') (run' : initBlocks ed' n t = some t') :
    Alike (initialSet s.heapBase n) ∅ s' t' := by
  induction n generalizing s' t' with
  | zero =>
    have none : initialSet s.heapBase 0 = ∅ := by simp [initialSet]
    obtain rfl : s = s' := Option.some_inj.mp run
    obtain rfl : t = t' := Option.some_inj.mp run'
    rw [none]
    exact ⟨fun x hx => absurd hx (Set.notMem_empty x), sameLists, fun x hx => absurd hx (Set.notMem_empty x)⟩
  | succ n ih =>
    have threshold : mmapThreshold = blockSize maxOrder := blockSize_maxOrder.symm
    have small : mmapThreshold < 2 ^ 64 := by decide
    have step : (n + 1) * mmapThreshold = n * mmapThreshold + mmapThreshold := Nat.succ_mul _ _
    obtain ⟨s₁, run₁, inv, -, -, -, globals⟩ := initBlocks_spec (n := n) ed base lists (by omega)
    obtain ⟨t₁, run₁', -, -, -, -, globals'⟩ := initBlocks_spec (s := t) (n := n) ed' (sameBase.symm ▸ base)
      (sameLists.symm ▸ lists) (by rw [sameBase]; omega)
    have alike := ih (by omega) run₁ run₁'
    set y := s.heapBase + n * mmapThreshold with hy
    have pos : y ≠ 0 := by omega
    have apart : ∀ z ∈ initialSet s.heapBase n, Apart z y := fun z hz =>
      ((inv.places_append pos (by omega)).slots z (Set.mem_insert_of_mem _ hz) y (Set.mem_insert _ _)).resolve_left
        fun e => inv.end_not_mem (e ▸ hz)
    -- the new block, before it is linked in
    have fresh : Alike (insert y (initialSet s.heapBase n)) ∅ { s₁ with mem := freshBlock ed s₁.mem y mmapThreshold }
        { t₁ with mem := freshBlock ed' t₁.mem y mmapThreshold } := by
      refine ⟨?_, alike.lists, fun _ _ => ?_⟩
      · rintro z (rfl | hz)
        · obtain ⟨size₁, free₁, mmap₁, next₁, prev₁⟩ := freshBlock_header ed s₁.mem (y := y) small
          obtain ⟨size₂, free₂, mmap₂, next₂, prev₂⟩ := freshBlock_header ed' t₁.mem (y := y) small
          exact ⟨size₂.trans size₁.symm, fun _ => free₂.trans free₁.symm, mmap₂.trans mmap₁.symm,
            next₂.trans next₁.symm, prev₂.trans prev₁.symm⟩
        · rw [freshBlock_header_of_apart ed _ (apart z hz), freshBlock_header_of_apart ed' _ (apart z hz)]
          exact alike.header z hz
      · exact globals'.heapBase.trans (sameBase.trans globals.heapBase.symm)
    obtain ⟨sizeY, -, mmapY, -⟩ := freshBlock_header ed s₁.mem (y := y) small
    have inv' := inv.append pos (by rw [← threshold]; omega)
      (fun z hz => freshBlock_header_of_apart ed s₁.mem (apart z hz)) (threshold ▸ sizeY) mmapY
    have rounds : ∀ e u u₁, Buddy.initBlocks e n u = some u₁ → u₁.heapBase = s.heapBase →
        Buddy.initBlocks e (n + 1) u = flInsert maxOrder y { u₁ with mem := freshBlock e u₁.mem y mmapThreshold } := by
      intro e u u₁ first same
      change (Buddy.initBlocks e n u).bind _ = _
      rw [first, Option.bind_some, initBlock_eq, same]
    rw [rounds _ _ _ run₁ globals.heapBase] at run
    rw [rounds _ _ _ run₁' (globals'.heapBase.trans sameBase)] at run'
    obtain ⟨t₂, run₂, alike₂⟩ := fresh.insert_free inv' (Set.mem_insert y _) (Set.mem_insert y ∅) run
    obtain rfl := Option.some_inj.mp (run'.symm.trans run₂)
    rw [initialSet_succ]
    exact Set.empty_sdiff _ ▸ alike₂

/-! ## Merging -/

theorem absorb (h : Alike B {m} s t) (inv : HeapInv listed s hi B {m}) (size : s.size m = blockSize k)
    (order : k < maxOrder) (can : cannotMerge s (getBuddy s m k) k = false) :
    (absorb k m t).1 = (absorb k m s).1 ∧ Alike B {m} (absorb k m s).2 (absorb k m t).2 := by
  have hm : m ∈ B := inv.held rfl
  have base := h.base m hm
  obtain ⟨hb, sides⟩ := inv.buddy_cases hm size order
  obtain ⟨freeB, sizeB⟩ := cannotMerge_eq_false can
  have pos := blockSize_pos k
  have ne : getBuddy s m k ≠ m := by omega
  have alike := h.unlink inv (m := getBuddy s m k) ⟨hb, ne, freeB, sizeB⟩
  unfold Buddy.absorb
  rw [getBuddy_congr base]
  refine ⟨rfl, alike.setSize inv.places ?_ _⟩
  split_ifs
  · exact hb
  · exact hm

/-- The round goes the same way on both sides. -/
theorem cannotMerge (h : Alike B D s t) {b : Nat} (hb : b ∈ B) (out : b ∉ D) (k : Nat) :
    cannotMerge t b k = cannotMerge s b k :=
  cannotMerge_congr (h.size hb) (h.isFree hb out) (h.base b hb)

theorem mergeUp (h : Alike B {m} s t) (left : Nat) (inv : HeapInv listed s hi B {m}) (size : s.size m = blockSize k)
    (order : k + left = maxOrder) :
    ∃ x j s' t' B', mergeUp left m k s = (x, j, s') ∧ Buddy.mergeUp left m k t = (x, j, t') ∧
      HeapInv listed s' hi B' {x} ∧ Merged s s' B B' m x k j ∧ Alike B' {x} s' t' := by
  induction left generalizing s t m k B with
  | zero => exact ⟨m, k, s, t, B, rfl, rfl, inv, Merged.refl (inv.held rfl) size, h⟩
  | succ left ih =>
    have hm : m ∈ B := inv.held rfl
    obtain ⟨hb, sides⟩ := inv.buddy_cases hm size (by omega)
    have pos := blockSize_pos k
    have ne : getBuddy s m k ∉ ({m} : Set Nat) := fun e => by
      rw [Set.mem_singleton_iff] at e
      omega
    rw [mergeUp_succ, mergeUp_succ, getBuddy_congr (h.base m hm), h.cannotMerge hb ne]
    by_cases can : Buddy.cannotMerge s (getBuddy s m k) k = true
    · rw [if_pos can, if_pos can]
      exact ⟨m, k, s, t, B, rfl, rfl, inv, Merged.refl hm size, h⟩
    · rw [if_neg can, if_neg can]
      have can' := Bool.eq_false_iff.mpr can
      obtain ⟨B₁, inv₁, merged⟩ := inv.absorb size (by omega) can'
      obtain ⟨same, alike⟩ := h.absorb inv size (by omega) can'
      rw [same]
      have alike₁ := alike.mono (E := {(Buddy.absorb k m s).1}) merged.sub fun z hz e => by
        obtain rfl := Set.mem_singleton_iff.mp e
        exact (merged.self hz).symm
      obtain ⟨x, j, s', t', B', run, run', inv', merged', alike'⟩ := ih alike₁ inv₁ merged.size (by omega)
      exact ⟨x, j, s', t', B', run, run', inv', merged.trans merged', alike'⟩

/-- **`buddy_free_and_merge`** leaves alike heaps. -/
theorem buddyFreeAndMerge (h : Alike B ∅ s t) (inv : HeapInv listed s hi B ∅) (hm : m ∈ B)
    (alloc : s.isFree m = false) :
    ∃ s' t' B', buddyFreeAndMerge m s = some s' ∧ Buddy.buddyFreeAndMerge m t = some t' ∧
      HeapInv listed s' hi B' ∅ ∧ Alike B' ∅ s' t' := by
  obtain ⟨j, order, size, -⟩ := inv.size_cases hm
  have hold : HeapInv listed s hi B {m} := insert_empty_eq (β := Set Nat) m ▸ inv.hold hm alloc
  have loose : Alike B {m} s t := h.mono subset_rfl fun z _ hz => absurd hz (Set.notMem_empty z)
  obtain ⟨x, k, s₁, t₁, B', run, run', inv₁, merged, alike⟩ := loose.mergeUp (maxOrder - j) hold size (by omega)
  have hx : x ∈ B' := inv₁.held rfl
  obtain ⟨same, -⟩ := inv₁.sameBlocks_setIsFree hx true k
  have inv₂ := inv₁.setIsFree hx rfl true
  obtain ⟨s', link, inv₃, -⟩ := inv₂.insert_free hx rfl ((same.size x hx).trans merged.size)
  obtain ⟨t', link', alike'⟩ := (alike.setIsFree inv₁.places hx true).insert_free inv₂ hx rfl link
  rw [Set.sdiff_self, Set.empty_sdiff] at alike'
  rw [Set.sdiff_self] at inv₃
  refine ⟨s', t', B', ?_, ?_, inv₃, alike'⟩
  · simp only [Buddy.buddyFreeAndMerge, getOrder_eq size order, run]
    exact link
  · simp only [Buddy.buddyFreeAndMerge, getOrder_eq ((h.size hm).trans size) order, run']
    exact link'

/-- The simulated merging of `srealloc` comes to the same end. It is followed in the
state `s'` in which it is carried out, since only there its blocks are blocks. -/
theorem simulateMerge {left size cur j : Nat} (h : Alike B ∅ s t) (inv : HeapInv listed s' hi B' {cur})
    (merged : Merged s s' B B' m cur j k) (order : k + left = maxOrder) :
    simulateMerge size t left cur k = simulateMerge size s left cur k := by
  induction left generalizing s' cur k B' with
  | zero => rfl
  | succ left ih =>
    obtain ⟨hb, test, step⟩ := inv.simulated merged (by omega)
    rw [simulateMerge_succ, simulateMerge_succ, getBuddy_congr (h.base _ (merged.sub merged.mem)),
      h.cannotMerge (merged.sub hb) (Set.notMem_empty _)]
    by_cases can : Buddy.cannotMerge s (getBuddy s cur k) k = true
    · rw [if_pos can, if_pos can]
    rw [if_neg can, if_neg can]
    by_cases enough : size ≤ subSize (blockSize (k + 1)) metaSize
    · rw [if_pos enough, if_pos enough]
    rw [if_neg enough, if_neg enough]
    obtain ⟨B₁, inv₁, round⟩ := inv.absorb merged.size (by omega) (test.trans (Bool.eq_false_iff.mpr can))
    rw [← step]
    exact ih inv₁ (merged.trans round) (by omega)

/-- The merging of `srealloc` leaves alike heaps. -/
theorem mergeInto {left size cur j o : Nat} {u : State} (h : Alike B' {cur} s' t') (inv : HeapInv listed s' hi B' {cur})
    (merged : Merged u s' B B' m cur j k) (order : k + left = maxOrder)
    (sim : Buddy.simulateMerge size u left cur k = some o) :
    ∃ x s'' t'' B'', mergeInto (o - k) cur k s' = (x, s'') ∧ Buddy.mergeInto (o - k) cur k t' = (x, t'') ∧
      HeapInv listed s'' hi B'' {x} ∧ Merged u s'' B B'' m x j o ∧ k < o ∧ Alike B'' {x} s'' t'' := by
  induction left generalizing s' t' cur k B' with
  | zero => exact nomatch sim
  | succ left ih =>
    obtain ⟨-, test, step⟩ := inv.simulated merged (by omega)
    rw [simulateMerge_succ] at sim
    by_cases can : Buddy.cannotMerge u (getBuddy u cur k) k = true
    · rw [if_pos can] at sim
      exact nomatch sim
    rw [if_neg can] at sim
    have can' := test.trans (Bool.eq_false_iff.mpr can)
    obtain ⟨B₁, inv₁, round⟩ := inv.absorb merged.size (by omega) can'
    obtain ⟨same, alike⟩ := h.absorb inv merged.size (by omega) can'
    have alike₁ : Alike B₁ {(Buddy.absorb k cur s').1} (Buddy.absorb k cur s').2 (Buddy.absorb k cur t').2 := by
      refine alike.mono round.sub fun z hz e => ?_
      obtain rfl := Set.mem_singleton_iff.mp e
      exact (round.self hz).symm
    by_cases enough : size ≤ subSize (blockSize (k + 1)) metaSize
    · rw [if_pos enough] at sim
      obtain rfl := Option.some_inj.mp sim
      rw [Nat.add_sub_cancel_left, mergeInto_succ, mergeInto_succ, same]
      exact ⟨_, _, _, B₁, rfl, rfl, inv₁, merged.trans round, by omega, alike₁⟩
    · rw [if_neg enough, ← step] at sim
      obtain ⟨x, s'', t'', B'', run, run', inv', merged', lt, alike'⟩ := ih alike₁ inv₁ (merged.trans round) (by omega) sim
      refine ⟨x, s'', t'', B'', ?_, ?_, inv', merged', by omega, alike'⟩
      · rw [show o - k = o - (k + 1) + 1 by omega, mergeInto_succ]
        exact run
      · rw [show o - k = o - (k + 1) + 1 by omega, mergeInto_succ, same]
        exact run'

end Alike

end OsProjects.Malloc.Buddy
