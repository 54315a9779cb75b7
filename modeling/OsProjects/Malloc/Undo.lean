import OsProjects.Malloc.Agreement
import OsProjects.Malloc.Steps

/-!
# Freeing undoes allocating

The splitting loop of `buddy_alloc` and the merging loop of `buddy_free_and_merge` are
written separately. With the block `x` in hand, a round of the first cuts off an upper
half and loses its list, which was empty, and a round of the second finds the half at
`get_buddy` and loses the same list; both leave all other headers alone (`InHand`). The
merging stops at the order the splitting started from because the heap is coalesced, and
`fl_insert` puts `x` back in front of the list whose head it was.
-/

namespace OsProjects.Malloc.Buddy

open Links Tiling

variable {ed : Edition} {os : Os} {s s' s₁ u v : State} {hi d i j k left m n o p t x y z : Nat} {A A' B : Set Nat}
  {M : List Nat} {w w₁ : World}

/-- `u` is `s` with the block `x` in hand as a block of order `k`, as far as the
headers of `A` and the static variables go. -/
structure InHand (s u : State) (A : Set Nat) (x k : Nat) : Prop where
  header : u.mem.header x = { s.mem.header x with size := blockSize k, isFree := u.isFree x }
  others : ∀ z ∈ A, z ≠ x → u.mem.header z = s.mem.header z
  freeLists : u.freeLists = s.freeLists
  globals : SameGlobals s u

namespace InHand

theorem refl (size : s.size x = blockSize k) : InHand s s A x k where
  header := by rw [← size]
  others _ _ _ := rfl
  freeLists := rfl
  globals := SameGlobals.refl s

theorem trans (h : InHand s u A x j) (h' : InHand u v A' x k) (sub : A' ⊆ A) : InHand s v A' x k where
  header := by rw [h'.header, h.header]
  others z hz ne := (h'.others z hz ne).trans (h.others z (sub hz) ne)
  freeLists := h'.freeLists.trans h.freeLists
  globals := h.globals.trans h'.globals

theorem mono (h : InHand s u A x k) (sub : A' ⊆ A) : InHand s u A' x k :=
  { h with others := fun z hz => h.others z (sub hz) }

theorem size (h : InHand s u A x k) : u.size x = blockSize k := by rw [State.size, h.header]

theorem next (h : InHand s u A x k) : u.next x = s.next x := by rw [State.next, h.header]

theorem prev (h : InHand s u A x k) : u.prev x = s.prev x := by rw [State.prev, h.header]

/-- The flag of the block in hand may be written. -/
theorem setIsFree (h : InHand s u A x k) (places : Places A) (hx : x ∈ A) (b : Bool) :
    InHand s { u with mem := u.mem.setIsFree x b } A x k where
  header := by
    rw [State.isFree, Mem.header_setIsFree_self, h.header]
  others z hz ne := by
    rw [places.slots.header_setIsFree hz hx, if_neg ne]
    exact h.others z hz ne
  freeLists := h.freeLists
  globals := h.globals.trans (SameGlobals.store u _)

end InHand

/-- The upper half of order `j`, cut off and on no list. -/
structure CutOff (s : State) (x j : Nat) : Prop where
  size : s.size (x + blockSize j) = blockSize j
  free : s.isFree (x + blockSize j) = true
  next : s.next (x + blockSize j) = 0
  prev : s.prev (x + blockSize j) = 0

theorem CutOff.congr (h : CutOff s x j) (hdr : u.mem.header (x + blockSize j) = s.mem.header (x + blockSize j)) :
    CutOff u x j := by
  obtain ⟨size, free, next, prev⟩ := h
  exact ⟨by rw [State.size, hdr, ← State.size, size], by rw [State.isFree, hdr, ← State.isFree, free],
    by rw [State.next, hdr, ← State.next, next], by rw [State.prev, hdr, ← State.prev, prev]⟩

theorem blockSize_lt (order : k ≤ maxOrder) : blockSize k < 2 ^ 64 := by
  have le := blockSize_le order
  rw [blockSize_maxOrder] at le
  omega

/-! ## Down -/

/-- **A round of the splitting loop.** -/
theorem carve_inHand (ed : Edition) (places : Places A) (hx : x ∈ A) (hy : x + blockSize k ∈ A) (order : k ≤ maxOrder)
    (empty : s.freeLists k = 0) (next : s.next x = 0) (prev : s.prev x = 0) :
    ∃ u, carve ed x k s = some u ∧ InHand s (flRemove k x u) (A \ {x + blockSize k}) x k ∧ CutOff (flRemove k x u) x k := by
  have pos := blockSize_pos k
  have small := blockSize_lt order
  set y := x + blockSize k with hy'
  have neX : x ≠ y := by omega
  have split : insert y (A \ {y}) = A := by rw [Set.insert_sdiff_singleton, Set.insert_eq_of_mem hy]
  have places' : Places (insert y (A \ {y})) := split.symm ▸ places
  have hx' : x ∈ A \ {y} := ⟨hx, neX⟩
  have out : y ∉ A \ {y} := fun h => h.2 rfl
  set v : State := { s with mem := halve ed x k s.mem } with hv
  have halves : ∀ z ∈ A \ {y}, v.mem.header z = _ := fun z hz => halve_header places' hx' out small hz
  obtain ⟨sizeY, freeY, -, nextY, prevY⟩ := freshBlock_header ed ((s.mem.setSize x (blockSize k)).setIsFree x false)
    (y := y) small
  have none : v.freeLists k = 0 := empty
  have hdr : ∀ z ∈ A, (linkFront k y v).mem.header z = _ := fun z hz =>
    linkFront_header places hy (.inl none) (none.symm ▸ (places.pos y hy).symm) hz
  -- away from the upper half only the flag and size of `x` change
  have off : ∀ z ∈ A, z ≠ y → (linkFront k y v).mem.header z = v.mem.header z := fun z hz ne => by
    have pos := places.pos z hz
    rw [hdr z hz, none]
    simp only [if_neg ne, if_neg pos]
  have start : (linkFront k y v).mem.header x = { s.mem.header x with size := blockSize k, isFree := false } := by
    rw [off x hx neX, halves x hx', if_pos rfl]
  have stray := flRemove_stray (s := linkFront k y v) places hx (by rw [State.next, start]; exact next)
    (by rw [State.prev, start]; exact prev) k
  obtain ⟨same, -, lists⟩ := stray
  refine ⟨linkFront k y v, flInsert_front (.inl none), ⟨?_, fun z hz ne => ?_, ?_, ?_⟩, ⟨?_, ?_, ?_, ?_⟩⟩
  · rw [State.isFree, same x hx, start]
  · rw [same z hz.1, off z hz.1 hz.2, halves z hz, if_neg ne]
  · rw [lists]
    simp only [linkFront, Function.update_idem, hv]
    rw [← empty, Function.update_eq_self]
  · have linked : SameGlobals s (linkFront k y v) := ⟨rfl, rfl, rfl, rfl⟩
    exact linked.trans (flRemove_globals k x _)
  · rw [State.size, same y hy, hdr y hy]
    exact sizeY
  · rw [State.isFree, same y hy, hdr y hy]
    exact if_pos rfl
  · rw [State.next, same y hy, hdr y hy]
    exact (if_pos rfl).trans none
  · rw [State.prev, same y hy, hdr y hy]
    exact if_pos rfl

theorem notMem_upperHalves (h : k < t ∨ t + n ≤ k) : x + blockSize k ∉ upperHalves x t n := by
  rintro ⟨j, lt, e⟩
  have := blockSize_inj (Nat.add_left_cancel e)
  omega

/-- **The splitting loop** cuts off one half of every order it passes. -/
theorem carveDown_inHand (ed : Edition) (places : Places A) (hx : x ∈ A) (inside : upperHalves x t n ⊆ A)
    (order : t + n ≤ maxOrder) (empty : ∀ j < n, s.freeLists (t + j) = 0) (size : s.size x = blockSize (t + n))
    (next : s.next x = 0) (prev : s.prev x = 0) :
    ∃ u, carveDown ed t n x s = some u ∧ InHand s u (A \ upperHalves x t n) x t ∧ ∀ j < n, CutOff u x (t + j) := by
  induction n generalizing s with
  | zero => exact ⟨s, rfl, InHand.refl size, fun j lt => by omega⟩
  | succ n ih =>
    have grow := upperHalves_succ x t n
    have hy : x + blockSize (t + n) ∈ A := inside ⟨n, by omega, rfl⟩
    have fewer : upperHalves x t n ⊆ upperHalves x t (n + 1) := grow ▸ Set.subset_insert _ _
    obtain ⟨s₁, run, first, cut⟩ := carve_inHand ed places hx hy (by omega) (empty n (by omega)) next prev
    obtain ⟨u, run', second, cuts⟩ := ih (s := flRemove (t + n) x s₁) (fewer.trans inside) (by omega)
      (fun j lt => first.freeLists ▸ empty j (by omega)) first.size (first.next.trans next)
      (first.prev.trans prev)
    refine ⟨u, ?_, ?_, fun j lt => ?_⟩
    · change (carve ed x (t + n) s).bind _ = _
      rw [run]
      exact run'
    · apply first.trans (second.mono _) _
      · exact Set.sdiff_subset_sdiff_right fewer
      · rw [grow]
        exact Set.sdiff_subset_sdiff_right (Set.singleton_subset_iff.mpr (Set.mem_insert _ _))
    · by_cases e : j = n
      · subst e
        have pos := blockSize_pos (t + j)
        exact cut.congr (second.others _ ⟨hy, notMem_upperHalves (.inr (le_refl _))⟩ (by omega))
      · exact cuts j (by omega)

/-! ## Up -/

/-- **A round of the merging loop** finds the half that was cut off. -/
theorem absorb_inHand (places : Places A) (hx : x ∈ A) (hy : x + blockSize k ∈ A) (order : k < maxOrder)
    (low : s.heapBase ≤ x) (high : x + blockSize (k + 1) ≤ s.heapBase + totalHeapSize)
    (dvd : blockSize (k + 1) ∣ x - s.heapBase) (empty : s.freeLists k = 0) (cut : CutOff s x k) :
    cannotMerge s (getBuddy s x k) k = false ∧ (absorb k x s).1 = x ∧ InHand s (absorb k x s).2 A x (k + 1) := by
  have pos := blockSize_pos k
  have double := blockSize_succ k
  have small := blockSize_lt (show k + 1 ≤ maxOrder by omega)
  have buddy := getBuddy_of_dvd low dvd
  obtain ⟨same, -, lists⟩ := flRemove_stray (s := s) places hy cut.next cut.prev k
  have notBelow : ¬x + blockSize k < x := by omega
  refine ⟨?_, ?_, ?_⟩
  · have free : (s.mem.header (x + blockSize k)).isFree = true := cut.free
    have size : (s.mem.header (x + blockSize k)).size = blockSize k := cut.size
    have below : ¬x + blockSize k < s.heapBase := by omega
    have above : ¬s.heapBase + totalHeapSize ≤ x + blockSize k := by omega
    simp only [cannotMerge, buddy, free, size, below, above, decide_false, Bool.not_true, ne_eq, not_true_eq_false,
      Bool.or_self]
  · simp only [absorb, buddy, if_neg notBelow]
  · simp only [absorb, buddy, if_neg notBelow]
    have hdr : ∀ z ∈ A, _ := fun z hz =>
      places.slots.header_setSize (m := (flRemove k (x + blockSize k) s).mem) hz hx (blockSize (k + 1))
    refine ⟨?_, fun z hz ne => ?_, ?_, (flRemove_globals _ _ _).trans (SameGlobals.store _ _)⟩
    · rw [State.isFree, hdr x hx, if_pos rfl, same x hx, Nat.mod_eq_of_lt small]
    · rw [hdr z hz, if_neg ne, same z hz]
    · change (flRemove k (x + blockSize k) s).freeLists = s.freeLists
      rw [lists, ← empty, Function.update_eq_self]

/-- **The merging loop** goes up through all the halves that were cut off. -/
theorem mergeUp_inHand (left : Nat) (places : Places A) (hx : x ∈ A) (inside : upperHalves x k n ⊆ A) (order : k + n ≤ maxOrder)
    (low : s.heapBase ≤ x) (high : x + blockSize (k + n) ≤ s.heapBase + totalHeapSize)
    (dvd : blockSize (k + n) ∣ x - s.heapBase) (empty : ∀ j < n, s.freeLists (k + j) = 0)
    (size : s.size x = blockSize k) (cuts : ∀ j < n, CutOff s x (k + j)) :
    ∃ u, mergeUp (n + left) x k s = mergeUp left x (k + n) u ∧ InHand s u A x (k + n) := by
  induction n generalizing s k with
  | zero => exact ⟨s, by rw [Nat.zero_add, Nat.add_zero], InHand.refl size⟩
  | succ n ih =>
    have next : k + 1 + n = k + (n + 1) := by omega
    have grow := blockSize_le (show k + 1 ≤ k + (n + 1) by omega)
    have half : blockSize (k + 1) ∣ blockSize (k + (n + 1)) := by
      rw [blockSize_eq, blockSize_eq]
      exact pow_dvd_pow 2 (by omega)
    obtain ⟨can, start, first⟩ := absorb_inHand (k := k) places hx (inside ⟨0, by omega, rfl⟩) (by omega) low (by omega)
      (half.trans dvd) (empty 0 (by omega)) (cuts 0 (by omega))
    have base := first.globals.heapBase
    have above : upperHalves x (k + 1) n ⊆ A := by
      rintro y ⟨j, lt, rfl⟩
      exact inside ⟨j + 1, by omega, by rw [← Nat.add_assoc, Nat.add_right_comm]⟩
    obtain ⟨u, run, second⟩ := ih (s := (absorb k x s).2) (k := k + 1) above (by omega) (base ▸ low)
      (by rw [base, next]; exact high) (by rw [base, next]; exact dvd)
      (fun j lt => by rw [first.freeLists, Nat.add_right_comm]; exact empty (j + 1) (by omega)) first.size
      (fun j lt => by
        have pos := blockSize_pos (k + 1 + j)
        refine CutOff.congr ?_ (first.others _ (above ⟨j, lt, rfl⟩) (by omega))
        rw [Nat.add_right_comm]
        exact cuts (j + 1) (by omega))
    rw [next] at run second
    refine ⟨u, ?_, first.trans second subset_rfl⟩
    rw [Nat.add_right_comm n 1 left, mergeUp_succ, can, start]
    exact run

/-! ## Back on the list -/

/-- **The block goes back to where it was taken from**, in front of its list. -/
theorem HeapInv.putBack (h : HeapInv False s hi B ∅) (head : s.freeLists o = x) (hx : x ∈ FreeOf s B ∅ o)
    (hand : InHand (flRemove o x s) u B x o) :
    ∃ s', flInsert o x { u with mem := u.mem.setIsFree x true } = some s' ∧
      (∀ z ∈ B, s'.mem.header z = s.mem.header z) ∧ s'.freeLists = s.freeLists ∧ SameGlobals s s' := by
  have pos := h.pos x hx.1
  have linked := h.linked o
  have prev : s.prev x = 0 := by
    rcases h.heads o with null | ⟨-, first⟩
    · exact absurd (head.symm.trans null) pos
    · exact head ▸ first
  have next : s.next x = 0 ∨ s.next x ∈ FreeOf s B ∅ o := or_iff_not_imp_left.mpr (linked.next_mem x hx)
  have nextB : s.next x = 0 ∨ s.next x ∈ B := next.imp_right And.left
  have neNext : s.next x ≠ x := by
    rcases next with null | mem
    · exact null ▸ pos.symm
    · exact (linked.lt_next x hx fun null => h.pos _ mem.1 null).ne'
  have removed : ∀ z ∈ B, _ := fun z hz =>
    flRemove_header (k := o) h.places hx.1 (.inl prev) nextB (prev ▸ pos.symm) hz
  have rest : (flRemove o x s).freeLists = Function.update s.freeLists o (s.next x) := by
    rw [flRemove_freeLists, if_pos prev]
  obtain ⟨header, others, lists, globals⟩ := hand.setIsFree h.places hx.1 true
  set v : State := { u with mem := u.mem.setIsFree x true }
  have flag : v.isFree x = true := by rw [State.isFree, Mem.header_setIsFree_self]
  have top : v.freeLists o = s.next x := by rw [lists, rest, Function.update_self]
  have front : v.freeLists o = 0 ∨ x < v.freeLists o := by
    rw [top]
    exact or_iff_not_imp_left.mpr (linked.lt_next x hx)
  refine ⟨linkFront o x v, flInsert_front front, fun z hz => ?_, ?_, ?_⟩
  · rw [linkFront_header h.places hx.1 (top ▸ nextB) (top ▸ neNext) hz, top]
    obtain rfl | ne := eq_or_ne z x
    · simp only [if_true, header, removed z hz]
      rw [← hx.2.2.2, ← hx.2.2.1, ← prev]
    · simp only [if_neg ne, State.next, State.prev, State.isFree, others z hz ne, removed z hz]
      have neP : z ≠ s.prev x := prev ▸ h.pos z hz
      simp only [if_neg neP]
      by_cases e : z = s.next x
      · have back := linked.prev_next x hx (e ▸ h.pos z hz)
        rw [← e] at back
        rw [if_pos e, ← back]
      · simp only [if_neg e]
  · change Function.update v.freeLists o x = s.freeLists
    rw [lists, rest, Function.update_idem, ← head, Function.update_eq_self]
  · exact ((flRemove_globals o x s).trans globals).trans ⟨rfl, rfl, rfl, rfl⟩

/-- The merging loop stops where the splitting started: there the buddy is not free. -/
theorem HeapInv.mergeUp_stop (h : HeapInv False s hi B ∅) (c : Coalesced s B) (hx : x ∈ FreeOf s B ∅ o)
    (hand : InHand (flRemove o x s) u B x o) (whole : o + left = maxOrder) :
    Buddy.mergeUp left x o u = (x, o, u) := by
  cases left with
  | zero => rfl
  | succ left =>
    have lt : o < maxOrder := by omega
    have pos := blockSize_pos o
    have base : u.heapBase = s.heapBase := hand.globals.heapBase.trans (flRemove_heapBase o x s)
    obtain ⟨hb, sides⟩ := h.buddy_cases hx.1 hx.2.2.2 lt
    obtain ⟨-, same, free, -, -⟩ := h.unlink hx
    rw [mergeUp_succ, getBuddy_congr base]
    refine if_pos (by_contra fun can => ?_)
    obtain ⟨flag, size⟩ := cannotMerge_eq_false (Bool.eq_false_iff.mpr can)
    have ne : getBuddy s x o ≠ x := by omega
    rw [State.isFree, hand.others _ hb ne] at flag
    rw [State.size, hand.others _ hb ne] at size
    exact c o lt x hx ⟨hb, Set.notMem_empty _, (free _ hb).symm.trans flag, (same.size _ hb).symm.trans size⟩

/-- The search of `buddy_alloc` ends at the order of the chosen block. -/
theorem Chosen.firstOrder (chosen : Chosen s B x t d) (pos : x ≠ 0) :
    Buddy.firstOrder s (maxOrder + 1 - t) t = some (t + d) := by
  have order := chosen.order
  have head : s.freeLists (t + d) ≠ 0 := fun null => pos (chosen.head.symm.trans null)
  cases found : Buddy.firstOrder s (maxOrder + 1 - t) t with
  | none => exact absurd (firstOrder_none.mp found (t + d) (by omega) (by omega)) head
  | some o =>
    obtain ⟨le, -, ne, below⟩ := firstOrder_some found
    rcases lt_trichotomy o (t + d) with lt | e | gt
    · exact absurd (chosen.first o le lt) ne
    · rw [e]
    · exact absurd (below _ (by omega) gt) head

/-- Inside a block no block starts. -/
theorem HeapInv.notMem_halves (h : HeapInv False s hi B ∅) (hx : x ∈ B) (size : s.size x = blockSize (t + d))
    (hz : z ∈ B) : z ∉ upperHalves x t d := by
  rintro ⟨j, lt, rfl⟩
  have pos := blockSize_pos (t + j)
  have double := blockSize_succ (t + j)
  have small := blockSize_le (show t + j + 1 ≤ t + d by omega)
  have positive := h.tiles.pos _ hz
  have same := h.tiles.eq_of_overlap hx hz (z := x + blockSize (t + j)) (by omega) (by omega) (le_refl _) (by omega)
  omega

/-- **`buddy_free_and_merge` undoes `buddy_alloc`** on the heap: every block has its old
header and every list its old head. -/
theorem HeapInv.buddyFree_undoes (h : HeapInv False s hi B ∅) (c : Coalesced s B)
    (room : hi ≤ s.heapBase + totalHeapSize) (run : Buddy.buddyAlloc ed n s = some (x, s₁)) (pos : x ≠ 0) :
    ∃ s₂, Buddy.buddyFreeAndMerge x s₁ = some s₂ ∧ (∀ z ∈ B, s₂.mem.header z = s.mem.header z) ∧
      s₂.freeLists = s.freeLists ∧ SameGlobals s s₂ := by
  rcases h.buddyAlloc ed n with ⟨none, -⟩ | ⟨y, d, t₁, run', chosen, inv', -⟩
  · obtain ⟨e, -⟩ := Prod.mk.inj (Option.some_inj.mp (none.symm.trans run))
    exact absurd e.symm pos
  obtain ⟨rfl, rfl⟩ := Prod.mk.inj (Option.some_inj.mp (run'.symm.trans run))
  set t := sizeToOrder n
  have order := chosen.order
  have hx := chosen.mem
  have low := h.tiles.lower y hx.1
  have high := h.tiles.upper y hx.1
  have dvd := h.aligned hx.1 hx.2.2.2
  have places := inv'.places
  have inY : y ∈ B ∪ upperHalves y t d := .inl hx.1
  have halves : upperHalves y t d ⊆ B ∪ upperHalves y t d := Set.subset_union_right
  obtain ⟨-, same, -, next, prev⟩ := h.unlink hx
  have off : ∀ j < d, (flRemove (t + d) y s).freeLists (t + j) = 0 := fun j lt => by
    rw [same.lists _ (by omega)]
    exact chosen.first _ (by omega) (by omega)
  obtain ⟨u, down, hand, cuts⟩ := carveDown_inHand ed places inY halves order off
    ((same.size y hx.1).trans hx.2.2.2) next prev
  -- the state that `buddy_alloc` leaves
  rw [buddyAlloc_some (chosen.firstOrder pos), chosen.head, Nat.add_sub_cancel_left, down] at run'
  obtain ⟨-, rfl⟩ := Prod.mk.inj (Option.some_inj.mp run')
  -- the loop up from there
  have sub : B ⊆ (B ∪ upperHalves y t d) \ upperHalves y t d := fun z hz =>
    ⟨.inl hz, h.notMem_halves hx.1 hx.2.2.2 hz⟩
  have base : u.heapBase = s.heapBase := hand.globals.heapBase.trans same.globals.heapBase
  set v : State := { u with mem := u.mem.setIsFree y false }
  have inY' : y ∈ (B ∪ upperHalves y t d) \ upperHalves y t d := sub hx.1
  have hand' : InHand (flRemove (t + d) y s) v B y t :=
    (hand.setIsFree (places.mono Set.sdiff_subset) inY' false).mono sub
  have cuts' : ∀ j < d, CutOff v y (t + j) := fun j lt => by
    have pos := blockSize_pos (t + j)
    refine (cuts j lt).congr ?_
    exact (places.slots.header_setIsFree (halves ⟨j, lt, rfl⟩) inY false).trans (if_neg (by omega))
  obtain ⟨left, whole⟩ := Nat.exists_eq_add_of_le order
  obtain ⟨u', up, hand''⟩ := mergeUp_inHand left (s := v) places inY halves order (base ▸ low)
    (by rw [← hx.2.2.2]; change _ ≤ u.heapBase + _; omega) (base ▸ dvd)
    (fun j lt => by rw [hand'.freeLists]; exact off j lt) hand'.size cuts'
  have back : InHand (flRemove (t + d) y s) u' B y (t + d) := hand'.trans (hand''.mono Set.subset_union_left) subset_rfl
  obtain ⟨s₂, put, headers, lists, globals⟩ := h.putBack chosen.head hx back
  refine ⟨s₂, ?_, headers, lists, globals⟩
  rw [buddyFreeAndMerge_eq (i := d + left) hand'.size (by omega) (by omega)
    (up.trans (h.mergeUp_stop c hx back whole.symm))]
  exact put

/-! ## Both kinds of blocks -/

/-- The blocks have the headers and the static variables the values they had. -/
structure Restored (s s' : State) (B : Set Nat) (M : List Nat) : Prop where
  header : ∀ z, z ∈ B ∨ z ∈ M → s'.mem.header z = s.mem.header z
  freeLists : s'.freeLists = s.freeLists
  globals : SameGlobals s s'

/-- A restored state looks like the old one to every function of the allocator. -/
theorem Restored.twin (h : Restored s s' B M) (inv : Inv False s B M) : Twin s s' B M where
  inv := inv
  header z hz := by
    rw [h.header z hz]
    exact ⟨rfl, fun _ => rfl, rfl, rfl, rfl⟩
  lists := h.freeLists
  base := .inl h.globals.heapBase
  initialized := h.globals.initialized
  mmapList := h.globals.mmapList
  mapped := h.globals.mapped

theorem Inv.buddyFree_undoes (h : Inv False s B M) (c : Coalesced s B) (init : s.initialized = true)
    (run : Buddy.buddyAlloc ed n s = some (x, s₁)) (pos : x ≠ 0) :
    ∃ s₂, Buddy.sfree (ptrFromMeta x) s₁ = some s₂ ∧ Restored s s₂ B M := by
  obtain ⟨s₂, free, headers, lists, globals⟩ := h.heap.buddyFree_undoes c s.heapEnd_le run pos
  rcases h.buddyAlloc init ed n with ⟨none, -⟩ | ⟨y, d, t₁, run', chosen, inv, alloc, -, grants⟩
  · obtain ⟨e, -⟩ := Prod.mk.inj (Option.some_inj.mp (none.symm.trans run))
    exact absurd e.symm pos
  obtain ⟨rfl, rfl⟩ := Prod.mk.inj (Option.some_inj.mp (run'.symm.trans run))
  have hy : y ∈ B ∪ upperHalves y (sizeToOrder n) d := .inl chosen.mem.1
  obtain ⟨x', j', k', t₂, B₂, run₂, -, -, freed⟩ := inv.heap.buddyFreeAndMerge t₁.heapEnd_le hy alloc.free
  obtain rfl := Option.some_inj.mp (run₂.symm.trans free)
  have stop : t₁.heapEnd = s.heapEnd := State.heapEnd_congr alloc.globals.heapBase
  have maps : ∀ z ∈ M, t₂.mem.header z = s.mem.header z := fun z hz => by
    have down := h.map_header alloc.touches
      (fun a ha => Inv.header_within (stop ▸ inv.heap) alloc.globals.heapBase ha) hz
    have up := inv.map_header freed.touches (fun a ha => Inv.header_within inv.heap rfl ha) hz
    exact up.trans down
  exact ⟨t₂, (sfree_heap alloc.free (inv.heap.notMmap y hy)).trans free,
    ⟨fun z hz => hz.elim (headers z) (maps z), lists, globals⟩⟩

/-- The first block of the mmap list has no predecessor. -/
theorem MmapInv.prev_head (h : MmapInv s M) (hx : x ∈ M) (e : x = s.mmapList) : s.prev x = 0 := by
  cases M with
  | nil => exact absurd hx List.not_mem_nil
  | cons y M =>
    obtain ⟨head, -, back, -⟩ := h.dll
    rw [e, head]
    exact back

/-- **`mmap_free` undoes `mmap_alloc`.** -/
theorem Inv.mmapFree_undoes {huge : Bool} {raw total : Nat} (ed : Edition) (h : Inv False s B M) (fresh : FreshMaps os s)
    (answer : os.mmap huge total = some raw) (init : s.initialized = true) (large : metaSize + mmapThreshold ≤ total) :
    Buddy.sfree (ptrFromMeta raw) (mmapEnlist ed huge raw total s) =
        some (Buddy.mmapFree raw (mmapEnlist ed huge raw total s)) ∧
      Restored s (Buddy.mmapFree raw (mmapEnlist ed huge raw total s)) B M := by
  obtain ⟨pos, lt⟩ := fresh.pos huge total raw answer
  obtain ⟨inv, -, -⟩ := h.enlist fresh answer init large ed
  obtain ⟨-, -, -, touches, out⟩ := h.maps.enlist lt large (h.freshRegion fresh answer) ed huge pos
  have head : s.mmapList = 0 ∨ s.mmapList ∈ raw :: M := h.maps.head.imp_right (List.mem_cons_of_mem raw)
  have neHead : raw ≠ s.mmapList := fun e => h.maps.head.elim (fun null => pos (e.trans null)) fun mem => out (e ▸ mem)
  have mem : raw ∈ raw :: M := List.mem_cons_self
  have mapped : ∀ x ∈ raw :: M, _ := fun x hx =>
    mmapEnlist_header inv.maps.places mem head ed huge (by omega : metaSize ≤ total) (by omega) hx
  set t := mmapEnlist ed huge raw total s with ht
  have next : t.next raw = s.mmapList := by rw [State.next, mapped raw mem, if_pos rfl]
  have prev : t.prev raw = 0 := by
    rw [State.prev, mapped raw mem, if_pos rfl]
    exact if_neg neHead
  have size : t.size raw = total - metaSize := by rw [State.size, mapped raw mem, if_pos rfl]
  have unmapped : ∀ x ∈ raw :: M, _ := fun x hx =>
    Buddy.mmapFree_header inv.maps.places mem (.inl prev) (next ▸ head) (prev ▸ pos.symm) hx
  refine ⟨sfree_mmap (inv.maps.alloc raw mem) (inv.maps.isMmap raw mem), ⟨fun z hz => ?_, ?_, ?_⟩⟩
  · rcases hz with hz | hz
    · exact (inv.mmapFree_header mem hz).trans (h.header_of_mapped fresh answer touches (by omega) hz)
    · have hz' := List.mem_cons_of_mem raw hz
      have ne : z ≠ raw := fun e => out (e ▸ hz)
      have notNull : z ≠ 0 := h.maps.places.pos z hz
      have old := (mapped z hz').trans (if_neg ne)
      simp only [unmapped z hz', prev, next, if_neg notNull, State.next, State.prev, old]
      by_cases e : z = s.mmapList
      · rw [if_pos e, ← h.maps.prev_head hz e]
      · simp only [if_neg e]
  · exact mmapFree_freeLists raw t
  · refine ⟨?_, mmapFree_heapBase raw t, mmapFree_initialized raw t, ?_⟩
    · rw [mmapFree_mmapList, if_pos prev, next]
    · have length : (metaSize + (Buddy.mmapFree raw t).size raw) % 2 ^ 64 = total := by
        rw [State.size, unmapped raw mem, ← State.size, size, Nat.add_sub_cancel' (by omega)]
        exact Nat.mod_eq_of_lt (by omega)
      rw [mmapFree_mapped, length]
      change ((raw, total) :: s.mapped).erase (raw, total) = s.mapped
      simp only [List.erase_cons_head]

/-- **`sfree` undoes `smalloc`.** -/
theorem Inv.sfree_undoes {size : Nat} (h : Inv False s B M) (c : Coalesced s B) (init : s.initialized = true)
    (sound : Sound os s) (run : Buddy.smalloc ed os size s = some (p, s₁)) (pos : p ≠ 0) :
    ∃ s₂, Buddy.sfree p s₁ = some s₂ ∧ Restored s s₂ B M := by
  by_cases bad : Refused size
  · rw [smalloc_of_refused bad] at run
    obtain ⟨e, -⟩ := Prod.mk.inj (Option.some_inj.mp run)
    exact absurd e.symm pos
  have ok : ¬(size = 0 ∨ exceedsMax size = true) := bad
  have boot : Buddy.buddyInit ed os s = some s := buddyInit_of_initialized init
  rw [smalloc_eq, if_neg ok, Buddy.allocate, boot] at run
  obtain ⟨⟨x, t⟩, block, e⟩ := Option.map_eq_some_iff.mp run
  obtain ⟨rfl, rfl⟩ := Prod.mk.inj e
  have notNull : x ≠ 0 := fun null => pos (userPtr_eq_zero.mpr null)
  rw [userPtr_ne_zero notNull]
  simp only [Option.bind_eq_bind, Option.bind_some] at block
  split_ifs at block with big
  · rcases bigAlloc_cases ed os size (decide (hugepageSmalloc ≤ size)) s with ⟨null, -⟩ | ⟨huge, raw, answer, -, region⟩
    · obtain ⟨e, -⟩ := Prod.mk.inj (null.symm.trans (Option.some_inj.mp block))
      exact absurd e.symm notNull
    · obtain ⟨rfl, rfl⟩ := Prod.mk.inj (region.symm.trans (Option.some_inj.mp block))
      have max : maxAllocSize = 100000000 := rfl
      have small := (not_refused.mp bad).2
      have word : metaSize = 32 := rfl
      obtain ⟨j, hj, pow⟩ := mapAlign_pow sound ed (decide (hugepageSmalloc ≤ size))
      have round := (alignUp_spec (n := metaSize + size) hj (by omega)).1
      rw [← pow] at round
      obtain ⟨free, restored⟩ := h.mmapFree_undoes ed sound.maps answer init (by omega)
      exact ⟨_, free, restored⟩
  · exact h.buddyFree_undoes c init block notNull

/-- **Free undoes malloc.** In every reachable world, a block that `smalloc` hands out and
`sfree` takes back at once leaves everything as it was. -/
theorem sfree_undoes_smalloc {size : Nat} (reach : Reachable ed (Permitted ed) w) (init : w.st.initialized = true)
    (sound : Sound os w.st) (run : exec ed os (.smalloc size) w = some (p, w₁)) (pos : p ≠ 0) :
    ∃ w₂, exec ed os (.sfree p) w₁ = some (0, w₂) ∧ Agree w w₂ := by
  obtain ⟨B, M, inv, live, c⟩ := reach.coalesced fun _ _ _ ok => ok
  obtain ⟨⟨q, t⟩, alloc, e⟩ := Option.bind_eq_some_iff.mp run
  obtain ⟨rfl, rfl⟩ := Prod.mk.inj (Option.some_inj.mp e)
  obtain ⟨s₂, free, restored⟩ := inv.sfree_undoes c init sound alloc pos
  have twin := restored.twin inv
  -- the new pointer was not live
  have fresh : q ∉ w.live := by
    by_cases bad : Refused size
    · rw [smalloc_of_refused bad] at alloc
      obtain ⟨e, -⟩ := Prod.mk.inj (Option.some_inj.mp alloc)
      exact absurd e.symm pos
    obtain ⟨x, s₁, B₁, t', B', M', alloc', -, -, -, req⟩ := inv.smalloc sound ed bad
    obtain ⟨rfl, -⟩ := Prod.mk.inj (Option.some_inj.mp (alloc'.symm.trans alloc))
    rcases req.result with ⟨rfl, -⟩ | ⟨notNull, grants⟩
    · exact absurd rfl pos
    · rw [userPtr_ne_zero notNull, live]
      rintro ⟨y, hy, e⟩
      exact grants.fresh (ptrFromMeta_inj e ▸ hy)
  refine ⟨⟨s₂, w.live⟩, ?_, TwinWorlds.agree ⟨B, M, twin, live, rfl⟩⟩
  simp only [exec, free, if_neg pos, Option.bind_eq_bind, Option.bind_some, Finset.erase_insert fresh]
  rfl

/-- A heap operation leaves the operating system's promise as it is. -/
theorem FreshMaps.congr (h : FreshMaps os s) (same : SameGlobals s s') : FreshMaps os s' where
  pos := h.pos
  mapped huge n raw answer r hr := h.mapped huge n raw answer r (same.mapped ▸ hr)
  heap huge n raw answer := by
    have stop : s'.heapEnd = s.heapEnd := State.heapEnd_congr same.heapBase
    rw [stop, same.heapBase]
    exact h.heap huge n raw answer

/-- A region of its own, after a first small block. -/
theorem sfree_undoes_smalloc_region : ∃ w p w₁, Reachable .malloc3 (Permitted .malloc3) w ∧ w.st.initialized = true ∧
    exec .malloc3 sampleOs (.smalloc 200000) w = some (p, w₁) ∧ p ≠ 0 ∧
      ∃ w₂, exec .malloc3 sampleOs (.sfree p) w₁ = some (0, w₂) ∧ Agree w w₂ := by
  have sound : Sound sampleOs (World.start fun _ => 0).st := sampleOs_sound rfl (.inl rfl)
  obtain ⟨s₁, B₁, boot, inv, init, -, -, -, fresh⟩ := (Inv.start fun _ => 0).buddyInit sound .malloc3
  -- the first request leaves the regions as they are
  obtain ⟨x, s, block, same⟩ : ∃ x s, Buddy.buddyAlloc .malloc3 1 s₁ = some (x, s) ∧ SameGlobals s₁ s := by
    rcases inv.buddyAlloc init .malloc3 1 with ⟨run, -⟩ | ⟨x, d, s, run, -, -, alloc, -⟩
    · exact ⟨0, s₁, run, SameGlobals.refl s₁⟩
    · exact ⟨x, s, run, alloc.globals⟩
  have ok : ¬(1 = 0 ∨ exceedsMax 1 = true) := by decide
  have small : ¬mmapThreshold ≤ 1 := by decide
  have alloc : Buddy.smalloc .malloc3 sampleOs 1 (World.start fun _ => 0).st = some (userPtr x, s) := by
    simp only [smalloc_eq, if_neg ok, Buddy.allocate, World.start, boot, Option.bind_eq_bind, Option.bind_some,
      if_neg small, block, Option.map_some]
  have first := (Reachable.start fun _ => 0).step (⟨sound, by decide⟩ : Permitted .malloc3 _ sampleOs (.smalloc 1))
    (exec_smalloc alloc)
  have init' : s.initialized = true := same.initialized.trans init
  have sound' : Sound sampleOs s := ⟨sound.page, fresh.congr same, fun none => by
    rw [init'] at none
    exact Bool.noConfusion none⟩
  obtain ⟨B, M, inv', -⟩ := first.good fun _ _ _ ok => ok
  obtain ⟨y, s₂, B₂, t, B₃, M₃, run, -, -, -, req⟩ := inv'.smalloc sound' .malloc3 (by decide : ¬Refused 200000)
  have answer : sampleOs.mmap false (reserved .malloc3 sampleOs (decide (hugepageSmalloc ≤ 200000)) 200000) ≠ none := by
    decide
  have notNull : userPtr y ≠ 0 := fun null => answer (req.map (by decide) (userPtr_eq_zero.mp null))
  have second := exec_smalloc run
  exact ⟨_, _, _, first, init', second, notNull, sfree_undoes_smalloc first init' sound' second notNull⟩

end OsProjects.Malloc.Buddy
