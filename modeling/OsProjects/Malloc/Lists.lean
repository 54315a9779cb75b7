import OsProjects.Malloc.HeapInv

/-!
# The free-list primitives on whole lists

`FreeList` says what `fl_insert` and `fl_remove` do to the links of the single blocks.
Here the lists are read off: `HasFreeList A k l s` says that the list of order `k` is the
ascending list `l`. Inserting adds a block to it, removing takes one out, and removing
what was inserted brings the list back with all its links. A list that starts elsewhere
stays as it is, unless the inserted block is on it: a block has one pair of links.
-/

namespace OsProjects.Malloc.Buddy

open Links

variable {A S S' : Set Nat} {s s' : State} {k m p x : Nat} {l l' : List Nat}

/-- The list at `p` is `l`: read along `next` it has just these blocks, each points back
at the one before, and nothing is before the first one or behind the last one. -/
def State.IsList (s : State) (p : Nat) (l : List Nat) : Prop := Dll s.next s.prev 0 0 p l

/-- A heap with its blocks at `A`, whose list of order `k` is the ascending list `l`. -/
structure HasFreeList (A : Set Nat) (k : Nat) (l : List Nat) (s : State) : Prop where
  places : Places A
  within : ∀ x ∈ l, x ∈ A
  list : s.IsList (s.freeLists k) l
  ascending : l.Pairwise (· < ·)

/-- A list of the heap, wherever its head is kept, that is not the list of order `k`. -/
structure AnotherList (A : Set Nat) (k p : Nat) (l : List Nat) (s : State) : Prop where
  within : ∀ x ∈ l, x ∈ A
  list : s.IsList p l
  elsewhere : p = 0 ∨ p ≠ s.freeLists k

/-- What stays when the list `l` of order `k` gains or loses a block: the sizes, the heads of
the other lists, the links of all blocks but those of `l` and `taken`, and so every other
list without a block of `taken`. -/
structure KeepsOthers (A : Set Nat) (k : Nat) (l : List Nat) (taken : Set Nat) (s s' : State) : Prop where
  size : ∀ x ∈ A, s'.size x = s.size x
  heads : ∀ j, j ≠ k → s'.freeLists j = s.freeLists j
  mmapList : s'.mmapList = s.mmapList
  links : ∀ x ∈ A, x ∉ l → x ∉ taken → s'.next x = s.next x ∧ s'.prev x = s.prev x
  lists : ∀ p l', AnotherList A k p l' s → (∀ x ∈ l', x ∉ taken) → s'.IsList p l'

/-- The list of order `k` is `l` as it was in `s`, with all its links. -/
structure Restores (A : Set Nat) (k : Nat) (l : List Nat) (s s' : State) : Prop where
  head : s'.freeLists k = s.freeLists k
  list : HasFreeList A k l s'
  links : ∀ x ∈ l, s'.next x = s.next x ∧ s'.prev x = s.prev x

/-- `m` is put on the list `l` of order `k`. -/
structure Inserts (A : Set Nat) (k m : Nat) (l : List Nat) (s s' : State) : Prop where
  list : ∃ l', HasFreeList A k l' s' ∧ ∀ x, x ∈ l' ↔ x = m ∨ x ∈ l
  free : s'.isFree m = true
  undone : Restores A k l s (flRemove k m s')
  keeps : KeepsOthers A k l {m} s s'

/-- `m` is taken off the list `l` of order `k`. -/
structure Removes (A : Set Nat) (k m : Nat) (l : List Nat) (s s' : State) : Prop where
  list : HasFreeList A k (l.erase m) s'
  keeps : KeepsOthers A k l ∅ s s'

/-! ## The two views of a list -/

/-- The nodes of the list, each by itself. -/
theorem HasFreeList.linked (h : HasFreeList A k l s) : Linked s.next s.prev 0 {x | x ∈ l} ∧
    Heads s.prev 0 {x | x ∈ l} (s.freeLists k) ∧ Covers s.prev 0 {x | x ∈ l} (s.freeLists k) := by
  apply h.list.linked h.ascending
  exact fun x => Iff.rfl

/-- The list read off at the head of linked nodes. -/
theorem HasFreeList.of_linked (places : Places A) (sub : S ⊆ A) (linked : Linked s.next s.prev 0 S)
    (heads : Heads s.prev 0 S (s.freeLists k)) (chain : Chain s.next 0 (s.freeLists k) l)
    (ascending : l.Pairwise (· < ·)) (all : ∀ x ∈ l, x ∈ S) : HasFreeList A k l s where
  places := places
  within x hx := sub (all x hx)
  list := linked.dll heads chain all
  ascending := ascending

/-- The list that is left behind by a change of nodes. -/
theorem Relinks.hasFreeList (r : Relinks A k S S' s s') (places : Places A) (sub : S' ⊆ A) (fin : S'.Finite)
    (covers : Covers s.prev 0 S (s.freeLists k)) : ∃ l', HasFreeList A k l' s' ∧ ∀ x, x ∈ l' ↔ x ∈ S' := by
  obtain ⟨l', chain, ascending, all⟩ := r.linked.list_of_covers fin r.heads (r.covers covers)
  refine ⟨l', ?_, all⟩
  apply HasFreeList.of_linked places sub r.linked r.heads chain ascending
  exact fun x hx => (all x).mp hx

/-- An ascending list without one of its blocks. -/
theorem HasFreeList.eq_erase (h : HasFreeList A k l s) (h' : HasFreeList A k l' s')
    (all : ∀ x, x ∈ l' ↔ x ∈ l ∧ x ≠ m) : l' = l.erase m := by
  have nodup : l.Nodup := h.ascending.imp fun lt => lt.ne
  apply h'.ascending.eq_of_mem_iff (h.ascending.sublist List.erase_sublist)
  intro x
  rw [all x, nodup.mem_erase_iff, and_comm]

/-- Lists that start at different blocks have no block in common. -/
theorem AnotherList.notMem (h : AnotherList A k p l' s) (h' : HasFreeList A k l s) (hx : x ∈ l') : x ∉ l := by
  intro both
  rcases h.elsewhere with null | ne
  · have top := (h.list.head_mem (List.ne_nil_of_mem hx)).1
    exact h.list.ne_null top null
  · exact ne (h.list.head_eq h'.list hx both)

/-- Changing the nodes of the list leaves the rest of the heap alone. -/
theorem Relinks.keepsOthers {taken : Set Nat} (r : Relinks A k {x | x ∈ l} S' s s') (h : HasFreeList A k l s)
    (sub : ∀ x ∈ S', x ∈ l ∨ x ∈ taken) : KeepsOthers A k l taken s s' := by
  have links : ∀ x ∈ A, x ∉ l → x ∉ taken → s'.next x = s.next x ∧ s'.prev x = s.prev x := by
    intro x hx notMem out
    have out' : x ∉ S' := fun mem => (sub x mem).elim notMem out
    exact ⟨r.next x hx notMem out', r.prev x hx notMem out'⟩
  refine ⟨r.size, r.lists, r.mmapList, links, ?_⟩
  intro p l' other out
  apply other.list.congr
  · intro x hx
    exact (links x (other.within x hx) (other.notMem h hx) (out x hx)).1
  · intro x hx
    exact (links x (other.within x hx) (other.notMem h hx) (out x hx)).2

/-! ## The primitives -/

/-- **`fl_remove` of a block of the list.** -/
theorem HasFreeList.flRemove_removes (h : HasFreeList A k l s) (hm : m ∈ l) : Removes A k m l s (flRemove k m s) := by
  obtain ⟨linked, heads, covers⟩ := h.linked
  obtain ⟨r, -⟩ := flRemove_relinks (S := {x | x ∈ l}) h.places h.within linked heads hm
  have fin : ({x | x ∈ l} \ {m} : Set Nat).Finite := l.finite_toSet.subset Set.sdiff_subset
  obtain ⟨l', list, all⟩ := r.hasFreeList h.places (fun x hx => h.within x hx.1) fin covers
  constructor
  · obtain rfl := h.eq_erase list all
    exact list
  · apply r.keepsOthers h
    exact fun x hx => .inl hx.1

/-- **`fl_insert` of a block that is not on the list.** -/
theorem HasFreeList.flInsert_inserts (h : HasFreeList A k l s) (hm : m ∈ A) (fresh : m ∉ l) :
    ∃ s', flInsert k m s = some s' ∧ Inserts A k m l s s' := by
  obtain ⟨linked, heads, covers⟩ := h.linked
  obtain ⟨s', run, r, free⟩ := flInsert_relinks (S := {x | x ∈ l}) h.places h.within linked heads hm fresh
  have sub : insert m {x | x ∈ l} ⊆ A := Set.insert_subset hm h.within
  obtain ⟨l', list, all⟩ := r.hasFreeList h.places sub (l.finite_toSet.insert m) covers
  refine ⟨s', run, ⟨l', list, all⟩, ?_, ?_, ?_⟩
  · rw [free m hm, if_pos rfl]
  · have removes := list.flRemove_removes ((all m).mpr (.inl rfl))
    have same : l = l'.erase m := by
      apply list.eq_erase h
      intro x
      rw [all x, Set.mem_insert_iff]
      constructor
      · exact fun hx => ⟨.inr hx, fun e => fresh (e ▸ hx)⟩
      · exact fun hx => hx.1.resolve_left hx.2
    have back : HasFreeList A k l (flRemove k m s') := same ▸ removes.list
    -- the list alone determines its head and its links
    obtain ⟨head, links⟩ := h.list.links_eq back.list
    exact ⟨head, back, links⟩
  · apply r.keepsOthers h
    exact fun x hx => hx.symm

/-- **The free-list primitives.** -/
theorem freeList_primitives (h : HasFreeList A k l s) :
    (∀ m ∈ A, m ∉ l → ∃ s', flInsert k m s = some s' ∧ Inserts A k m l s s') ∧
      ∀ m ∈ l, Removes A k m l s (flRemove k m s) := by
  constructor
  · intro m hm fresh
    exact h.flInsert_inserts hm fresh
  · intro m hm
    exact h.flRemove_removes hm

/-! ## A heap with two lists -/

/-- Three blocks of 512 bytes, the outer two free. -/
def sampleBlocks : List Nat := [4194304, 4194816, 4195328]

/-- Their metadata: the two free blocks are linked. -/
def sampleMem : Mem :=
  let mem : Mem := fun _ => 0
  let mem := (mem.setSize 4194304 512).setIsFree 4194304 true
  let mem := mem.setSize 4194816 512
  let mem := (mem.setSize 4195328 512).setIsFree 4195328 true
  (mem.setNext 4194304 4195328).setPrev 4195328 4194304

/-- The free blocks are on the list of order 2, and the other lists are empty. -/
def sampleLists : State where
  mem := sampleMem
  freeLists := Function.update (fun _ => 0) 2 4194304
  mmapList := 0
  heapBase := 4194304
  initialized := true
  mapped := []

theorem sampleBlocks_places : Places {x | x ∈ sampleBlocks} where
  slots := by
    have apart : ∀ p ∈ sampleBlocks, ∀ q ∈ sampleBlocks, p = q ∨ p + metaSize ≤ q ∨ q + metaSize ≤ p := by decide
    exact apart
  pos := show ∀ x ∈ sampleBlocks, x ≠ 0 by decide
  lt := show ∀ x ∈ sampleBlocks, x < 2 ^ 64 by decide

theorem sampleLists_list : sampleLists.IsList 4194304 [4194304, 4195328] := by
  have first : sampleLists.next 4194304 = 4195328 := by decide +kernel
  have top : sampleLists.prev 4194304 = 0 := by decide +kernel
  have back : sampleLists.prev 4195328 = 4194304 := by decide +kernel
  have last : sampleLists.next 4195328 = 0 := by decide +kernel
  exact ⟨rfl, by decide, top, first, by decide, back, last⟩

theorem sampleLists_hasFreeList : HasFreeList {x | x ∈ sampleBlocks} 2 [4194304, 4195328] sampleLists where
  places := sampleBlocks_places
  within := show ∀ x ∈ [4194304, 4195328], x ∈ sampleBlocks by decide
  list := sampleLists_list
  ascending := by decide

theorem freeList_primitives_two :
    (∀ m ∈ {x | x ∈ sampleBlocks}, m ∉ [4194304, 4195328] →
      ∃ s', flInsert 2 m sampleLists = some s' ∧
        Inserts {x | x ∈ sampleBlocks} 2 m [4194304, 4195328] sampleLists s') ∧
      ∀ m ∈ [4194304, 4195328],
        Removes {x | x ∈ sampleBlocks} 2 m [4194304, 4195328] sampleLists (flRemove 2 m sampleLists) :=
  freeList_primitives sampleLists_hasFreeList

/-- **A block that is on another list is taken over**: the rest of that list is lost. -/
theorem flInsert_takes_over : ¬∀ (A : Set Nat) (k m : Nat) (l : List Nat) (s s' : State), HasFreeList A k l s →
    m ∈ A → m ∉ l → flInsert k m s = some s' →
      ∀ j l', j ≠ k → AnotherList A k (s.freeLists j) l' s → s'.IsList (s'.freeLists j) l' := by
  intro claim
  have empty : HasFreeList {x | x ∈ sampleBlocks} 0 [] sampleLists := by
    refine ⟨sampleBlocks_places, ?_, rfl, List.Pairwise.nil⟩
    exact fun x hx => absurd hx List.not_mem_nil
  have other : AnotherList {x | x ∈ sampleBlocks} 0 4194304 [4194304, 4195328] sampleLists := by
    refine ⟨sampleLists_hasFreeList.within, sampleLists_list, .inr ?_⟩
    decide
  have kept := claim _ 0 4194304 [] sampleLists (linkFront 0 4194304 sampleLists) empty (by decide) List.not_mem_nil
    (flInsert_front (.inl rfl)) 2 [4194304, 4195328] (by decide) other
  -- the block has no successor any more
  have next : (linkFront 0 4194304 sampleLists).next 4194304 = 4195328 := kept.2.2.2.1
  have lost : (linkFront 0 4194304 sampleLists).next 4194304 = 0 := by decide +kernel
  rw [lost] at next
  exact absurd next (by decide)

/-! ## In the allocator's heap -/

namespace HeapInv

variable {listed : Prop} {hi : Nat} {B D : Set Nat}

/-- **Every list of the allocator is such a list**, of free blocks of its order, whether or
not it has lost some of them. -/
theorem hasFreeList (h : HeapInv listed s hi B D) (k : Nat) :
    ∃ l, HasFreeList B k l s ∧ ∀ x ∈ l, x ∈ FreeOf s B D k := by
  have fin : (FreeOf s B D k).Finite := h.tiles.finite.subset (freeOf_sub s B D k)
  obtain ⟨l, chain, ascending, all⟩ := (h.linked k).list_of_heads fin (h.heads k)
  exact ⟨l, .of_linked h.places (freeOf_sub s B D k) (h.linked k) (h.heads k) chain ascending all, all⟩

/-- A complete list has all of them. -/
theorem completeList (h : HeapInv True s hi B D) (k : Nat) :
    ∃ l, HasFreeList B k l s ∧ ∀ x, x ∈ l ↔ x ∈ FreeOf s B D k := by
  have fin : (FreeOf s B D k).Finite := h.tiles.finite.subset (freeOf_sub s B D k)
  obtain ⟨l, chain, ascending, all⟩ := (h.linked k).list_of_covers fin (h.heads k) (h.covers trivial k)
  refine ⟨l, ?_, all⟩
  apply HasFreeList.of_linked h.places (freeOf_sub s B D k) (h.linked k) (h.heads k) chain ascending
  exact fun x hx => (all x).mp hx

/-- A complete list of free blocks has a head. -/
theorem top_ne_zero (h : HeapInv True s hi B D) (hx : x ∈ FreeOf s B D k) : s.freeLists k ≠ 0 := by
  intro zero
  obtain ⟨l, list, all⟩ := h.completeList k
  have top := (list.list.head_mem (List.ne_nil_of_mem ((all x).mpr hx))).1
  exact list.list.ne_null top zero

/-- The lists of two orders are different lists. -/
theorem anotherList (h : HeapInv listed s hi B D) {j : Nat} (ne : j ≠ k) (isList : s.IsList (s.freeLists j) l) :
    AnotherList B k (s.freeLists j) l s ∧ ∀ x ∈ l, x ∈ FreeOf s B D j := by
  obtain ⟨lj, list, free⟩ := h.hasFreeList j
  obtain rfl : lj = l := list.list.chain.unique isList.chain
  refine ⟨⟨list.within, isList, ?_⟩, free⟩
  by_contra same
  rw [not_or, not_not] at same
  obtain ⟨ne0, same⟩ := same
  -- a common head would be a block of two sizes
  obtain ⟨lk, list', free'⟩ := h.hasFreeList k
  have mem := (isList.head_mem (isList.ne_nil ne0)).1
  have mem' := (list'.list.head_mem (list'.list.ne_nil (same ▸ ne0))).1
  rw [← same] at mem'
  exact freeOf_disjoint ne (free _ mem) (free' _ mem')

/-- **A block in hand is on no list**, so putting it on one keeps all the others. -/
theorem flInsert_keeps (h : HeapInv listed s hi B D) (hm : m ∈ D) (k : Nat) : ∃ s', flInsert k m s = some s' ∧
    ∀ j, j ≠ k → ∀ l, s.IsList (s.freeLists j) l → s'.IsList (s'.freeLists j) l := by
  obtain ⟨lk, list, free⟩ := h.hasFreeList k
  have fresh : m ∉ lk := fun mem => (free m mem).2.1 hm
  obtain ⟨s', run, inserts⟩ := list.flInsert_inserts (h.held hm) fresh
  refine ⟨s', run, ?_⟩
  intro j ne l isList
  obtain ⟨other, free'⟩ := h.anotherList ne isList
  rw [inserts.keeps.heads j ne]
  apply inserts.keeps.lists _ _ other
  intro x hx taken
  rw [Set.mem_singleton_iff.mp taken] at hx
  exact (free' m hx).2.1 hm

end HeapInv

end OsProjects.Malloc.Buddy
