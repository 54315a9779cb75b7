import OsProjects.Lib.Links
import OsProjects.Malloc.Buddy

/-!
# The free-list primitives

What `fl_insert` and `fl_remove` do to the headers of a set `A` of blocks that do
not overlap, and that they keep the nodes `S` of the order's list linked. The
list may have lost nodes: `S` is only required to be locally linked, which is
what `buddy_alloc` leaves behind. Unlinking a node that is on no list clears the
head of the list (`flRemove_stray`).
-/

namespace OsProjects.Malloc.Buddy

open Links

/-- `m->next` in state `s`. -/
abbrev State.next (s : State) (m : Nat) : Nat := (s.mem.header m).next

/-- `m->prev` in state `s`. -/
abbrev State.prev (s : State) (m : Nat) : Nat := (s.mem.header m).prev

/-- `m->size` in state `s`. -/
abbrev State.size (s : State) (m : Nat) : Nat := (s.mem.header m).size

/-- `m->is_free` in state `s`. -/
abbrev State.isFree (s : State) (m : Nat) : Bool := (s.mem.header m).isFree

/-- `m->is_mmap` in state `s`. -/
abbrev State.isMmap (s : State) (m : Nat) : Bool := (s.mem.header m).isMmap

/-- The list of order `k` changes its nodes from `S` to `S'`, and nothing else
changes but the links of these nodes. -/
structure Relinks (A : Set Nat) (k : Nat) (S S' : Set Nat) (s s' : State) : Prop where
  touches : Mem.Touches (metaRanges A) s.mem s'.mem
  size : ∀ x ∈ A, s'.size x = s.size x
  isMmap : ∀ x ∈ A, s'.isMmap x = s.isMmap x
  next : ∀ x ∈ A, x ∉ S → x ∉ S' → s'.next x = s.next x
  prev : ∀ x ∈ A, x ∉ S → x ∉ S' → s'.prev x = s.prev x
  lists : ∀ j, j ≠ k → s'.freeLists j = s.freeLists j
  mmapList : s'.mmapList = s.mmapList
  heapBase : s'.heapBase = s.heapBase
  initialized : s'.initialized = s.initialized
  mapped : s'.mapped = s.mapped
  linked : Linked s'.next s'.prev 0 S'
  heads : Heads s'.prev 0 S' (s'.freeLists k)
  covers : Covers s.prev 0 S (s.freeLists k) → Covers s'.prev 0 S' (s'.freeLists k)

variable {A S : Set Nat} {s : State} {k m cur : Nat}

/-- A block off the list is none of its links. -/
theorem ne_link {x y : Nat} (hA : Places A) (hx : x ∈ A) (out : x ∉ S) (link : y = 0 ∨ y ∈ S) : x ≠ y := by
  rintro rfl
  rcases link with null | mem
  · exact hA.pos x hx null
  · exact out mem

/-! ## Unlinking -/

section Unlink

variable (hA : Places A) (hm : m ∈ A) (hprev : s.prev m = 0 ∨ s.prev m ∈ A)
  (hnext : s.next m = 0 ∨ s.next m ∈ A) (nePrev : s.prev m ≠ m)
include hA hm hprev nePrev

/-- The memory after the first store of `fl_remove`, `m->prev->next = m->next`. -/
def bypassNext (m : Nat) (s : State) : Mem :=
  if s.prev m ≠ 0 then s.mem.setNext (s.prev m) (s.next m) else s.mem

omit hm nePrev in
theorem bypassNext_header {x : Nat} (hx : x ∈ A) : (bypassNext m s).header x =
    { s.mem.header x with next := if x = s.prev m then s.next m else s.next x } := by
  unfold bypassNext
  by_cases e : s.prev m = 0
  · rw [if_neg (not_not.mpr e), if_neg (e ▸ hA.pos x hx)]
  · rw [if_pos e, hA.slots.header_setNext hx (hprev.resolve_left e), Nat.mod_eq_of_lt (Mem.header_next_lt _ _)]
    split_ifs <;> rfl

/-- `fl_remove` reads the links of `m` after its first store, which has not
changed them. -/
theorem flRemove_mem : (flRemove k m s).mem =
    ((if s.next m ≠ 0 then (bypassNext m s).setPrev (s.next m) (s.prev m) else bypassNext m s).setPrev
      m 0).setNext m 0 := by
  have self : (bypassNext m s).header m = s.mem.header m := by
    rw [bypassNext_header hA hprev hm, if_neg (Ne.symm nePrev)]
  unfold flRemove
  unfold bypassNext at self ⊢
  by_cases e : s.prev m = 0
  · simp only [e, ne_eq, not_true_eq_false, if_false]
  · rw [if_pos e] at self
    simp only [e, self, ne_eq, not_false_eq_true, if_true]

include hnext

theorem flRemove_header {x : Nat} (hx : x ∈ A) : (flRemove k m s).mem.header x =
    { s.mem.header x with
      next := if x = m then 0 else if x = s.prev m then s.next m else s.next x
      prev := if x = m then 0 else if x = s.next m then s.prev m else s.prev x } := by
  rw [flRemove_mem hA hm hprev nePrev, hA.slots.header_setNext hx hm, hA.slots.header_setPrev hx hm]
  have first := bypassNext_header hA hprev hx
  by_cases e : s.next m = 0
  · have ne : x ≠ s.next m := e ▸ hA.pos x hx
    rw [if_neg (not_not.mpr e), first, if_neg ne]
    split_ifs <;> rfl
  · rw [if_pos e, hA.slots.header_setPrev hx (hnext.resolve_left e), first,
      Nat.mod_eq_of_lt (Mem.header_prev_lt _ _)]
    split_ifs <;> rfl

theorem flRemove_touches : Mem.Touches (metaRanges A) s.mem (flRemove k m s).mem := by
  rw [flRemove_mem hA hm hprev nePrev]
  have first : Mem.Touches (metaRanges A) s.mem (bypassNext m s) := by
    unfold bypassNext
    split_ifs with e
    · exact Mem.touches_setNext (hprev.resolve_left e)
    · exact Mem.Touches.refl _ _
  have second : Mem.Touches (metaRanges A) (bypassNext m s)
      (if s.next m ≠ 0 then (bypassNext m s).setPrev (s.next m) (s.prev m) else bypassNext m s) := by
    split_ifs with e
    · exact Mem.touches_setPrev (hnext.resolve_left e)
    · exact Mem.Touches.refl _ _
  exact ((first.trans second).trans (Mem.touches_setPrev hm)).trans (Mem.touches_setNext hm)

end Unlink

theorem flRemove_freeLists (k m : Nat) (s : State) : (flRemove k m s).freeLists =
    if s.prev m = 0 then Function.update s.freeLists k (s.next m) else s.freeLists := by
  unfold flRemove
  by_cases e : s.prev m = 0 <;> simp [e]

@[simp] theorem flRemove_mmapList (k m : Nat) (s : State) : (flRemove k m s).mmapList = s.mmapList := by
  unfold flRemove
  by_cases e : s.prev m = 0 <;> simp [e]

@[simp] theorem flRemove_heapBase (k m : Nat) (s : State) : (flRemove k m s).heapBase = s.heapBase := by
  unfold flRemove
  by_cases e : s.prev m = 0 <;> simp [e]

@[simp] theorem flRemove_initialized (k m : Nat) (s : State) :
    (flRemove k m s).initialized = s.initialized := by
  unfold flRemove
  by_cases e : s.prev m = 0 <;> simp [e]

@[simp] theorem flRemove_mapped (k m : Nat) (s : State) : (flRemove k m s).mapped = s.mapped := by
  unfold flRemove
  by_cases e : s.prev m = 0 <;> simp [e]

/-- **Unlinking a node of the list.** -/
theorem flRemove_relinks (hA : Places A) (sub : S ⊆ A) (linked : Linked s.next s.prev 0 S)
    (heads : Heads s.prev 0 S (s.freeLists k)) (hm : m ∈ S) :
    Relinks A k S (S \ {m}) s (flRemove k m s) ∧ (∀ x ∈ A, (flRemove k m s).isFree x = s.isFree x) ∧
      (flRemove k m s).next m = 0 ∧ (flRemove k m s).prev m = 0 := by
  have hprev : s.prev m = 0 ∨ s.prev m ∈ S := or_iff_not_imp_left.mpr (linked.prev_mem m hm)
  have hnext : s.next m = 0 ∨ s.next m ∈ S := or_iff_not_imp_left.mpr (linked.next_mem m hm)
  have nePrev : s.prev m ≠ m := by
    by_cases e : s.prev m = 0
    · exact e ▸ (hA.pos m (sub hm)).symm
    · exact linked.prev_ne_self hm e
  have hdr : ∀ x ∈ A, _ := fun x hx => flRemove_header (k := k) hA (sub hm) (hprev.imp_right (@sub _))
    (hnext.imp_right (@sub _)) nePrev hx
  have hn : ∀ x ∈ S \ {m}, (flRemove k m s).next x = if x = s.prev m then s.next m else s.next x :=
    fun x hx => by
      rw [State.next, hdr x (sub hx.1)]
      exact if_neg hx.2
  have hp : ∀ x ∈ S \ {m}, (flRemove k m s).prev x = if x = s.next m then s.prev m else s.prev x :=
    fun x hx => by
      rw [State.prev, hdr x (sub hx.1)]
      exact if_neg hx.2
  have head : (flRemove k m s).freeLists k = if s.prev m = 0 then s.next m else s.freeLists k := by
    rw [flRemove_freeLists]
    split_ifs <;> simp
  have off : ∀ x ∈ A, x ∉ S → x ∉ S \ {m} → x ≠ m ∧ x ≠ s.prev m ∧ x ≠ s.next m := by
    intro x hx out _
    exact ⟨ne_link hA hx out (.inr hm), ne_link hA hx out hprev, ne_link hA hx out hnext⟩
  refine ⟨?_, ?_, ?_, ?_⟩
  · constructor
    · exact flRemove_touches hA (sub hm) (hprev.imp_right (@sub _)) (hnext.imp_right (@sub _)) nePrev
    · exact fun x hx => by rw [State.size, hdr x hx]
    · exact fun x hx => by rw [State.isMmap, hdr x hx]
    · intro x hx out out'
      obtain ⟨e, e', -⟩ := off x hx out out'
      rw [State.next, hdr x hx]
      simp only [if_neg e, if_neg e']
    · intro x hx out out'
      obtain ⟨e, -, e'⟩ := off x hx out out'
      rw [State.prev, hdr x hx]
      simp only [if_neg e, if_neg e']
    · intro j ne
      rw [flRemove_freeLists]
      split_ifs <;> simp [ne]
    · exact flRemove_mmapList k m s
    · exact flRemove_heapBase k m s
    · exact flRemove_initialized k m s
    · exact flRemove_mapped k m s
    · exact linked.unlink hm hn hp
    · rw [head]
      exact Heads.unlink linked hm hp heads
    · rw [head]
      exact fun c => c.unlink hm hp
  · exact fun x hx => by rw [State.isFree, hdr x hx]
  · rw [State.next, hdr m (sub hm)]
    exact if_pos rfl
  · rw [State.prev, hdr m (sub hm)]
    exact if_pos rfl

/-- **Unlinking a node that is on no list**: the head pointer is lost. -/
theorem flRemove_stray (hA : Places A) (hm : m ∈ A)
    (next : s.next m = 0) (prev : s.prev m = 0) (k : Nat) :
    (∀ x ∈ A, (flRemove k m s).mem.header x = s.mem.header x) ∧
      Mem.Touches (metaRanges A) s.mem (flRemove k m s).mem ∧
      (flRemove k m s).freeLists = Function.update s.freeLists k 0 := by
  have ne : (0 : Nat) ≠ m := (hA.pos m hm).symm
  refine ⟨fun x hx => ?_, ?_, ?_⟩
  · rw [flRemove_header hA hm (.inl prev) (.inl next) (prev ▸ ne) hx, prev, next]
    have ne0 := hA.pos x hx
    by_cases e : x = m
    · subst e
      rw [if_pos rfl, if_pos rfl]
      nth_rewrite 1 [← next]
      rw [← prev]
    · rw [if_neg e, if_neg e, if_neg ne0, if_neg ne0]
  · exact flRemove_touches hA hm (.inl prev) (.inl next) (prev ▸ ne)
  · rw [flRemove_freeLists, if_pos prev, next]

/-! ## Linking in -/

/-- The search stops at the last node below `m`. The induction is on the distance
from the node to `m`. -/
theorem flSeek_spec (mem : Mem) (prev : Nat → Nat) (linked : Linked (fun x => (mem.header x).next) prev 0 S)
    (hcur : cur ∈ S) (lt : cur < m) :
    ∃ c, flSeek mem m cur = some c ∧ c ∈ S ∧ c < m ∧ ((mem.header c).next ≠ 0 → m ≤ (mem.header c).next) := by
  generalize hn : m - cur = n
  induction n using Nat.strongRecOn generalizing cur with
  | ind n ih =>
    rw [flSeek]
    by_cases go : (mem.header cur).next ≠ 0 ∧ (mem.header cur).next < m
    · have up := linked.lt_next cur hcur go.1
      rw [if_pos go]
      exact ih _ (by omega) (linked.next_mem cur hcur go.1) go.2 rfl
    · rw [if_neg go]
      exact ⟨cur, rfl, hcur, lt, fun e => not_lt.mp fun lt' => go ⟨e, lt'⟩⟩

/-- The memory after the first three stores of `fl_insert`. -/
def detach (m : Nat) (mem : Mem) : Mem := ((mem.setIsFree m true).setNext m 0).setPrev m 0

theorem detach_header (hA : Places A) (hm : m ∈ A) {mem : Mem} {x : Nat} (hx : x ∈ A) :
    (detach m mem).header x =
      if x = m then { mem.header x with isFree := true, next := 0, prev := 0 } else mem.header x := by
  rw [detach, hA.slots.header_setPrev hx hm, hA.slots.header_setNext hx hm, hA.slots.header_setIsFree hx hm]
  split_ifs <;> rfl

/-- These stores leave the nodes of the list alone. -/
theorem detach_header_of_mem (hA : Places A) (sub : S ⊆ A) (hm : m ∈ A) (fresh : m ∉ S) (mem : Mem) {x : Nat}
    (hx : x ∈ S) : (detach m mem).header x = mem.header x := by
  have ne : x ≠ m := fun e => fresh (e ▸ hx)
  rw [detach_header hA hm (sub hx), if_neg ne]

theorem detach_touches (hm : m ∈ A) (mem : Mem) : Mem.Touches (metaRanges A) mem (detach m mem) :=
  ((Mem.touches_setIsFree hm).trans (Mem.touches_setNext hm)).trans (Mem.touches_setPrev hm)

/-- The state after `fl_insert` puts `m` before the head. -/
def linkFront (k m : Nat) (s : State) : State :=
  let head := s.freeLists k
  let mem := (detach m s.mem).setNext m head
  { s with mem := if head ≠ 0 then mem.setPrev head m else mem, freeLists := Function.update s.freeLists k m }

/-- The state after `fl_insert` puts `m` after `cur`. -/
def linkAfter (m cur : Nat) (s : State) : State :=
  let mem := detach m s.mem
  let mem := mem.setNext m (mem.header cur).next
  let mem := mem.setPrev m cur
  let mem := if (mem.header cur).next ≠ 0 then mem.setPrev (mem.header cur).next m else mem
  { s with mem := mem.setNext cur m }

theorem flInsert_front (h : s.freeLists k = 0 ∨ m < s.freeLists k) : flInsert k m s = some (linkFront k m s) :=
  if_pos h

theorem flInsert_after (h : ¬(s.freeLists k = 0 ∨ m < s.freeLists k))
    (seek : flSeek (detach m s.mem) m (s.freeLists k) = some cur) :
    flInsert k m s = some (linkAfter m cur s) := by
  unfold flInsert
  rw [if_neg h]
  change (flSeek (detach m s.mem) m (s.freeLists k)).bind _ = _
  rw [seek]
  rfl

theorem linkFront_header (hA : Places A) (hm : m ∈ A) (hhead : s.freeLists k = 0 ∨ s.freeLists k ∈ A)
    (ne : s.freeLists k ≠ m) {x : Nat} (hx : x ∈ A) : (linkFront k m s).mem.header x =
      { s.mem.header x with
        isFree := if x = m then true else s.isFree x
        next := if x = m then s.freeLists k else s.next x
        prev := if x = m then 0 else if x = s.freeLists k then m else s.prev x } := by
  unfold linkFront
  simp only
  by_cases e : s.freeLists k = 0
  · have neX : x ≠ s.freeLists k := e ▸ hA.pos x hx
    rw [if_neg (not_not.mpr e), if_neg neX, hA.slots.header_setNext hx hm, detach_header hA hm hx, e]
    split_ifs <;> rfl
  · have mem := hhead.resolve_left e
    rw [if_pos e, hA.slots.header_setPrev hx mem, hA.slots.header_setNext hx hm, detach_header hA hm hx,
      Nat.mod_eq_of_lt (hA.lt m hm), Nat.mod_eq_of_lt (hA.lt _ mem)]
    split_ifs <;> first | rfl | omega

theorem linkFront_touches (hm : m ∈ A) (hhead : s.freeLists k = 0 ∨ s.freeLists k ∈ A) :
    Mem.Touches (metaRanges A) s.mem (linkFront k m s).mem := by
  have first := (detach_touches hm s.mem).trans (Mem.touches_setNext (v := s.freeLists k) hm)
  unfold linkFront
  simp only
  split_ifs with e
  · exact first.trans (Mem.touches_setPrev (hhead.resolve_left e))
  · exact first

section After

variable (hA : Places A) (hm : m ∈ A) (hcur : cur ∈ A) (ne : cur ≠ m)
  (hsucc : s.next cur = 0 ∨ s.next cur ∈ A)
include hA hm hcur ne

/-- The successor of `cur` is read twice after stores to `m`, which do not change it. -/
theorem linkAfter_mem : (linkAfter m cur s).mem =
    (if s.next cur ≠ 0 then (((detach m s.mem).setNext m (s.next cur)).setPrev m cur).setPrev (s.next cur) m
      else ((detach m s.mem).setNext m (s.next cur)).setPrev m cur).setNext cur m := by
  have succ : (detach m s.mem).header cur = s.mem.header cur := by
    rw [detach_header hA hm hcur, if_neg ne]
  have again : (((detach m s.mem).setNext m (s.next cur)).setPrev m cur).header cur = s.mem.header cur := by
    rw [hA.slots.header_setPrev hcur hm, if_neg ne, hA.slots.header_setNext hcur hm, if_neg ne, succ]
  simp only [linkAfter, succ, again]

include hsucc

theorem linkAfter_header (neSucc : s.next cur ≠ m) {x : Nat} (hx : x ∈ A) : (linkAfter m cur s).mem.header x =
    { s.mem.header x with
      isFree := if x = m then true else s.isFree x
      next := if x = cur then m else if x = m then s.next cur else s.next x
      prev := if x = m then cur else if x = s.next cur then m else s.prev x } := by
  rw [linkAfter_mem hA hm hcur ne, hA.slots.header_setNext hx hcur, Nat.mod_eq_of_lt (hA.lt m hm)]
  by_cases e : s.next cur = 0
  · have neX : x ≠ s.next cur := e ▸ hA.pos x hx
    rw [if_neg (not_not.mpr e), hA.slots.header_setPrev hx hm, hA.slots.header_setNext hx hm,
      detach_header hA hm hx, Nat.mod_eq_of_lt (hA.lt cur hcur), Nat.mod_eq_of_lt (Mem.header_next_lt _ _), if_neg neX]
    split_ifs <;> rfl
  · rw [if_pos e, hA.slots.header_setPrev hx (hsucc.resolve_left e), hA.slots.header_setPrev hx hm,
      hA.slots.header_setNext hx hm, detach_header hA hm hx, Nat.mod_eq_of_lt (hA.lt cur hcur),
      Nat.mod_eq_of_lt (hA.lt m hm), Nat.mod_eq_of_lt (Mem.header_next_lt _ _)]
    split_ifs <;> first | rfl | omega

theorem linkAfter_touches : Mem.Touches (metaRanges A) s.mem (linkAfter m cur s).mem := by
  rw [linkAfter_mem hA hm hcur ne]
  have first := ((detach_touches hm s.mem).trans (Mem.touches_setNext (v := s.next cur) hm)).trans
    (Mem.touches_setPrev (v := cur) hm)
  split_ifs with e
  · exact (first.trans (Mem.touches_setPrev (hsucc.resolve_left e))).trans (Mem.touches_setNext hcur)
  · exact first.trans (Mem.touches_setNext hcur)

end After

section Insert

variable (hA : Places A) (sub : S ⊆ A) (linked : Linked s.next s.prev 0 S) (heads : Heads s.prev 0 S (s.freeLists k))
  (hm : m ∈ A) (fresh : m ∉ S)

include hA sub linked heads hm fresh

/-- A new head of the list. -/
theorem linkFront_relinks (front : s.freeLists k = 0 ∨ m < s.freeLists k) :
    Relinks A k S (insert m S) s (linkFront k m s) ∧
      ∀ x ∈ A, (linkFront k m s).isFree x = if x = m then true else s.isFree x := by
  have pos := hA.pos m hm
  have subM : insert m S ⊆ A := Set.insert_subset hm sub
  have headS : s.freeLists k = 0 ∨ s.freeLists k ∈ S := heads.imp_right And.left
  have headA : s.freeLists k = 0 ∨ s.freeLists k ∈ A := headS.imp_right (@sub _)
  have headNe : s.freeLists k ≠ m := (ne_link hA hm fresh headS).symm
  have outM : ∀ x, x ∉ insert m S → x ≠ m := fun x out e => out (e ▸ Set.mem_insert m S)
  have hdr : ∀ x ∈ A, _ := fun x hx => linkFront_header hA hm headA headNe hx
  have hn : ∀ x ∈ insert m S, (linkFront k m s).next x = if x = m then s.freeLists k else s.next x :=
    fun x hx => by rw [State.next, hdr x (subM hx)]
  have hp : ∀ x ∈ insert m S, (linkFront k m s).prev x =
      if x = m then 0 else if x = s.freeLists k then m else s.prev x :=
    fun x hx => by rw [State.prev, hdr x (subM hx)]
  have head : (linkFront k m s).freeLists k = m := by simp [linkFront]
  refine ⟨?_, fun x hx => by rw [State.isFree, hdr x hx]⟩
  constructor
  · exact linkFront_touches hm headA
  · exact fun x hx => by rw [State.size, hdr x hx]
  · exact fun x hx => by rw [State.isMmap, hdr x hx]
  · intro x hx _ out
    rw [State.next, hdr x hx]
    exact if_neg (outM x out)
  · intro x hx out out'
    have neHead : x ≠ s.freeLists k := ne_link hA hx out headS
    rw [State.prev, hdr x hx]
    simp only [if_neg (outM x out'), if_neg neHead]
  · exact fun j ne => by simp [linkFront, ne]
  · rfl
  · rfl
  · rfl
  · rfl
  · exact linked.insert_front heads fresh hn hp pos fun e => front.resolve_left e
  · rw [head]
    exact .inr ⟨Set.mem_insert m S, by rw [hp m (Set.mem_insert m S), if_pos rfl]⟩
  · rw [head]
    exact fun c => c.insert_front pos hp

/-- A new node behind `cur`. -/
theorem linkAfter_relinks (hcur : cur ∈ S) (lt : cur < m) (gt : s.next cur ≠ 0 → m ≤ s.next cur) :
    Relinks A k S (insert m S) s (linkAfter m cur s) ∧
      ∀ x ∈ A, (linkAfter m cur s).isFree x = if x = m then true else s.isFree x := by
  have pos := hA.pos m hm
  have subM : insert m S ⊆ A := Set.insert_subset hm sub
  have outM : ∀ x, x ∉ insert m S → x ≠ m := fun x out e => out (e ▸ Set.mem_insert m S)
  have ne : cur ≠ m := lt.ne
  have hsucc : s.next cur = 0 ∨ s.next cur ∈ S := or_iff_not_imp_left.mpr (linked.next_mem cur hcur)
  have succNe : s.next cur ≠ m := (ne_link hA hm fresh hsucc).symm
  have hsucc' : s.next cur = 0 ∨ s.next cur ∈ A := hsucc.imp_right (@sub _)
  have hdr : ∀ x ∈ A, _ := fun x hx => linkAfter_header hA hm (sub hcur) ne hsucc' succNe hx
  have hn : ∀ x ∈ insert m S, (linkAfter m cur s).next x =
      if x = cur then m else if x = m then s.next cur else s.next x :=
    fun x hx => by rw [State.next, hdr x (subM hx)]
  have hp : ∀ x ∈ insert m S, (linkAfter m cur s).prev x =
      if x = m then cur else if x = s.next cur then m else s.prev x :=
    fun x hx => by rw [State.prev, hdr x (subM hx)]
  have gt' : s.next cur ≠ 0 → m < s.next cur := fun e => lt_of_le_of_ne (gt e) succNe.symm
  refine ⟨?_, fun x hx => by rw [State.isFree, hdr x hx]⟩
  constructor
  · exact linkAfter_touches hA hm (sub hcur) ne hsucc'
  · exact fun x hx => by rw [State.size, hdr x hx]
  · exact fun x hx => by rw [State.isMmap, hdr x hx]
  · intro x hx out out'
    have neCur : x ≠ cur := fun e => out (e ▸ hcur)
    rw [State.next, hdr x hx]
    simp only [if_neg (outM x out'), if_neg neCur]
  · intro x hx out out'
    have neSucc : x ≠ s.next cur := ne_link hA hx out hsucc
    rw [State.prev, hdr x hx]
    simp only [if_neg (outM x out'), if_neg neSucc]
  · exact fun j _ => rfl
  · rfl
  · rfl
  · rfl
  · rfl
  · exact linked.insert_after hcur fresh hn hp pos lt gt'
  · exact heads.insert_after linked hcur fresh hp
  · exact fun c => c.insert_after linked hcur pos hp

/-- **Linking a block into the list.** -/
theorem flInsert_relinks : ∃ s', flInsert k m s = some s' ∧ Relinks A k S (insert m S) s s' ∧
    ∀ x ∈ A, s'.isFree x = if x = m then true else s.isFree x := by
  by_cases front : s.freeLists k = 0 ∨ m < s.freeLists k
  · exact ⟨_, flInsert_front front, linkFront_relinks hA sub linked heads hm fresh front⟩
  · have notFront := front
    rw [not_or, not_lt] at front
    obtain ⟨ne0, le⟩ := front
    obtain ⟨headS, -⟩ := heads.resolve_left ne0
    have headNe : s.freeLists k ≠ m := fun e => fresh (e ▸ headS)
    have same : ∀ x ∈ S, (detach m s.mem).header x = s.mem.header x := fun x hx =>
      detach_header_of_mem hA sub hm fresh s.mem hx
    obtain ⟨cur, seek, hcur, lt, gt⟩ := flSeek_spec (detach m s.mem) s.prev
      (linked.congr (fun x hx => by rw [same x hx]) fun _ _ => rfl) headS (lt_of_le_of_ne le headNe)
    rw [same cur hcur] at gt
    exact ⟨_, flInsert_after notFront seek, linkAfter_relinks hA sub linked heads hm fresh hcur lt gt⟩

end Insert

end OsProjects.Malloc.Buddy
