import Mathlib.Data.Set.Finite.Basic
import Mathlib.Data.Set.Card
import Mathlib.Order.WellFoundedSet
import Mathlib.Data.List.Nodup
import Mathlib.Tactic.Common

/-!
# Doubly linked lists

Nodes carry a `next` and a `prev` link, `null` standing for no node. Two views
of such a structure are used.

`Dll` is the list view: the nodes met from the head are exactly `l`, and every
back link is the node before. Pushing, appending and unlinking act on `l`.

`Linked S` is a local view for address-sorted lists. It says of every node of
`S` by itself that its neighbours are nodes of `S`, point back, and lie in
ascending order; it does not say that `S` is one list. Such a set is a union of
sorted chains, and `Heads` says that a head pointer is null or the first node
of one of them. Inserting and unlinking nodes keep `Linked` and `Heads` even
when the head pointer has lost some of the chains. `Covers` says that it has
lost nothing: then the list read off from the head is exactly `S`, in ascending
order (`Linked.list_of_covers`).
-/

namespace OsProjects.Links

variable {α : Type*} {next prev next' prev' : α → α} {null m : α}

/-! ## Lists along the links -/

/-- `l` is the list read from `p` along `next`, up to `null`. -/
def Chain (next : α → α) (null : α) : α → List α → Prop
  | p, [] => p = null
  | p, x :: l => p = x ∧ x ≠ null ∧ Chain next null (next x) l

theorem Chain.unique {p : α} {l l' : List α} (h : Chain next null p l) (h' : Chain next null p l') :
    l = l' := by
  induction l generalizing p l' with
  | nil =>
    cases l' with
    | nil => rfl
    | cons y l' => exact absurd (h'.1.symm.trans h) h'.2.1
  | cons x l ih =>
    obtain ⟨rfl, ne, rest⟩ := h
    cases l' with
    | nil => exact absurd h' ne
    | cons y l' =>
      obtain ⟨rfl, -, rest'⟩ := h'
      rw [ih rest rest']

theorem Chain.congr {p : α} {l : List α} (h : Chain next null p l) (hn : ∀ x ∈ l, next' x = next x) :
    Chain next' null p l := by
  induction l generalizing p with
  | nil => exact h
  | cons x l ih =>
    refine ⟨h.1, h.2.1, ?_⟩
    rw [hn x List.mem_cons_self]
    exact ih h.2.2 fun y hy => hn y (List.mem_cons_of_mem x hy)

/-- The nodes of a chain are closed under `next`. -/
theorem Chain.next_mem {p : α} {l : List α} (h : Chain next null p l) {x : α} (hx : x ∈ l)
    (e : next x ≠ null) : next x ∈ l := by
  induction l generalizing p with
  | nil => exact absurd hx List.not_mem_nil
  | cons y l ih =>
    rcases List.mem_cons.mp hx with rfl | hx
    · cases l with
      | nil => exact absurd h.2.2 e
      | cons z l => simp [h.2.2.1]
    · exact List.mem_cons_of_mem y (ih h.2.2 hx)

/-- `l` is the doubly linked list at `p`: read along `next`, the back link of its
first node is `back` and every other back link is the node before. -/
def Dll (next prev : α → α) (null : α) : α → α → List α → Prop
  | _, p, [] => p = null
  | back, p, x :: l => p = x ∧ x ≠ null ∧ prev x = back ∧ Dll next prev null x (next x) l

theorem Dll.chain {back p : α} {l : List α} (h : Dll next prev null back p l) : Chain next null p l := by
  induction l generalizing back p with
  | nil => exact h
  | cons x l ih => exact ⟨h.1, h.2.1, ih h.2.2.2⟩

theorem Dll.congr {back p : α} {l : List α} (h : Dll next prev null back p l)
    (hn : ∀ x ∈ l, next' x = next x) (hp : ∀ x ∈ l, prev' x = prev x) : Dll next' prev' null back p l := by
  induction l generalizing back p with
  | nil => exact h
  | cons x l ih =>
    refine ⟨h.1, h.2.1, (hp x List.mem_cons_self).trans h.2.2.1, ?_⟩
    rw [hn x List.mem_cons_self]
    exact ih h.2.2.2 (fun y hy => hn y (List.mem_cons_of_mem x hy)) fun y hy => hp y (List.mem_cons_of_mem x hy)

theorem Dll.ne_null {back p : α} {l : List α} (h : Dll next prev null back p l) {x : α} (hx : x ∈ l) :
    x ≠ null := by
  induction l generalizing back p with
  | nil => exact absurd hx List.not_mem_nil
  | cons y l ih =>
    rcases List.mem_cons.mp hx with rfl | hx
    · exact h.2.1
    · exact ih h.2.2.2 hx

/-- The neighbours of a node of the list are nodes of the list, or its ends. -/
theorem Dll.next_mem {back p : α} {l : List α} (h : Dll next prev null back p l) {x : α} (hx : x ∈ l)
    (e : next x ≠ null) : next x ∈ l :=
  h.chain.next_mem hx e

theorem Dll.prev_mem {back p : α} {l : List α} (h : Dll next prev null back p l) {x : α} (hx : x ∈ l) :
    prev x = back ∨ prev x ∈ l := by
  induction l generalizing back p with
  | nil => exact absurd hx List.not_mem_nil
  | cons y l ih =>
    rcases List.mem_cons.mp hx with rfl | hx
    · exact .inl h.2.2.1
    · right
      rcases ih h.2.2.2 hx with e | mem
      · exact e ▸ List.mem_cons_self
      · exact List.mem_cons_of_mem y mem

theorem Dll.prev_ne_self {back p : α} {l : List α} (h : Dll next prev null back p l) (nodup : l.Nodup)
    (out : back ∉ l) {x : α} (hx : x ∈ l) : prev x ≠ x := by
  induction l generalizing back p with
  | nil => exact absurd hx List.not_mem_nil
  | cons y l ih =>
    obtain ⟨rfl, -, first, rest⟩ := h
    obtain ⟨notMem, nodup⟩ := List.nodup_cons.mp nodup
    rcases List.mem_cons.mp hx with rfl | hx
    · intro e
      rw [first] at e
      exact out (e ▸ List.mem_cons_self)
    · exact ih rest nodup notMem hx

/-- Pushing a new node in front. -/
theorem Dll.push [DecidableEq α] {p : α} {l : List α} (h : Dll next prev null null p l) (hm : m ≠ null) (nodup : l.Nodup)
    (nextM : next' m = p) (prevM : prev' m = null) (hn : ∀ x ∈ l, next' x = next x)
    (hp : ∀ x ∈ l, prev' x = if x = p then m else prev x) : Dll next' prev' null null m (m :: l) := by
  refine ⟨rfl, hm, prevM, ?_⟩
  rw [nextM]
  cases l with
  | nil => exact h
  | cons x l =>
    obtain ⟨rfl, ne, -, rest⟩ := h
    refine ⟨rfl, ne, by rw [hp _ List.mem_cons_self, if_pos rfl], ?_⟩
    rw [hn _ List.mem_cons_self]
    refine rest.congr (fun y hy => hn y (List.mem_cons_of_mem p hy)) fun y hy => ?_
    rw [hp y (List.mem_cons_of_mem p hy), if_neg]
    rintro rfl
    exact (List.nodup_cons.mp nodup).1 hy

/-- Appending a new last node. -/
theorem Dll.append [DecidableEq α] {back p : α} {l : List α} (h : Dll next prev null back p l) (hm : m ≠ null)
    (nodup : l.Nodup) (nextM : next' m = null) (prevM : prev' m = l.getLastD back)
    (hn : ∀ x ∈ l, next' x = if x = l.getLastD back then m else next x)
    (hp : ∀ x ∈ l, prev' x = prev x) :
    Dll next' prev' null back (if l = [] then m else p) (l ++ [m]) := by
  induction l generalizing back p with
  | nil => exact ⟨rfl, hm, prevM, nextM⟩
  | cons x l ih =>
    obtain ⟨rfl, ne, first, rest⟩ := h
    obtain ⟨notMem, nodup⟩ := List.nodup_cons.mp nodup
    have last : (p :: l).getLastD back = l.getLastD p := by cases l <;> rfl
    rw [last] at prevM hn
    rw [if_neg (List.cons_ne_nil p l)]
    refine ⟨rfl, ne, (hp p List.mem_cons_self).trans first, ?_⟩
    have succ : next' p = if l = [] then m else next p := by
      rw [hn p List.mem_cons_self]
      cases l with
      | nil => simp
      | cons y l =>
        have mem : (y :: l).getLastD p ∈ y :: l := by
          rw [List.getLastD_cons]
          exact List.getLastD_mem_cons
        have neLast : p ≠ (y :: l).getLastD p := fun e => notMem (e ▸ mem)
        rw [if_neg neLast, if_neg (List.cons_ne_nil y l)]
    rw [succ]
    exact ih rest nodup prevM (fun y hy => hn y (List.mem_cons_of_mem p hy))
      fun y hy => hp y (List.mem_cons_of_mem p hy)

/-- Unlinking a node: its neighbours are joined, and the entry pointer moves to
its successor when it was the first node. -/
theorem Dll.unlink [DecidableEq α] {back p : α} {l : List α} (h : Dll next prev null back p l)
    (nodup : l.Nodup) (out : back ∉ l) (hm : m ∈ l)
    (hn : ∀ x ∈ l, x ≠ m → next' x = if x = prev m then next m else next x)
    (hp : ∀ x ∈ l, x ≠ m → prev' x = if x = next m then prev m else prev x) :
    Dll next' prev' null back (if prev m = back then next m else p) (l.erase m) := by
  induction l generalizing back p with
  | nil => exact absurd hm List.not_mem_nil
  | cons x l ih =>
    obtain ⟨rfl, ne, first, rest⟩ := h
    obtain ⟨notMem, nodup⟩ := List.nodup_cons.mp nodup
    by_cases isM : p = m
    · subst isM
      rw [if_pos first, List.erase_cons_head]
      cases l with
      | nil => exact rest
      | cons y l =>
        obtain ⟨e, ne', back', rest'⟩ := rest
        have neY : y ≠ p := fun e => notMem (e ▸ List.mem_cons_self)
        refine ⟨e, ne', by rw [hp y (by simp) neY, if_pos e.symm, first], ?_⟩
        -- no node after `y` is the predecessor or the successor of `p`
        have yNext : next' y = next y := by
          rw [hn y (by simp) neY, if_neg]
          intro same
          exact out (by rw [← first, ← same]; simp)
        rw [yNext]
        refine rest'.congr (fun z hz => ?_) fun z hz => ?_
        · rw [hn z (by simp [hz]) fun e => notMem (e ▸ List.mem_cons_of_mem y hz), if_neg]
          intro same
          exact out (by rw [← first, ← same]; simp [hz])
        · rw [hp z (by simp [hz]) fun e => notMem (e ▸ List.mem_cons_of_mem y hz), if_neg]
          rw [e]
          rintro rfl
          exact (List.nodup_cons.mp nodup).1 hz
    · have hm' : m ∈ l := (List.mem_cons.mp hm).resolve_left (Ne.symm isM)
      have prevM : prev m ≠ back := by
        rintro e
        rcases rest.prev_mem hm' with e' | mem
        · exact out (by rw [← e, e']; simp)
        · exact out (by rw [← e]; simp [mem])
      rw [if_neg prevM, List.erase_cons_tail (by simpa using isM)]
      have neNext : p ≠ next m := by
        intro e
        exact notMem (e ▸ rest.next_mem hm' (e ▸ ne))
      refine ⟨rfl, ne, by rw [hp p (by simp) isM, if_neg neNext, first], ?_⟩
      rw [hn p (by simp) isM]
      have := ih rest nodup notMem hm' (fun z hz => hn z (by simp [hz])) fun z hz => hp z (by simp [hz])
      simpa only [eq_comm] using this

/-- A list along `next` whose nodes point back. -/
theorem Chain.dll {back p : α} {l : List α} (h : Chain next null p l) (first : p ≠ null → prev p = back)
    (links : ∀ x ∈ l, next x ≠ null → prev (next x) = x) : Dll next prev null back p l := by
  induction l generalizing back p with
  | nil => exact h
  | cons x l ih =>
    obtain ⟨rfl, ne, rest⟩ := h
    exact ⟨rfl, ne, first ne, ih rest (links p List.mem_cons_self) fun y hy => links y (List.mem_cons_of_mem p hy)⟩

/-- The successor of a node points back to it. -/
theorem Dll.prev_next {back p : α} {l : List α} (h : Dll next prev null back p l) {x : α} (hx : x ∈ l)
    (e : next x ≠ null) : prev (next x) = x := by
  induction l generalizing back p with
  | nil => exact absurd hx List.not_mem_nil
  | cons y l ih =>
    obtain ⟨rfl, -, -, rest⟩ := h
    rcases List.mem_cons.mp hx with rfl | hx
    · cases l with
      | nil => exact absurd rest e
      | cons z l => exact rest.1 ▸ rest.2.2.1
    · exact ih rest hx

/-- Every node but the first is the successor of the node before. -/
theorem Dll.next_prev {back p : α} {l : List α} (h : Dll next prev null back p l) {x : α} (hx : x ∈ l) :
    p = x ∧ prev x = back ∨ prev x ∈ l ∧ next (prev x) = x := by
  induction l generalizing back p with
  | nil => exact absurd hx List.not_mem_nil
  | cons y l ih =>
    obtain ⟨rfl, -, first, rest⟩ := h
    rcases List.mem_cons.mp hx with rfl | hx
    · exact .inl ⟨rfl, first⟩
    · rcases ih rest hx with ⟨e, back⟩ | ⟨mem, e⟩
      · exact .inr ⟨back ▸ List.mem_cons_self, back.symm ▸ e⟩
      · exact .inr ⟨List.mem_cons_of_mem p mem, e⟩

theorem Dll.ne_nil {back p : α} {l : List α} (h : Dll next prev null back p l) (ne : p ≠ null) : l ≠ [] := by
  rintro rfl
  exact ne h

/-- The head of a list with nodes is its first node. -/
theorem Dll.head_mem {back p : α} {l : List α} (h : Dll next prev null back p l) (ne : l ≠ []) :
    p ∈ l ∧ prev p = back := by
  cases l with
  | nil => exact absurd rfl ne
  | cons y l =>
    obtain ⟨rfl, -, first, -⟩ := h
    exact ⟨List.mem_cons_self, first⟩

/-- When two lists have a common node, the first starts where the second does or behind a node of it. -/
theorem Dll.back_mem {back p q : α} {l l' : List α} (h : Dll next prev null back p l)
    (h' : Dll next prev null null q l') {x : α} (hx : x ∈ l) (hx' : x ∈ l') : p = q ∨ back ∈ l' := by
  induction l generalizing back p with
  | nil => exact absurd hx List.not_mem_nil
  | cons y l ih =>
    obtain ⟨rfl, ne, first, rest⟩ := h
    have start : p ∈ l' → p = q ∨ back ∈ l' := by
      intro mem
      apply (h'.next_prev mem).imp
      · exact fun same => same.1.symm
      · exact fun before => first ▸ before.1
    rcases List.mem_cons.mp hx with rfl | hx
    · exact start hx'
    · rcases ih rest hx with same | mem
      · -- the head of the second list has no node before it
        have before := (rest.head_mem (List.ne_nil_of_mem hx)).2
        have top := (h'.head_mem (List.ne_nil_of_mem hx')).2
        rw [same, top] at before
        exact absurd before.symm ne
      · exact start mem

/-- Lists with a common node start at the same node. -/
theorem Dll.head_eq {p q : α} {l l' : List α} (h : Dll next prev null null p l) (h' : Dll next prev null null q l')
    {x : α} (hx : x ∈ l) (hx' : x ∈ l') : p = q := by
  apply (h.back_mem h' hx hx').resolve_right
  exact fun mem => h'.ne_null mem rfl

/-- A list determines its head and the links of its nodes. -/
theorem Dll.links_eq {back p p' : α} {l : List α} (h : Dll next prev null back p l)
    (h' : Dll next' prev' null back p' l) : p' = p ∧ ∀ x ∈ l, next' x = next x ∧ prev' x = prev x := by
  induction l generalizing back p p' with
  | nil => exact ⟨h'.trans h.symm, fun x hx => absurd hx List.not_mem_nil⟩
  | cons y l ih =>
    obtain ⟨rfl, -, first, rest⟩ := h
    obtain ⟨rfl, -, first', rest'⟩ := h'
    obtain ⟨succ, others⟩ := ih rest rest'
    apply And.intro rfl
    intro x hx
    rcases List.mem_cons.mp hx with rfl | hx
    · exact ⟨succ, first'.trans first.symm⟩
    · exact others x hx

/-! ## Sorted nodes, locally -/

variable {head cur : α} {S : Set α}

/-- The head pointer is null or the first node of a chain. -/
def Heads (prev : α → α) (null : α) (S : Set α) (head : α) : Prop :=
  head = null ∨ head ∈ S ∧ prev head = null

/-- Every chain of `S` starts at the head pointer. -/
def Covers (prev : α → α) (null : α) (S : Set α) (head : α) : Prop :=
  ∀ x ∈ S, prev x = null → head = x

theorem Heads.congr (h : Heads prev null S head) (hp : ∀ x ∈ S, prev' x = prev x) :
    Heads prev' null S head :=
  h.imp_right fun ⟨mem, first⟩ => ⟨mem, (hp head mem).trans first⟩

theorem Covers.congr (h : Covers prev null S head) (hp : ∀ x ∈ S, prev' x = prev x) :
    Covers prev' null S head :=
  fun x hx first => h x hx ((hp x hx).symm.trans first)

variable [LinearOrder α]

/-- Every node of `S` is doubly linked to its neighbours, in ascending order. -/
structure Linked (next prev : α → α) (null : α) (S : Set α) : Prop where
  ne_null : ∀ x ∈ S, x ≠ null
  next_mem : ∀ x ∈ S, next x ≠ null → next x ∈ S
  prev_next : ∀ x ∈ S, next x ≠ null → prev (next x) = x
  lt_next : ∀ x ∈ S, next x ≠ null → x < next x
  prev_mem : ∀ x ∈ S, prev x ≠ null → prev x ∈ S
  next_prev : ∀ x ∈ S, prev x ≠ null → next (prev x) = x

theorem Linked.prev_lt (h : Linked next prev null S) {x : α} (hx : x ∈ S) (hp : prev x ≠ null) :
    prev x < x := by
  have mem := h.prev_mem x hx hp
  have back := h.next_prev x hx hp
  simpa only [back] using h.lt_next _ mem (by rw [back]; exact h.ne_null x hx)

theorem linked_empty : Linked next prev null (∅ : Set α) := by
  constructor <;> simp

/-- The shape only depends on the links of the nodes themselves. -/
theorem Linked.congr (h : Linked next prev null S) (hn : ∀ x ∈ S, next' x = next x)
    (hp : ∀ x ∈ S, prev' x = prev x) : Linked next' prev' null S where
  ne_null := h.ne_null
  next_mem x hx ne := by
    rw [hn x hx] at ne ⊢
    exact h.next_mem x hx ne
  prev_next x hx ne := by
    rw [hn x hx] at ne ⊢
    rw [hp _ (h.next_mem x hx ne), h.prev_next x hx ne]
  lt_next x hx ne := by
    rw [hn x hx] at ne ⊢
    exact h.lt_next x hx ne
  prev_mem x hx ne := by
    rw [hp x hx] at ne ⊢
    exact h.prev_mem x hx ne
  next_prev x hx ne := by
    rw [hp x hx] at ne ⊢
    rw [hn _ (h.prev_mem x hx ne), h.next_prev x hx ne]

/-! ## Linking a node in -/

section Front

variable (h : Linked next prev null S) (hd : Heads prev null S head) (fresh : m ∉ S)
  (hn : ∀ x ∈ insert m S, next' x = if x = m then head else next x)
  (hp : ∀ x ∈ insert m S, prev' x = if x = m then null else if x = head then m else prev x)
include h hd fresh hp

/-- Off the head, the back links are the old ones: a successor is never the
head, whose back link is null. -/
theorem Linked.prev_front {x : α} (hx : x ∈ S) (ne : prev x ≠ null) : prev' x = prev x := by
  have neM : x ≠ m := fun e => fresh (e ▸ hx)
  rw [hp x (Set.mem_insert_of_mem m hx), if_neg neM, if_neg]
  rintro rfl
  rcases hd with e | ⟨-, e⟩
  · exact h.ne_null x hx e
  · exact ne e

include hn

/-- Linking `m` in before the head. -/
theorem Linked.insert_front (hm : m ≠ null) (lt : head ≠ null → m < head) :
    Linked next' prev' null (insert m S) := by
  have ne : ∀ x ∈ S, x ≠ m := fun x hx e => fresh (e ▸ hx)
  have nextM : next' m = head := by rw [hn m (Set.mem_insert m S), if_pos rfl]
  have prevM : prev' m = null := by rw [hp m (Set.mem_insert m S), if_pos rfl]
  have nextS : ∀ x ∈ S, next' x = next x := fun x hx => by
    rw [hn x (Set.mem_insert_of_mem m hx), if_neg (ne x hx)]
  have headS : head ≠ null → head ∈ S := fun e => (hd.resolve_left e).1
  have prevHead : head ≠ null → prev' head = m := fun e => by
    rw [hp head (Set.mem_insert_of_mem m (headS e)), if_neg (ne _ (headS e)), if_pos rfl]
  refine ⟨?_, ?_, ?_, ?_, ?_, ?_⟩
  · rintro x (rfl | hx)
    · exact hm
    · exact h.ne_null x hx
  · rintro x (rfl | hx) e
    · rw [nextM] at e ⊢
      exact Set.mem_insert_of_mem _ (headS e)
    · rw [nextS x hx] at e ⊢
      exact Set.mem_insert_of_mem _ (h.next_mem x hx e)
  · rintro x (rfl | hx) e
    · rw [nextM] at e ⊢
      exact prevHead e
    · rw [nextS x hx] at e ⊢
      have back := h.prev_next x hx e
      rw [h.prev_front hd fresh hp (h.next_mem x hx e) (back.symm ▸ h.ne_null x hx), back]
  · rintro x (rfl | hx) e
    · rw [nextM] at e ⊢
      exact lt e
    · rw [nextS x hx] at e ⊢
      exact h.lt_next x hx e
  all_goals
    rintro x (rfl | hx) e
    · exact absurd prevM e
    by_cases isHead : x = head
    · subst isHead
      rw [prevHead (h.ne_null x hx)]
      first | exact Set.mem_insert m S | exact nextM
    · have back : prev' x = prev x := by
        rw [hp x (Set.mem_insert_of_mem m hx), if_neg (ne x hx), if_neg isHead]
      rw [back] at e ⊢
      first
        | exact Set.mem_insert_of_mem m (h.prev_mem x hx e)
        | rw [nextS _ (h.prev_mem x hx e), h.next_prev x hx e]

end Front

/-- A covering head is covered by the node linked in before it. -/
theorem Covers.insert_front (c : Covers prev null S head) (hm : m ≠ null)
    (hp : ∀ x ∈ insert m S, prev' x = if x = m then null else if x = head then m else prev x) :
    Covers prev' null (insert m S) m := by
  rintro x (rfl | hx) first
  · rfl
  rw [hp x (Set.mem_insert_of_mem m hx)] at first
  split_ifs at first with isM isHead
  · exact isM.symm
  · exact absurd first hm
  · exact absurd (c x hx first).symm isHead

section After

variable (h : Linked next prev null S) (hcur : cur ∈ S) (fresh : m ∉ S)
  (hn : ∀ x ∈ insert m S, next' x = if x = cur then m else if x = m then next cur else next x)
  (hp : ∀ x ∈ insert m S, prev' x = if x = m then cur else if x = next cur then m else prev x)
include h hcur fresh hn hp

/-- Linking `m` in after the node `cur`, before its successor. -/
theorem Linked.insert_after (hm : m ≠ null) (lt : cur < m) (gt : next cur ≠ null → m < next cur) :
    Linked next' prev' null (insert m S) := by
  have ne : ∀ x ∈ S, x ≠ m := fun x hx e => fresh (e ▸ hx)
  have nextCur : next' cur = m := by rw [hn cur (Set.mem_insert_of_mem m hcur), if_pos rfl]
  have nextM : next' m = next cur := by
    rw [hn m (Set.mem_insert m S), if_neg (ne cur hcur).symm, if_pos rfl]
  have prevM : prev' m = cur := by rw [hp m (Set.mem_insert m S), if_pos rfl]
  have nextS : ∀ x ∈ S, x ≠ cur → next' x = next x := fun x hx e => by
    rw [hn x (Set.mem_insert_of_mem m hx), if_neg e, if_neg (ne x hx)]
  have prevSucc : next cur ≠ null → prev' (next cur) = m := fun e => by
    have mem := h.next_mem cur hcur e
    rw [hp _ (Set.mem_insert_of_mem m mem), if_neg (ne _ mem), if_pos rfl]
  have prevS : ∀ x ∈ S, x ≠ next cur → prev' x = prev x := fun x hx e => by
    rw [hp x (Set.mem_insert_of_mem m hx), if_neg (ne x hx), if_neg e]
  -- the successor of another node is not the successor of `cur`
  have inj : ∀ x ∈ S, x ≠ cur → next x ≠ null → next x ≠ next cur := fun x hx e e' same =>
    e (by rw [← h.prev_next x hx e', same, h.prev_next cur hcur (same ▸ e')])
  refine ⟨?_, ?_, ?_, ?_, ?_, ?_⟩
  · rintro x (rfl | hx)
    · exact hm
    · exact h.ne_null x hx
  · rintro x (rfl | hx) e
    · rw [nextM] at e ⊢
      exact Set.mem_insert_of_mem _ (h.next_mem cur hcur e)
    · by_cases isCur : x = cur
      · rw [isCur, nextCur]
        exact Set.mem_insert m S
      · rw [nextS x hx isCur] at e ⊢
        exact Set.mem_insert_of_mem _ (h.next_mem x hx e)
  · rintro x (rfl | hx) e
    · rw [nextM] at e ⊢
      exact prevSucc e
    · by_cases isCur : x = cur
      · rw [isCur, nextCur, prevM]
      · rw [nextS x hx isCur] at e ⊢
        rw [prevS _ (h.next_mem x hx e) (inj x hx isCur e), h.prev_next x hx e]
  · rintro x (rfl | hx) e
    · rw [nextM] at e ⊢
      exact gt e
    · by_cases isCur : x = cur
      · rw [isCur, nextCur]
        exact lt
      · rw [nextS x hx isCur] at e ⊢
        exact h.lt_next x hx e
  · rintro x (rfl | hx) e
    · rw [prevM]
      exact Set.mem_insert_of_mem _ hcur
    · by_cases isSucc : x = next cur
      · rw [isSucc, prevSucc (isSucc ▸ h.ne_null x hx)]
        exact Set.mem_insert m S
      · rw [prevS x hx isSucc] at e ⊢
        exact Set.mem_insert_of_mem _ (h.prev_mem x hx e)
  · rintro x (rfl | hx) e
    · rw [prevM, nextCur]
    · by_cases isSucc : x = next cur
      · rw [isSucc, prevSucc (isSucc ▸ h.ne_null x hx), nextM]
      · rw [prevS x hx isSucc] at e ⊢
        have back := h.next_prev x hx e
        rw [nextS _ (h.prev_mem x hx e) (fun isCur => isSucc (isCur ▸ back.symm)), back]

end After

theorem Heads.insert_after (hd : Heads prev null S head) (h : Linked next prev null S) (hcur : cur ∈ S)
    (fresh : m ∉ S)
    (hp : ∀ x ∈ insert m S, prev' x = if x = m then cur else if x = next cur then m else prev x) :
    Heads prev' null (insert m S) head := by
  refine hd.imp_right fun ⟨mem, first⟩ => ⟨Set.mem_insert_of_mem m mem, ?_⟩
  have neM : head ≠ m := fun e => fresh (e ▸ mem)
  rw [hp head (Set.mem_insert_of_mem m mem), if_neg neM, if_neg, first]
  rintro rfl
  exact h.ne_null cur hcur ((h.prev_next cur hcur (h.ne_null _ mem)).symm.trans first)

theorem Covers.insert_after (c : Covers prev null S head) (h : Linked next prev null S) (hcur : cur ∈ S)
    (hm : m ≠ null)
    (hp : ∀ x ∈ insert m S, prev' x = if x = m then cur else if x = next cur then m else prev x) :
    Covers prev' null (insert m S) head := by
  rintro x hx first
  rw [hp x hx] at first
  split_ifs at first with isM isSucc
  · exact absurd first (h.ne_null cur hcur)
  · exact absurd first hm
  · exact c x (hx.resolve_left isM) first

/-! ## Unlinking a node -/

section Unlink

variable (h : Linked next prev null S) (hm : m ∈ S)
  (hn : ∀ x ∈ S \ {m}, next' x = if x = prev m then next m else next x)
  (hp : ∀ x ∈ S \ {m}, prev' x = if x = next m then prev m else prev x)
include h hm

/-- No node is its own neighbour. -/
theorem Linked.next_ne_self (e : next m ≠ null) : next m ≠ m := (h.lt_next m hm e).ne'

theorem Linked.prev_ne_self (e : prev m ≠ null) : prev m ≠ m := (h.prev_lt hm e).ne

include hp

/-- The head pointer moves only when `m` starts its chain. It then becomes
`m`'s successor, whether or not it was `m` before. -/
theorem Heads.unlink (hd : Heads prev null S head) :
    Heads prev' null (S \ {m}) (if prev m = null then next m else head) := by
  split_ifs with first
  · by_cases e : next m = null
    · exact .inl e
    · have mem : next m ∈ S \ {m} := ⟨h.next_mem m hm e, h.next_ne_self hm e⟩
      exact .inr ⟨mem, by rw [hp _ mem, if_pos rfl, first]⟩
  · refine hd.imp_right fun ⟨mem, top⟩ => ?_
    have mem' : head ∈ S \ {m} := ⟨mem, fun e => first (Set.mem_singleton_iff.mp e ▸ top)⟩
    refine ⟨mem', ?_⟩
    rw [hp head mem', if_neg, top]
    rintro rfl
    exact h.ne_null m hm ((h.prev_next m hm (h.ne_null _ mem)).symm.trans top)

include hn

/-- Unlinking `m` joins its neighbours. -/
theorem Linked.unlink : Linked next' prev' null (S \ {m}) := by
  -- a neighbour of a kept node that is not kept is `m` itself
  have succM : ∀ x ∈ S, next x ≠ null → next x = m → x = prev m := fun x hx e same => by
    rw [← same, h.prev_next x hx e]
  have predM : ∀ x ∈ S, prev x ≠ null → prev x = m → x = next m := fun x hx e same => by
    rw [← same, h.next_prev x hx e]
  have across : prev m ≠ null → next m ≠ null → prev m < next m := fun e e' =>
    (h.prev_lt hm e).trans (h.lt_next m hm e')
  refine ⟨fun x hx => h.ne_null x hx.1, ?_, ?_, ?_, ?_, ?_⟩
  · rintro x ⟨hx, hxm⟩ e
    rw [hn x ⟨hx, hxm⟩] at e ⊢
    split_ifs at e ⊢ with isPred
    · exact ⟨h.next_mem m hm e, h.next_ne_self hm e⟩
    · exact ⟨h.next_mem x hx e, fun same => isPred (succM x hx e same)⟩
  · rintro x ⟨hx, hxm⟩ e
    rw [hn x ⟨hx, hxm⟩] at e ⊢
    split_ifs at e ⊢ with isPred
    · rw [hp _ ⟨h.next_mem m hm e, h.next_ne_self hm e⟩, if_pos rfl, isPred]
    · have back := h.prev_next x hx e
      rw [hp _ ⟨h.next_mem x hx e, fun same => isPred (succM x hx e same)⟩, if_neg, back]
      intro same
      exact hxm (by rw [← back, same, h.prev_next m hm (same ▸ e)]; rfl)
  · rintro x ⟨hx, hxm⟩ e
    rw [hn x ⟨hx, hxm⟩] at e ⊢
    split_ifs at e ⊢ with isPred
    · exact isPred ▸ across (isPred ▸ h.ne_null x hx) e
    · exact h.lt_next x hx e
  · rintro x ⟨hx, hxm⟩ e
    rw [hp x ⟨hx, hxm⟩] at e ⊢
    split_ifs at e ⊢ with isSucc
    · exact ⟨h.prev_mem m hm e, h.prev_ne_self hm e⟩
    · exact ⟨h.prev_mem x hx e, fun same => isSucc (predM x hx e same)⟩
  · rintro x ⟨hx, hxm⟩ e
    rw [hp x ⟨hx, hxm⟩] at e ⊢
    split_ifs at e ⊢ with isSucc
    · rw [hn _ ⟨h.prev_mem m hm e, h.prev_ne_self hm e⟩, if_pos rfl, isSucc]
    · have back := h.next_prev x hx e
      rw [hn _ ⟨h.prev_mem x hx e, fun same => isSucc (predM x hx e same)⟩, if_neg, back]
      intro same
      exact hxm (by rw [← back, same, h.next_prev m hm (same ▸ e)]; rfl)

end Unlink

theorem Covers.unlink (c : Covers prev null S head) (hm : m ∈ S)
    (hp : ∀ x ∈ S \ {m}, prev' x = if x = next m then prev m else prev x) :
    Covers prev' null (S \ {m}) (if prev m = null then next m else head) := by
  rintro x hx first
  rw [hp x hx] at first
  by_cases isSucc : x = next m
  · rw [if_pos isSucc] at first
    rw [if_pos first, isSucc]
  · rw [if_neg isSucc] at first
    have top := c x hx.1 first
    rw [if_neg fun e => hx.2 (top.symm.trans (c m hm e)), top]

/-! ## Reading the list off -/

/-- From any node the links lead to the end, through ever larger nodes of `S`.
The induction is on the number of nodes above the start. -/
theorem Linked.exists_chain (h : Linked next prev null S) (fin : S.Finite) {p : α} (hp : p = null ∨ p ∈ S) :
    ∃ l, Chain next null p l ∧ l.Pairwise (· < ·) ∧ (∀ x ∈ l, x ∈ S ∧ p ≤ x) := by
  generalize hn : (S ∩ Set.Ici p).ncard = n
  induction n using Nat.strongRecOn generalizing p with
  | ind n ih =>
    rcases hp with rfl | mem
    · exact ⟨[], rfl, List.Pairwise.nil, by simp⟩
    by_cases e : next p = null
    · exact ⟨[p], ⟨rfl, h.ne_null p mem, e⟩, List.pairwise_singleton _ p, by simp [mem]⟩
    have lt := h.lt_next p mem e
    have fewer : (S ∩ Set.Ici (next p)).ncard < n := by
      rw [← hn]
      refine Set.ncard_lt_ncard ⟨fun x hx => ⟨hx.1, lt.le.trans hx.2⟩, fun sub => ?_⟩ (fin.inter_of_left _)
      exact lt.not_ge (sub ⟨mem, le_refl p⟩).2
    obtain ⟨l, chain, sorted, all⟩ := ih _ fewer (.inr (h.next_mem p mem e)) rfl
    refine ⟨p :: l, ⟨rfl, h.ne_null p mem, chain⟩, ?_, ?_⟩
    · exact List.pairwise_cons.mpr ⟨fun x hx => lt.trans_le (all x hx).2, sorted⟩
    · intro x hx
      rcases List.mem_cons.mp hx with rfl | hx
      · exact ⟨mem, le_refl x⟩
      · exact ⟨(all x hx).1, lt.le.trans (all x hx).2⟩

/-- The list at a head pointer: ascending nodes of `S`. -/
theorem Linked.list_of_heads (h : Linked next prev null S) (fin : S.Finite) (hd : Heads prev null S head) :
    ∃ l, Chain next null head l ∧ l.Pairwise (· < ·) ∧ ∀ x ∈ l, x ∈ S := by
  obtain ⟨l, chain, sorted, all⟩ := h.exists_chain fin (hd.imp_right And.left)
  exact ⟨l, chain, sorted, fun x hx => (all x hx).1⟩

/-- **A covering head lists every node.** Following `prev` down from a node
reaches the head, and the list is closed under `next` on the way back up. -/
theorem Linked.list_of_covers (h : Linked next prev null S) (fin : S.Finite) (hd : Heads prev null S head)
    (c : Covers prev null S head) :
    ∃ l, Chain next null head l ∧ l.Pairwise (· < ·) ∧ ∀ x, x ∈ l ↔ x ∈ S := by
  obtain ⟨l, chain, sorted, all⟩ := h.list_of_heads fin hd
  refine ⟨l, chain, sorted, fun x => ⟨all x, fun hx => ?_⟩⟩
  have wf : S.WellFoundedOn (· < ·) := fin.wellFoundedOn
  refine wf.induction hx fun y hy ih => ?_
  by_cases first : prev y = null
  · have top := c y hy first
    cases l with
    | nil => exact absurd (top.symm.trans chain) (h.ne_null y hy)
    | cons z l => exact (chain.1.symm.trans top) ▸ List.mem_cons_self
  · have back := h.next_prev y hy first
    have mem := ih _ (h.prev_mem y hy first) (h.prev_lt hy first)
    exact back ▸ chain.next_mem mem (back.symm ▸ h.ne_null y hy)

/-- The list at a head pointer, with its back links. -/
theorem Linked.dll (h : Linked next prev null S) (hd : Heads prev null S head) {l : List α} (chain : Chain next null head l)
    (sub : ∀ x ∈ l, x ∈ S) : Dll next prev null null head l := by
  apply chain.dll
  · intro ne
    exact (hd.resolve_left ne).2
  · intro x hx
    exact h.prev_next x (sub x hx)

theorem Chain.lt_next {p : α} {l : List α} (h : Chain next null p l) (sorted : l.Pairwise (· < ·)) {x : α} (hx : x ∈ l)
    (e : next x ≠ null) : x < next x := by
  induction l generalizing p with
  | nil => exact absurd hx List.not_mem_nil
  | cons y l ih =>
    obtain ⟨rfl, -, rest⟩ := h
    obtain ⟨above, sorted⟩ := List.pairwise_cons.mp sorted
    rcases List.mem_cons.mp hx with rfl | hx
    · cases l with
      | nil => exact absurd rest e
      | cons z l => exact rest.1 ▸ above z List.mem_cons_self
    · exact ih rest sorted hx

/-- An ascending list gives the local view, and its head loses nothing. -/
theorem Dll.linked {l : List α} (h : Dll next prev null null head l) (sorted : l.Pairwise (· < ·))
    (all : ∀ x, x ∈ l ↔ x ∈ S) : Linked next prev null S ∧ Heads prev null S head ∧ Covers prev null S head := by
  refine ⟨⟨fun x hx => ?_, fun x hx ne => ?_, fun x hx ne => ?_, fun x hx ne => ?_, fun x hx ne => ?_,
    fun x hx ne => ?_⟩, ?_, fun x hx first => ?_⟩
  · exact h.ne_null ((all x).mpr hx)
  · exact (all _).mp (h.next_mem ((all x).mpr hx) ne)
  · exact h.prev_next ((all x).mpr hx) ne
  · exact h.chain.lt_next sorted ((all x).mpr hx) ne
  · rcases h.next_prev ((all x).mpr hx) with ⟨-, e⟩ | ⟨mem, -⟩
    · exact absurd e ne
    · exact (all _).mp mem
  · rcases h.next_prev ((all x).mpr hx) with ⟨-, e⟩ | ⟨-, e⟩
    · exact absurd e ne
    · exact e
  · cases l with
    | nil => exact .inl h
    | cons y l =>
      obtain ⟨rfl, -, first, -⟩ := h
      exact .inr ⟨(all _).mp List.mem_cons_self, first⟩
  · rcases h.next_prev ((all x).mpr hx) with ⟨e, -⟩ | ⟨mem, -⟩
    · exact e
    · exact absurd first (h.ne_null mem)

end OsProjects.Links
