import OsProjects.Lib.Links
import OsProjects.Lib.Tiling
import OsProjects.Malloc.FirstFit

/-!
# The invariant of the first-fit allocator

`Inv s l` says that the list from `g_head` is `l`, linked both ways, that the blocks
ascend without overlap, and that each is exactly one region obtained from `sbrk`.
Blocks are never split, merged or given back: an operation changes flags, appends
one block, or writes to the payload of one block.
-/

namespace OsProjects.Malloc.FirstFit

open Links Tiling

/-- `m->next` in state `s`. -/
abbrev State.next (s : State) (m : Nat) : Nat := (s.mem.header m).next

/-- `m->prev` in state `s`. -/
abbrev State.prev (s : State) (m : Nat) : Nat := (s.mem.header m).prev

/-- `m->size` in state `s`. -/
abbrev State.size (s : State) (m : Nat) : Nat := (s.mem.header m).size

/-- `m->is_free` in state `s`. -/
abbrev State.isFree (s : State) (m : Nat) : Bool := (s.mem.header m).isFree

structure Inv (s : State) (l : List Nat) : Prop where
  dll : Dll s.next s.prev 0 0 s.gHead l
  sorted : l.Pairwise fun x y => x + metaSize + s.size x ≤ y
  lt : ∀ x ∈ l, x + metaSize + s.size x < 2 ^ 64
  obtained : s.obtained = l.map fun x => (x, metaSize + s.size x)

/-- A block keeps its size and its bytes. -/
structure Keeps (s s' : State) (x : Nat) : Prop where
  size : s'.size x = s.size x
  bytes : ∀ i < s.size x, s'.mem (ptrFromMeta x + i) = s.mem (ptrFromMeta x + i)

variable {os : Os} {s s' s'' : State} {l l' : List Nat} {m n p raw size x y z : Nat} {A : Set Nat}

theorem Keeps.trans (h : Keeps s s' x) (h' : Keeps s' s'' x) : Keeps s s'' x :=
  ⟨h'.size.trans h.size, fun i lt => (h'.bytes i (h.size.symm ▸ lt)).trans (h.bytes i lt)⟩

namespace Inv

theorem start (mem : Mem) : Inv (State.start mem) [] := by
  constructor <;> simp [State.start, Dll]

theorem apart (inv : Inv s l) (hx : x ∈ l) (hy : y ∈ l) (ne : x ≠ y) :
    x + metaSize + s.size x ≤ y ∨ y + metaSize + s.size y ≤ x := by
  have symm : Std.Symm fun x y => x + metaSize + s.size x ≤ y ∨ y + metaSize + s.size y ≤ x :=
    ⟨fun _ _ => Or.symm⟩
  have either : l.Pairwise fun x y => x + metaSize + s.size x ≤ y ∨ y + metaSize + s.size y ≤ x :=
    inv.sorted.imp Or.inl
  exact either.forall hx hy ne

theorem nodup (inv : Inv s l) : l.Nodup :=
  inv.sorted.imp fun {x y} h e => by
    have word : metaSize = 32 := rfl
    omega

theorem ascending (inv : Inv s l) : l.Pairwise (· < ·) :=
  inv.sorted.imp fun {x y} h => by
    have word : metaSize = 32 := rfl
    omega

theorem places (inv : Inv s l) : Places {x | x ∈ l} where
  slots x hx y hy := by
    by_cases e : x = y
    · exact .inl e
    · exact .inr ((inv.apart hx hy e).imp (by omega) (by omega))
  pos x hx := inv.dll.ne_null hx
  lt x hx := by
    have := inv.lt x hx
    omega

theorem gHead_eq_zero (inv : Inv s l) : s.gHead = 0 ↔ l = [] := by
  cases l with
  | nil => exact iff_of_true inv.dll rfl
  | cons x l => exact iff_of_false (inv.dll.1 ▸ inv.dll.2.1) (List.cons_ne_nil x l)

/-- Headers that keep their sizes and links. -/
theorem of_headers (inv : Inv s l) {mem : Mem} (size : ∀ x ∈ l, (mem.header x).size = s.size x)
    (next : ∀ x ∈ l, (mem.header x).next = s.next x) (prev : ∀ x ∈ l, (mem.header x).prev = s.prev x) :
    Inv { s with mem := mem } l where
  dll := inv.dll.congr next prev
  sorted := inv.sorted.imp_of_mem fun {x y} hx _ h => by
    rw [State.size, size x hx]
    exact h
  lt x hx := by
    rw [State.size, size x hx]
    exact inv.lt x hx
  obtained := by
    refine inv.obtained.trans (List.map_congr_left fun x hx => ?_)
    exact congrArg (fun n => (x, metaSize + n)) (size x hx).symm

/-- Stores to headers leave the payloads alone. -/
theorem keeps_of_touches (inv : Inv s l) (hx : x ∈ l) (touches : Mem.Touches (metaRanges {z | z ∈ l}) s.mem s'.mem)
    (size : s'.size x = s.size x) : Keeps s s' x := by
  refine ⟨size, fun i lt => touches _ fun r hr => ?_⟩
  rw [hr.2]
  unfold ptrFromMeta
  obtain e | ne := eq_or_ne r.1 x
  · omega
  · have := inv.apart hr.1 hx ne
    omega

/-- Setting a flag. -/
theorem setIsFree (inv : Inv s l) (hm : m ∈ l) (b : Bool) :
    Inv { s with mem := s.mem.setIsFree m b } l ∧
      (∀ z ∈ l, (s.mem.setIsFree m b).header z =
        if z = m then { s.mem.header z with isFree := b } else s.mem.header z) ∧
      ∀ z ∈ l, Keeps s { s with mem := s.mem.setIsFree m b } z := by
  have hdr : ∀ z ∈ l, _ := fun z hz => inv.places.slots.header_setIsFree (m := s.mem) hz hm b
  have size : ∀ z ∈ l, ((s.mem.setIsFree m b).header z).size = s.size z := fun z hz => by
    rw [hdr z hz]
    split_ifs <;> rfl
  refine ⟨inv.of_headers size (fun z hz => ?_) fun z hz => ?_, hdr, fun z hz => ?_⟩
  · rw [hdr z hz]
    split_ifs <;> rfl
  · rw [hdr z hz]
    split_ifs <;> rfl
  · exact inv.keeps_of_touches hz (Mem.touches_setIsFree hm) (size z hz)

/-- Writing to the payload of one block. -/
theorem write {mem : Mem} (inv : Inv s l) (hx : x ∈ l) (fits : n ≤ s.size x)
    (touches : Mem.Touches {(ptrFromMeta x, n)} s.mem mem) :
    Inv { s with mem := mem } l ∧ (∀ z ∈ l, mem.header z = s.mem.header z) ∧
      ∀ z ∈ l, z ≠ x → Keeps s { s with mem := mem } z := by
  have off : ∀ z ∈ l, z ≠ x → z + metaSize + s.size z ≤ x ∨ x + metaSize + s.size x ≤ z :=
    fun z hz ne => inv.apart hz hx ne
  have hdr : ∀ z ∈ l, mem.header z = s.mem.header z := by
    intro z hz
    refine touches.header_eq fun r hr => ?_
    rw [Set.mem_singleton_iff.mp hr]
    unfold ptrFromMeta
    obtain rfl | ne := eq_or_ne z x
    · omega
    · have := off z hz ne
      omega
  refine ⟨inv.of_headers (fun z hz => ?_) (fun z hz => ?_) fun z hz => ?_, hdr, fun z hz ne => ?_⟩
  · rw [hdr z hz]
  · rw [hdr z hz]
  · rw [hdr z hz]
  · refine ⟨by rw [State.size, hdr z hz], fun i lt => touches _ fun r hr => ?_⟩
    rw [Set.mem_singleton_iff.mp hr]
    have := off z hz ne
    unfold ptrFromMeta
    omega

end Inv

/-! ## The searches -/

/-- The block can serve the request. -/
def Serves (s : State) (size x : Nat) : Prop := s.isFree x = true ∧ size ≤ s.size x

instance (s : State) (size x : Nat) : Decidable (Serves s size x) := inferInstanceAs (Decidable (_ ∧ _))

theorem findFreeFrom_eq (size : Nat) (chain : Chain s.next 0 p l) :
    findFreeFrom s.mem size p = some ((l.find? fun x => decide (Serves s size x)).getD 0) := by
  induction l generalizing p with
  | nil =>
    obtain rfl : p = 0 := chain
    rw [findFreeFrom, if_pos rfl]
    rfl
  | cons x l ih =>
    obtain ⟨rfl, pos, rest⟩ := chain
    rw [findFreeFrom, if_neg pos, List.find?_cons]
    by_cases serves : Serves s size p
    · have serves' : (s.mem.header p).isFree = true ∧ size ≤ (s.mem.header p).size := serves
      rw [if_pos serves', decide_eq_true serves]
      rfl
    · have serves' : ¬((s.mem.header p).isFree = true ∧ size ≤ (s.mem.header p).size) := serves
      rw [if_neg serves', decide_eq_false serves, ih rest]

theorem findTail_eq {mem : Mem} (chain : Chain (fun x => (mem.header x).next) 0 p (x :: l)) :
    findTail mem p = some (l.getLastD x) := by
  induction l generalizing p x with
  | nil =>
    obtain ⟨rfl, -, stop⟩ := chain
    have stop' : (mem.header p).next = 0 := stop
    rw [findTail, if_neg (not_not.mpr stop')]
    rfl
  | cons y l ih =>
    obtain ⟨rfl, -, rest⟩ := chain
    have succ : (mem.header p).next = y := rest.1
    have go : (mem.header p).next ≠ 0 := by
      rw [succ]
      exact rest.2.1
    rw [findTail, if_pos go, ih rest, List.getLastD_cons]

/-- **First fit**: the search finds the lowest block that can serve the request, or
there is none. -/
theorem Inv.findFree (inv : Inv s l) (size : Nat) :
    (findFree size s = some 0 ∧ ∀ x ∈ l, ¬Serves s size x) ∨
      ∃ x ∈ l, findFree size s = some x ∧ x ≠ 0 ∧ Serves s size x ∧ ∀ y ∈ l, y < x → ¬Serves s size y := by
  have run : FirstFit.findFree size s = _ := findFreeFrom_eq size inv.dll.chain
  cases found : l.find? fun x => decide (Serves s size x) with
  | none =>
    rw [found] at run
    refine .inl ⟨run, fun x hx => ?_⟩
    simpa using List.find?_eq_none.mp found x hx
  | some x =>
    rw [found] at run
    obtain ⟨serves, a, b, rfl, before⟩ := List.find?_eq_some_iff_append.mp found
    have mem : x ∈ a ++ x :: b := List.mem_append_right a List.mem_cons_self
    refine .inr ⟨x, mem, run, inv.dll.ne_null mem, of_decide_eq_true serves, fun y hy lt => ?_⟩
    rcases List.mem_append.mp hy with hy | hy
    · simpa using before y hy
    · -- the nodes from `x` on are not below it
      have above := (List.pairwise_append.mp inv.ascending).2.1
      rcases List.mem_cons.mp hy with rfl | hy
      · exact absurd lt (lt_irrefl y)
      · exact absurd ((List.pairwise_cons.mp above).1 y hy) (lt_asymm lt)

/-! ## Appending a block -/

/-- What `sbrk` promises: the bytes it hands out are above all earlier ones. -/
def Sound (os : Os) (s : State) : Prop :=
  ∀ n raw, os.sbrk n = some raw → raw ≠ 0 ∧ raw + n < 2 ^ 64 ∧ ∀ r ∈ s.obtained, r.1 + r.2 ≤ raw

/-- The four stores of `alloc_new_block` to a new block. -/
def initBlock (raw size : Nat) (mem : Mem) : Mem :=
  (((mem.setSize raw size).setIsFree raw false).setNext raw 0).setPrev raw 0

theorem touches_initBlock (size : Nat) (mem : Mem) (hraw : raw ∈ A) : Mem.Touches (metaRanges A) mem (initBlock raw size mem) :=
  (((Mem.touches_setSize hraw).trans (Mem.touches_setIsFree hraw)).trans (Mem.touches_setNext hraw)).trans
    (Mem.touches_setPrev hraw)

theorem header_initBlock (raw : Nat) (mem : Mem) (small : size < 2 ^ 64) : (initBlock raw size mem).header raw =
    { mem.header raw with size := size, isFree := false, next := 0, prev := 0 } := by
  simpa [initBlock] using small

/-- A block of `size` bytes at `raw` joined the list, and the others were left alone. -/
structure Appended (s s' : State) (l : List Nat) (raw size : Nat) : Prop where
  inv : Inv s' (l ++ [raw])
  size : s'.size raw = size
  used : s'.isFree raw = false
  rest : ∀ x ∈ l, s'.isFree x = s.isFree x ∧ Keeps s s' x

namespace Inv

theorem above (inv : Inv s l) (fresh : ∀ r ∈ s.obtained, r.1 + r.2 ≤ raw) (hx : x ∈ l) :
    x + metaSize + s.size x ≤ raw := by
  have mem : (x, metaSize + s.size x) ∈ s.obtained := by
    rw [inv.obtained]
    exact List.mem_map_of_mem hx
  have := fresh _ mem
  omega

theorem places_append (inv : Inv s l) (fresh : ∀ r ∈ s.obtained, r.1 + r.2 ≤ raw) (pos : raw ≠ 0)
    (lt : raw < 2 ^ 64) : Places {x | x ∈ l ++ [raw]} := by
  have mem : ∀ {x}, x ∈ l ++ [raw] → x ∈ l ∨ x = raw := fun hx => by simpa using hx
  have apart : ∀ {x}, x ∈ l → Apart x raw := fun hx => .inl (by have := inv.above fresh hx; omega)
  refine ⟨fun x hx y hy => ?_, fun x hx => ?_, fun x hx => ?_⟩
  · rcases mem hx with hx | e <;> rcases mem hy with hy | e'
    · exact inv.places.slots x hx y hy
    · exact .inr (e' ▸ apart hx)
    · exact .inr (e ▸ (apart hy).symm)
    · exact .inl (e.trans e'.symm)
  · rcases mem hx with hx | rfl
    · exact inv.places.pos x hx
    · exact pos
  · rcases mem hx with hx | rfl
    · exact inv.places.lt x hx
    · exact lt

/-- A state whose list has one more block. -/
theorem append (inv : Inv s l) (fresh : ∀ r ∈ s.obtained, r.1 + r.2 ≤ raw) (pos : raw ≠ 0)
    (lt : raw + (metaSize + size) < 2 ^ 64) (head : s'.gHead = if l = [] then raw else s.gHead)
    (obtained : s'.obtained = s.obtained ++ [(raw, metaSize + size)])
    (new : s'.size raw = size) (nextNew : s'.next raw = 0) (prevNew : s'.prev raw = l.getLastD 0)
    (sizes : ∀ x ∈ l, s'.size x = s.size x)
    (next : ∀ x ∈ l, s'.next x = if x = l.getLastD 0 then raw else s.next x)
    (prev : ∀ x ∈ l, s'.prev x = s.prev x) : Inv s' (l ++ [raw]) where
  dll := by
    rw [head]
    exact inv.dll.append pos inv.nodup nextNew prevNew next prev
  sorted := by
    refine List.pairwise_append.mpr ⟨?_, List.pairwise_singleton _ _, fun x hx y hy => ?_⟩
    · refine inv.sorted.imp_of_mem fun {x y} hx _ le => ?_
      rw [sizes x hx]
      exact le
    · rw [List.mem_singleton.mp hy, sizes x hx]
      exact inv.above fresh hx
  lt x hx := by
    rcases List.mem_append.mp hx with hx | hx
    · rw [sizes x hx]
      exact inv.lt x hx
    · rw [List.mem_singleton.mp hx, new]
      omega
  obtained := by
    rw [obtained, inv.obtained, List.map_append, List.map_singleton, new]
    congr 1
    exact List.map_congr_left fun x hx => by rw [sizes x hx]

/-- The list grows by the new block as soon as its links and those of the last block are set. -/
theorem appended (inv : Inv s l) (mem : Mem) (fresh : ∀ r ∈ s.obtained, r.1 + r.2 ≤ raw) (pos : raw ≠ 0)
    (lt : raw + (metaSize + size) < 2 ^ 64)
    (new : mem.header raw =
      { s.mem.header raw with size := size, isFree := false, next := 0, prev := l.getLastD 0 })
    (old : ∀ x ∈ l, mem.header x =
      { s.mem.header x with next := if x = l.getLastD 0 then raw else (s.mem.header x).next })
    (touches : Mem.Touches (metaRanges {x | x ∈ l ++ [raw]}) s.mem mem) :
    Appended s ⟨mem, if l = [] then raw else s.gHead, s.obtained ++ [(raw, metaSize + size)]⟩ l raw size := by
  have sizes : ∀ x ∈ l, (mem.header x).size = s.size x := fun x hx => by rw [old x hx]
  refine ⟨inv.append fresh pos lt rfl rfl (by rw [State.size, new]) (by rw [State.next, new]) (by rw [State.prev, new])
    sizes (fun x hx => ?_) fun x hx => ?_, ?_, ?_, fun x hx => ⟨?_, sizes x hx, fun i lt => touches _ fun r hr => ?_⟩⟩
  · rw [State.next, old x hx]
  · rw [State.prev, old x hx]
  · rw [State.size, new]
  · rw [State.isFree, new]
  · rw [State.isFree, old x hx]
  · rw [hr.2]
    have below := inv.above fresh hx
    unfold ptrFromMeta
    rcases List.mem_append.mp hr.1 with hr | hr
    · obtain e | ne := eq_or_ne r.1 x
      · omega
      · have := inv.apart hr hx ne
        omega
    · have := List.mem_singleton.mp hr
      omega

/-- **`alloc_new_block`** appends a block of exactly the requested size, or leaves the
state alone when `sbrk` fails. -/
theorem allocNewBlock (inv : Inv s l) (sound : Sound os s) (small : size ≤ maxAllocSize) :
    (os.sbrk (metaSize + size) = none ∧ FirstFit.allocNewBlock os size s = some (0, s)) ∨
      ∃ raw s', os.sbrk (metaSize + size) = some raw ∧ FirstFit.allocNewBlock os size s = some (raw, s') ∧
        raw ≠ 0 ∧ raw ∉ l ∧ Appended s s' l raw size := by
  have max : maxAllocSize = 100000000 := rfl
  have word : metaSize = 32 := rfl
  have total : (metaSize + size) % 2 ^ 64 = metaSize + size := Nat.mod_eq_of_lt (by omega)
  cases answer : os.sbrk (metaSize + size) with
  | none =>
    left
    simp only [FirstFit.allocNewBlock, total, answer, and_self]
  | some raw =>
    right
    obtain ⟨pos, lt, fresh⟩ := sound _ _ answer
    have slots := (inv.places_append fresh pos (by omega)).slots
    have hraw : raw ∈ l ++ [raw] := List.mem_append_right l (List.mem_singleton.mpr rfl)
    have sub : ∀ {x}, x ∈ l → x ∈ l ++ [raw] := fun hx => List.mem_append_left [raw] hx
    have out : raw ∉ l := fun hx => by
      have := inv.above fresh hx
      omega
    have touches := touches_initBlock (A := {x | x ∈ l ++ [raw]}) size s.mem hraw
    have new := header_initBlock raw s.mem (by omega : size < 2 ^ 64)
    have old : ∀ x ∈ l, (initBlock raw size s.mem).header x = s.mem.header x := fun x hx =>
      Mem.header_of_apart (touches_initBlock size s.mem rfl) ((slots x (sub hx) raw hraw).resolve_left fun e => out (e ▸ hx))
    cases l with
    | nil =>
      have first : s.gHead = 0 := inv.gHead_eq_zero.mpr rfl
      refine ⟨raw, _, rfl, ?_, pos, out, inv.appended _ fresh pos lt new (fun x hx => absurd hx List.not_mem_nil) touches⟩
      simp only [FirstFit.allocNewBlock, total, answer, if_pos first]
      rfl
    | cons y l =>
      have more : s.gHead ≠ 0 := fun e => List.cons_ne_nil y l (inv.gHead_eq_zero.mp e)
      have hlast : l.getLastD y ∈ y :: l := List.getLastD_mem_cons
      have tail : findTail (initBlock raw size s.mem) s.gHead = some (l.getLastD y) :=
        findTail_eq (inv.dll.chain.congr fun x hx => by rw [State.next, old x hx])
      have ne : raw ≠ l.getLastD y := fun e => out (e ▸ hlast)
      -- the links of the last block and of the new one
      have link : ∀ x ∈ y :: l ++ [raw], (((initBlock raw size s.mem).setNext (l.getLastD y) raw).setPrev raw
          (l.getLastD y)).header x =
          if x = raw then { (initBlock raw size s.mem).header x with prev := l.getLastD y }
          else if x = l.getLastD y then { (initBlock raw size s.mem).header x with next := raw }
          else (initBlock raw size s.mem).header x := by
        intro x hx
        have ltLast := inv.places.lt _ hlast
        rw [slots.header_setPrev hx hraw, slots.header_setNext hx (sub hlast), Nat.mod_eq_of_lt (by omega : raw < 2 ^ 64),
          Nat.mod_eq_of_lt ltLast]
        by_cases e : x = raw
        · rw [if_pos e, if_pos e, if_neg (by rw [e]; exact ne)]
        · rw [if_neg e, if_neg e]
      refine ⟨raw, _, rfl, ?_, pos, out, inv.appended
        (((initBlock raw size s.mem).setNext (l.getLastD y) raw).setPrev raw (l.getLastD y)) fresh pos lt ?_ (fun x hx => ?_)
        ((touches.trans (Mem.touches_setNext (sub hlast))).trans (Mem.touches_setPrev hraw))⟩
      · simp only [FirstFit.allocNewBlock, total, answer, if_neg more]
        change (findTail (initBlock raw size s.mem) s.gHead).bind _ = _
        rw [tail]
        rfl
      · rw [link raw hraw, if_pos rfl, new, List.getLastD_cons]
      · rw [link x (sub hx), if_neg fun e : x = raw => out (e ▸ hx), old x hx, List.getLastD_cons]
        split_ifs <;> rfl

end Inv

/-! ## The public functions -/

/-- The block `x` was handed out for a request of `size` bytes, and the others were left alone. -/
structure Grants (s s' : State) (l l' : List Nat) (x size : Nat) : Prop where
  inv : Inv s' l'
  blocks : ∀ z, z ∈ l' ↔ z ∈ l ∨ z = x
  fresh : x ∈ l → s.isFree x = true
  used : s'.isFree x = false
  fits : size ≤ s'.size x
  rest : ∀ z ∈ l, z ≠ x → s'.isFree z = s.isFree z
  sizes : ∀ z ∈ l, s'.size z = s.size z
  keeps : ∀ z ∈ l, z ≠ x → Keeps s s' z

theorem Appended.grants (h : Appended s s' l raw size) (out : raw ∉ l) : Grants s s' l (l ++ [raw]) raw size where
  inv := h.inv
  blocks z := by simp
  fresh hx := absurd hx out
  used := h.used
  fits := h.size.ge
  rest z hz _ := (h.rest z hz).1
  sizes z hz := (h.rest z hz).2.size
  keeps z hz _ := (h.rest z hz).2

namespace Inv

/-- Reusing a free block. -/
theorem reuse (inv : Inv s l) (hx : x ∈ l) (serves : Serves s size x) :
    Grants s { s with mem := s.mem.setIsFree x false } l l x size := by
  obtain ⟨inv', hdr, keeps⟩ := inv.setIsFree hx false
  refine ⟨inv', fun z => ⟨.inl, ?_⟩, fun _ => serves.1, ?_, ?_, fun z hz ne => ?_, fun z hz => (keeps z hz).size,
    fun z hz _ => keeps z hz⟩
  · rintro (hz | rfl)
    · exact hz
    · exact hx
  · rw [State.isFree, hdr x hx, if_pos rfl]
  · rw [(keeps x hx).size]
    exact serves.2
  · rw [State.isFree, hdr z hz, if_neg ne]

end Inv

/-- How `smalloc` serves a request: the lowest free block that is large enough, whatever
`sbrk` would answer, and a new block from `sbrk` only when there is none. -/
inductive Served (os : Os) (size : Nat) (s : State) (l : List Nat) : Nat × State → Prop where
  | reused (x : Nat) (mem : x ∈ l) (serves : Serves s size x) (lowest : ∀ y ∈ l, y < x → ¬Serves s size y)
      (anyOs : ∀ os', smalloc os' size s = some (ptrFromMeta x, { s with mem := s.mem.setIsFree x false })) :
      Served os size s l (ptrFromMeta x, { s with mem := s.mem.setIsFree x false })
  | appended (raw : Nat) (s' : State) (noFit : ∀ y ∈ l, ¬Serves s size y)
      (sbrk : os.sbrk (metaSize + size) = some raw) (out : raw ∉ l) (app : Appended s s' l raw size) :
      Served os size s l (ptrFromMeta raw, s')
  | failed (noFit : ∀ y ∈ l, ¬Serves s size y) (sbrk : os.sbrk (metaSize + size) = none) :
      Served os size s l (0, s)

theorem smalloc_of_refused (bad : Refused size) : smalloc os size s = some (0, s) := if_pos bad

theorem smalloc_eq (ok : ¬Refused size) : smalloc os size s = (findFree size s).bind fun m =>
    if m ≠ 0 then some (ptrFromMeta m, { s with mem := s.mem.setIsFree m false })
    else (allocNewBlock os size s).map fun r => if r.1 = 0 then (0, r.2) else (ptrFromMeta r.1, r.2) := by
  have ok' : ¬(size = 0 ∨ exceedsMax size = true) := ok
  simp only [smalloc, if_neg ok', Option.bind_eq_bind]
  congr 1
  funext m
  split_ifs
  · rfl
  · cases allocNewBlock os size s with
    | none => rfl
    | some r =>
      simp only [Option.bind_some, Option.map_some]
      split_ifs <;> rfl

/-- **`smalloc`**. -/
theorem Inv.smalloc (inv : Inv s l) (sound : Sound os s) (ok : ¬Refused size) :
    ∃ r, smalloc os size s = some r ∧ Served os size s l r := by
  rcases inv.findFree size with ⟨run, noFit⟩ | ⟨x, hx, run, pos, serves, lowest⟩
  · rcases inv.allocNewBlock sound (not_refused.mp ok).2 with ⟨sbrk, alloc⟩ | ⟨raw, s', sbrk, alloc, pos, out, app⟩
    · refine ⟨(0, s), ?_, .failed noFit sbrk⟩
      rw [smalloc_eq ok, run, alloc]
      rfl
    · refine ⟨(ptrFromMeta raw, s'), ?_, .appended raw s' noFit sbrk out app⟩
      rw [smalloc_eq ok, run, alloc]
      simp only [Option.bind_some, ne_eq, not_true, if_false, Option.map_some, if_neg pos]
  · have any : ∀ os', FirstFit.smalloc os' size s =
        some (ptrFromMeta x, { s with mem := s.mem.setIsFree x false }) := fun os' => by
      rw [smalloc_eq ok, run]
      simp only [Option.bind_some, ne_eq, pos, not_false_eq_true, if_true]
    exact ⟨_, any os, .reused x hx serves lowest any⟩

/-- What a client sees of a served request. -/
theorem Served.grants {r : Nat × State} (inv : Inv s l) (h : Served os size s l r) :
    r = (0, s) ∨ ∃ x l', r.1 = ptrFromMeta x ∧ Grants s r.2 l l' x size := by
  cases h with
  | reused x mem serves => exact .inr ⟨x, l, rfl, inv.reuse mem serves⟩
  | appended raw s' _ _ out app => exact .inr ⟨raw, _, rfl, app.grants out⟩
  | failed => exact .inl rfl

theorem sfree_eq (used : s.isFree m = false) :
    sfree (ptrFromMeta m) s = { s with mem := s.mem.setIsFree m true } := by
  have used' : ¬(s.mem.header m).isFree = true := by
    rw [Bool.not_eq_true]
    exact used
  simp only [sfree, if_neg (ptrFromMeta_ne_zero m), metaFromPtr_ptrFromMeta, if_neg used']

/-- The block `m` was freed, and the others were left alone. -/
structure Frees (s s' : State) (l : List Nat) (m : Nat) : Prop where
  inv : Inv s' l
  free : s'.isFree m = true
  rest : ∀ z ∈ l, z ≠ m → s'.isFree z = s.isFree z
  keeps : ∀ z ∈ l, Keeps s s' z

theorem Inv.sfree (inv : Inv s l) (hm : m ∈ l) (used : s.isFree m = false) :
    Frees s (FirstFit.sfree (ptrFromMeta m) s) l m := by
  obtain ⟨inv', hdr, keeps⟩ := inv.setIsFree hm true
  rw [sfree_eq used]
  refine ⟨inv', ?_, fun z hz ne => ?_, keeps⟩
  · rw [State.isFree, hdr m hm, if_pos rfl]
  · rw [State.isFree, hdr z hz, if_neg ne]

/-- The contents of `m` moved to the block `x`, handed out for `size` bytes, and `m` was freed. -/
structure Moves (s s' : State) (l l' : List Nat) (m x size : Nat) : Prop where
  inv : Inv s' l'
  ne : x ≠ m
  blocks : ∀ z, z ∈ l' ↔ z ∈ l ∨ z = x
  fresh : x ∈ l → s.isFree x = true
  used : s'.isFree x = false
  free : s'.isFree m = true
  fits : size ≤ s'.size x
  rest : ∀ z ∈ l, z ≠ m → z ≠ x → s'.isFree z = s.isFree z
  sizes : ∀ z ∈ l, s'.size z = s.size z
  keeps : ∀ z ∈ l, z ≠ x → Keeps s s' z
  copied : ∀ i < s.size m, s'.mem (ptrFromMeta x + i) = s.mem (ptrFromMeta m + i)

/-- The outcomes of `srealloc` on the used block `m`. -/
inductive Reallocated (os : Os) (size : Nat) (s : State) (l : List Nat) (m : Nat) : Nat × State → Prop where
  | stays (fits : size ≤ s.size m) : Reallocated os size s l m (ptrFromMeta m, s)
  | fails (short : s.size m < size) (noFit : ∀ y ∈ l, ¬Serves s size y) (sbrk : os.sbrk (metaSize + size) = none) :
      Reallocated os size s l m (0, s)
  | moves (x : Nat) (s' : State) (l' : List Nat) (short : s.size m < size) (moves : Moves s s' l l' m x size) :
      Reallocated os size s l m (ptrFromMeta x, s')

/-- The copy of `srealloc`, once the new block was handed out. -/
theorem Grants.move (hm : m ∈ l) (used : s.isFree m = false) (short : s.size m < size)
    (grants : Grants s s' l l' x size) :
    Moves s (FirstFit.sfree (ptrFromMeta m)
      { s' with mem := s'.mem.memmove (ptrFromMeta x) (ptrFromMeta m) (s'.mem.header m).size }) l l' m x size := by
  have ne : m ≠ x := by
    rintro rfl
    exact absurd (grants.fresh hm) (by rw [used]; exact Bool.false_ne_true)
  have sub : ∀ z ∈ l, z ∈ l' := fun z hz => (grants.blocks z).mpr (.inl hz)
  have hx : x ∈ l' := (grants.blocks x).mpr (.inr rfl)
  have len : (s'.mem.header m).size = s.size m := grants.sizes m hm
  have fits := grants.fits
  -- the copy, then the free
  obtain ⟨inv₁, hdr, keeps⟩ := grants.inv.write (n := (s'.mem.header m).size) hx (by omega)
    (Mem.touches_memmove (m := s'.mem) (s := ptrFromMeta m) (r := (ptrFromMeta x, (s'.mem.header m).size)) rfl
      (le_refl _) (le_refl _))
  generalize copied : s'.mem.memmove (ptrFromMeta x) (ptrFromMeta m) (s'.mem.header m).size = mem at *
  have size₁ : ∀ z ∈ l', (mem.header z).size = s'.size z := fun z hz => by rw [hdr z hz]
  have free₁ : ∀ z ∈ l', (mem.header z).isFree = s'.isFree z := fun z hz => by rw [hdr z hz]
  have used₁ : (mem.header m).isFree = false := by
    rw [free₁ m (sub m hm), grants.rest m hm ne, used]
  have frees := inv₁.sfree (sub m hm) used₁
  generalize FirstFit.sfree (ptrFromMeta m) { s' with mem := mem } = s₂ at *
  have size₂ : ∀ z ∈ l', s₂.size z = s'.size z := fun z hz => (frees.keeps z hz).size.trans (size₁ z hz)
  refine ⟨frees.inv, ne.symm, grants.blocks, grants.fresh, ?_, frees.free, ?_, fun z hz neM neX => ?_, fun z hz => ?_,
    fun z hz neX => ?_, fun i lt => ?_⟩
  · rw [frees.rest x hx ne.symm]
    exact (free₁ x hx).trans grants.used
  · rw [size₂ x hx]
    exact fits
  · rw [frees.rest z (sub z hz) neM]
    exact (free₁ z (sub z hz)).trans (grants.rest z hz neX)
  · rw [size₂ z (sub z hz), grants.sizes z hz]
  · exact ((grants.keeps z hz neX).trans (keeps z (sub z hz) neX)).trans (frees.keeps z (sub z hz))
  · have inX : i < (mem.header x).size := by
      rw [size₁ x hx]
      omega
    rw [(frees.keeps x hx).bytes i inX, ← (grants.keeps m hm ne).bytes i lt]
    simp only [← copied]
    exact Mem.memmove_apply_of_lt (by omega)

/-- **`srealloc`** of a used block. -/
theorem Inv.srealloc (inv : Inv s l) (sound : Sound os s) (ok : ¬Refused size) (hm : m ∈ l)
    (used : s.isFree m = false) :
    ∃ r, FirstFit.srealloc os (ptrFromMeta m) size s = some r ∧ Reallocated os size s l m r := by
  have ok' : ¬(size = 0 ∨ exceedsMax size = true) := ok
  simp only [FirstFit.srealloc, if_neg ok', if_neg (ptrFromMeta_ne_zero m), metaFromPtr_ptrFromMeta]
  by_cases fits : size ≤ (s.mem.header m).size
  · rw [if_pos fits]
    exact ⟨_, rfl, .stays fits⟩
  · rw [if_neg fits]
    have short : s.size m < size := not_le.mp fits
    obtain ⟨⟨q, s₁⟩, run, served⟩ := inv.smalloc sound ok
    rw [run]
    rcases served.grants inv with e | ⟨x, l', e, grants⟩
    · obtain ⟨rfl, rfl⟩ := Prod.mk.inj e
      refine ⟨(0, s₁), rfl, ?_⟩
      cases served with
      | failed noFit sbrk => exact .fails short noFit sbrk
    · obtain rfl : q = ptrFromMeta x := e
      refine ⟨_, ?_, .moves x _ l' short (grants.move hm used short)⟩
      simp only [Option.bind_eq_bind, Option.bind_some, if_neg (ptrFromMeta_ne_zero x)]
      rfl

/-- `scalloc` clears the block that `smalloc` hands out for the product. -/
theorem scalloc_eq (os : Os) (num size : Nat) (ok : num ≠ 0 ∧ size ≠ 0) : scalloc os num size s =
    (smalloc os (product num size) s).map fun r =>
      if r.1 = 0 then (0, r.2) else (r.1, { r.2 with mem := r.2.mem.memset r.1 0 (product num size) }) := by
  have pos : ¬(num = 0 ∨ size = 0) := not_or.mpr ok
  unfold FirstFit.scalloc
  rw [if_neg pos]
  by_cases max : exceedsMax (num * size % 2 ^ 64) = true
  · have refused : Refused (product num size) := .inr max
    simp only [if_pos max, smalloc_of_refused refused, Option.map_some, if_true]
  · simp only [if_neg max]
    change (smalloc os (product num size) s).bind _ = _
    cases smalloc os (product num size) s with
    | none => rfl
    | some r =>
      simp only [Option.bind_some, Option.map_some]
      split_ifs <;> rfl

/-- Clearing the bytes asked for. -/
theorem Grants.clear (grants : Grants s s' l l' x size) :
    Grants s { s' with mem := s'.mem.memset (ptrFromMeta x) 0 size } l l' x size := by
  have hx : x ∈ l' := (grants.blocks x).mpr (.inr rfl)
  have sub : ∀ z ∈ l, z ∈ l' := fun z hz => (grants.blocks z).mpr (.inl hz)
  obtain ⟨inv, hdr, keeps⟩ := grants.inv.write (n := size) hx grants.fits
    (Mem.touches_memset (m := s'.mem) (b := 0) (r := (ptrFromMeta x, size)) rfl (le_refl _) (le_refl _))
  refine ⟨inv, grants.blocks, grants.fresh, ?_, ?_, fun z hz ne => ?_, fun z hz => ?_, fun z hz ne => ?_⟩
  · rw [State.isFree, hdr x hx]
    exact grants.used
  · rw [State.size, hdr x hx]
    exact grants.fits
  · rw [State.isFree, hdr z (sub z hz)]
    exact grants.rest z hz ne
  · rw [State.size, hdr z (sub z hz)]
    exact grants.sizes z hz
  · exact (grants.keeps z hz ne).trans (keeps z (sub z hz) ne)

end OsProjects.Malloc.FirstFit
