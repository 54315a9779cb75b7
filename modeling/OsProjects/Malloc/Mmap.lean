import OsProjects.Malloc.Merge

/-!
# The mmap list

Blocks of `MMAP_THRESHOLD` bytes and more are regions of their own, linked into
`mmap_list`. `MmapInv s M` says that the list read from `mmap_list` is `M`, that
the mapped regions are exactly the blocks of `M`, each with the length it was
mapped with, and that they do not overlap.
-/

namespace OsProjects.Malloc.Buddy

open Links

variable {s s' : State} {M : List Nat} {m x j : Nat}

/-! ## Rounding -/

/-- Masking off the low `j` bits. -/
theorem and_mask {y : Nat} (hy : y < 2 ^ 64) (hj : j < 64) : y &&& (2 ^ 64 - 1 - (2 ^ j - 1)) = 2 ^ j * (y / 2 ^ j) := by
  have mask : 2 ^ 64 - 1 - (2 ^ j - 1) = 2 ^ j * (2 ^ (64 - j) - 1) := by
    have split : 2 ^ j * 2 ^ (64 - j) = 2 ^ 64 := by rw [← pow_add]; congr 1; omega
    have := Nat.two_pow_pos j
    rw [Nat.mul_sub, split]
    omega
  rw [mask]
  refine Nat.eq_of_testBit_eq fun i => ?_
  rw [Nat.testBit_and, Nat.testBit_two_pow_mul, Nat.testBit_two_pow_sub_one, Nat.testBit_two_pow_mul,
    Nat.testBit_div_two_pow]
  by_cases low : j ≤ i
  · rw [Nat.sub_add_cancel low]
    by_cases high : i < 64
    · have inside : i - j < 64 - j := by omega
      simp [low, inside]
    · have out : y.testBit i = false :=
        Nat.testBit_lt_two_pow (hy.trans_le (Nat.pow_le_pow_right (by omega) (by omega)))
      simp [out]
  · simp [low]

/-- Rounding up to a power of two. -/
theorem alignUp_spec {n : Nat} (hj : j < 64) (hn : n ≤ 2 ^ 62) :
    n ≤ alignUp n (2 ^ j) ∧ alignUp n (2 ^ j) < n + 2 ^ j ∧ 2 ^ j ∣ alignUp n (2 ^ j) := by
  have pos := Nat.two_pow_pos j
  have page : 2 ^ j ≤ 2 ^ 63 := Nat.pow_le_pow_right (by omega) (by omega)
  have eq : alignUp n (2 ^ j) = 2 ^ j * ((n + 2 ^ j - 1) / 2 ^ j) := by
    rw [alignUp, Nat.mod_eq_of_lt (by omega), and_mask (by omega) hj]
  have div := Nat.div_add_mod (n + 2 ^ j - 1) (2 ^ j)
  have mod := Nat.mod_lt (n + 2 ^ j - 1) pos
  rw [eq]
  exact ⟨by omega, by omega, Nat.dvd_mul_right _ _⟩

/-! ## The invariant -/

structure MmapInv (s : State) (M : List Nat) : Prop where
  dll : Dll s.next s.prev 0 0 s.mmapList M
  nodup : M.Nodup
  mapped : s.mapped = M.map fun x => (x, metaSize + s.size x)
  isMmap : ∀ x ∈ M, s.isMmap x = true
  alloc : ∀ x ∈ M, s.isFree x = false
  large : ∀ x ∈ M, mmapThreshold ≤ s.size x
  lt : ∀ x ∈ M, x + metaSize + s.size x < 2 ^ 64
  apart : ∀ x ∈ M, ∀ y ∈ M, x ≠ y → x + metaSize + s.size x ≤ y ∨ y + metaSize + s.size y ≤ x

theorem MmapInv.start (mem : Mem) : MmapInv (State.start mem) [] := by
  constructor <;> simp [State.start, Dll]

/-- Everything but the metadata of the list's blocks may change. -/
theorem MmapInv.frame (h : MmapInv s M) (hdr : ∀ x ∈ M, s'.mem.header x = s.mem.header x)
    (globals : s'.mmapList = s.mmapList ∧ s'.mapped = s.mapped) : MmapInv s' M := by
  have size : ∀ x ∈ M, s'.size x = s.size x := fun x hx => by rw [State.size, hdr x hx]
  refine ⟨?_, h.nodup, ?_, fun x hx => ?_, fun x hx => ?_, fun x hx => ?_, fun x hx => ?_, fun x hx y hy ne => ?_⟩
  · rw [globals.1]
    exact h.dll.congr (fun x hx => by rw [State.next, hdr x hx]) fun x hx => by rw [State.prev, hdr x hx]
  · rw [globals.2, h.mapped]
    exact List.map_congr_left fun x hx => by rw [size x hx]
  · rw [State.isMmap, hdr x hx]
    exact h.isMmap x hx
  · rw [State.isFree, hdr x hx]
    exact h.alloc x hx
  · exact size x hx ▸ h.large x hx
  · exact size x hx ▸ h.lt x hx
  · rw [size x hx, size y hy]
    exact h.apart x hx y hy ne

theorem MmapInv.places (h : MmapInv s M) : Places {x | x ∈ M} where
  slots x hx y hy := by
    by_cases e : x = y
    · exact .inl e
    · exact .inr ((h.apart x hx y hy e).imp (by omega) (by omega))
  pos x hx := h.dll.ne_null hx
  lt x hx := by
    have := h.lt x hx
    omega

theorem MmapInv.head (h : MmapInv s M) : s.mmapList = 0 ∨ s.mmapList ∈ M := by
  cases M with
  | nil => exact .inl h.dll
  | cons y M => exact .inr (h.dll.1 ▸ List.mem_cons_self)

/-! ## Mapping a region -/

section Enlist

variable {A : Set Nat} {total : Nat} (hA : Places A) (hm : m ∈ A) (head : s.mmapList = 0 ∨ s.mmapList ∈ A)
  (ne : s.mmapList ≠ m)
include hA hm head

theorem mmapEnlist_header (ed : Edition) (huge : Bool) (le : metaSize ≤ total) (lt : total < 2 ^ 64) (hx : x ∈ A) :
    (mmapEnlist ed huge m total s).mem.header x =
      if x = m then
        { size := total - metaSize
          isFree := false
          isMmap := true
          isHuge := match ed with
            | .malloc3 => (s.mem.header m).isHuge
            | .malloc4 => huge
          next := s.mmapList
          prev := if m = s.mmapList then m else 0 }
      else { s.mem.header x with prev := if x = s.mmapList then m else s.prev x } := by
  have len : subSize total metaSize % 2 ^ 64 = total - metaSize := by
    rw [subSize_of_le le lt]
    exact Nat.mod_eq_of_lt (by omega)
  have small : s.mmapList < 2 ^ 64 := head.elim (fun e => by omega) (hA.lt _)
  have body : ∀ mem : Mem, (if s.mmapList ≠ 0 then mem.setPrev s.mmapList m else mem).header x =
      { mem.header x with prev := if x = s.mmapList then m else (mem.header x).prev } := by
    intro mem
    by_cases e : s.mmapList = 0
    · have out : x ≠ s.mmapList := e ▸ hA.pos x hx
      rw [if_neg (not_not.mpr e), if_neg out]
    · rw [if_pos e, hA.slots.header_setPrev hx (head.resolve_left e), Nat.mod_eq_of_lt (hA.lt m hm)]
      split_ifs <;> rfl
  simp only [mmapEnlist, body]
  by_cases e : x = m
  · subst e
    cases ed <;> simp only [mmapFlags, Mem.header_setPrev_self, Mem.header_setNext_self, Mem.header_setIsHuge_self,
      Mem.header_setIsMmap_self, Mem.header_setIsFree_self, Mem.header_setSize_self, len,
      Nat.mod_eq_of_lt small, Nat.zero_mod, if_pos]
  · cases ed <;> simp only [mmapFlags, hA.slots.header_setPrev hx hm, hA.slots.header_setNext hx hm,
      hA.slots.header_setIsHuge hx hm, hA.slots.header_setIsMmap hx hm, hA.slots.header_setIsFree hx hm,
      hA.slots.header_setSize hx hm, if_neg e]

omit hA in
theorem mmapEnlist_touches (ed : Edition) (huge : Bool) :
    Mem.Touches (metaRanges A) s.mem (mmapEnlist ed huge m total s).mem := by
  have flags : ∀ mem, Mem.Touches (metaRanges A) mem (mmapFlags ed huge mem m) := by
    intro mem
    have two := (Mem.touches_setIsFree (m := mem) (b := false) hm).trans (Mem.touches_setIsMmap (b := true) hm)
    cases ed with
    | malloc3 => exact two
    | malloc4 => exact two.trans (Mem.touches_setIsHuge hm)
  have body := (((Mem.touches_setSize (m := s.mem) (v := subSize total metaSize) hm).trans (flags _)).trans
    (Mem.touches_setNext (v := s.mmapList) hm)).trans (Mem.touches_setPrev (v := 0) hm)
  simp only [mmapEnlist]
  split_ifs with e
  · exact body.trans (Mem.touches_setPrev (head.resolve_left e))
  · exact body

end Enlist

/-- Room for a new region: it meets no block of the list. -/
def FreshRegion (s : State) (M : List Nat) (m total : Nat) : Prop :=
  ∀ x ∈ M, m + total ≤ x ∨ x + metaSize + s.size x ≤ m

section Room

variable {total : Nat} (h : MmapInv s M) (lt : m + total < 2 ^ 64) (large : metaSize + mmapThreshold ≤ total)
  (fresh : FreshRegion s M m total)
include h lt large fresh

omit lt in
theorem MmapInv.notMem_of_fresh : m ∉ M := by
  intro hm
  have := fresh m hm
  have := h.large m hm
  have threshold : mmapThreshold = 131072 := rfl
  omega

theorem MmapInv.places_cons (pos : m ≠ 0) : Places {x | x ∈ m :: M} := by
  have away : ∀ x ∈ M, Apart x m := by
    intro x hx
    have := fresh x hx
    exact this.symm.imp (by omega) (by omega)
  refine ⟨?_, List.forall_mem_cons.mpr ⟨pos, h.places.pos⟩, List.forall_mem_cons.mpr ⟨by omega, h.places.lt⟩⟩
  rintro x (_ | ⟨_, hx⟩) y (_ | ⟨_, hy⟩)
  · exact .inl rfl
  · exact .inr (away y hy).symm
  · exact .inr (away x hx)
  · exact h.places.slots x hx y hy

/-- A block in front of the list: the old first block gets it as its predecessor, and
nothing else changes in the old blocks. -/
theorem MmapInv.cons (pos : m ≠ 0)
    (old : ∀ x ∈ M, s'.mem.header x = { s.mem.header x with prev := if x = s.mmapList then m else s.prev x })
    (size : s'.size m = total - metaSize) (alloc : s'.isFree m = false) (mmap : s'.isMmap m = true)
    (next : s'.next m = s.mmapList) (prev : s'.prev m = 0) (first : s'.mmapList = m)
    (mapped : s'.mapped = (m, total) :: s.mapped) : MmapInv s' (m :: M) := by
  have out := h.notMem_of_fresh large fresh
  have same : ∀ x ∈ M, s'.size x = s.size x := fun x hx => by rw [State.size, old x hx]
  have len : metaSize + (total - metaSize) = total := Nat.add_sub_cancel' (by omega)
  constructor
  · rw [first]
    apply h.dll.push pos h.nodup next prev
    · exact fun x hx => by rw [State.next, old x hx]
    · exact fun x hx => by rw [State.prev, old x hx]
  · exact List.nodup_cons.mpr ⟨out, h.nodup⟩
  · rw [mapped, h.mapped, List.map_cons, size, len]
    congr 1
    exact List.map_congr_left fun x hx => by rw [same x hx]
  · refine List.forall_mem_cons.mpr ⟨mmap, fun x hx => ?_⟩
    rw [State.isMmap, old x hx]
    exact h.isMmap x hx
  · refine List.forall_mem_cons.mpr ⟨alloc, fun x hx => ?_⟩
    rw [State.isFree, old x hx]
    exact h.alloc x hx
  · exact List.forall_mem_cons.mpr ⟨by omega, fun x hx => same x hx ▸ h.large x hx⟩
  · exact List.forall_mem_cons.mpr ⟨by omega, fun x hx => same x hx ▸ h.lt x hx⟩
  · rintro x (_ | ⟨_, hx⟩) y (_ | ⟨_, hy⟩) ne
    · exact absurd rfl ne
    · have := fresh y hy
      rw [same y hy, size]
      omega
    · have := fresh x hx
      rw [same x hx, size]
      omega
    · rw [same x hx, same y hy]
      exact h.apart x hx y hy ne

/-- **Mapping a region** puts it in front of the list. -/
theorem MmapInv.enlist (ed : Edition) (huge : Bool) (pos : m ≠ 0) :
    MmapInv (mmapEnlist ed huge m total s) (m :: M) ∧
      (mmapEnlist ed huge m total s).size m = total - metaSize ∧
      (∀ x ∈ M, (mmapEnlist ed huge m total s).size x = s.size x ∧
        (mmapEnlist ed huge m total s).isMmap x = s.isMmap x) ∧
      Mem.Touches (metaRanges {x | x ∈ m :: M}) s.mem (mmapEnlist ed huge m total s).mem ∧ m ∉ M := by
  have out := h.notMem_of_fresh large fresh
  have places := h.places_cons lt large fresh pos
  have head : s.mmapList = 0 ∨ s.mmapList ∈ m :: M := h.head.imp_right (List.mem_cons_of_mem m)
  have neHead : m ≠ s.mmapList := by
    intro e
    rcases h.head with e' | mem
    · exact pos (e.trans e')
    · exact out (e ▸ mem)
  have hdr : ∀ x ∈ m :: M, _ := fun x hx =>
    mmapEnlist_header places List.mem_cons_self head ed huge (by omega : metaSize ≤ total) (by omega) hx
  have neM : ∀ x ∈ M, x ≠ m := fun x hx e => out (e ▸ hx)
  have old : ∀ x ∈ M, _ := fun x hx => (hdr x (List.mem_cons_of_mem m hx)).trans (if_neg (neM x hx))
  have new := (hdr m List.mem_cons_self).trans (if_pos rfl)
  have size : (mmapEnlist ed huge m total s).size m = total - metaSize := by rw [State.size, new]
  have prev : (mmapEnlist ed huge m total s).prev m = 0 := by
    rw [State.prev, new]
    exact if_neg neHead
  refine ⟨?_, size, fun x hx => ⟨by rw [State.size, old x hx], by rw [State.isMmap, old x hx]⟩, ?_, out⟩
  · apply h.cons lt large fresh pos old size _ _ _ prev rfl rfl
    · rw [State.isFree, new]
    · rw [State.isMmap, new]
    · rw [State.next, new]
  · exact mmapEnlist_touches List.mem_cons_self head ed huge

end Room

/-! ## Unmapping -/

theorem mmapFree_mem (m : Nat) (s : State) : (mmapFree m s).mem =
    if ((bypassNext m s).header m).next ≠ 0 then
      (bypassNext m s).setPrev ((bypassNext m s).header m).next ((bypassNext m s).header m).prev
    else bypassNext m s := by
  unfold mmapFree bypassNext
  by_cases e : s.prev m = 0 <;> simp [e]

theorem mmapFree_mmapList (m : Nat) (s : State) :
    (mmapFree m s).mmapList = if s.prev m = 0 then s.next m else s.mmapList := by
  unfold mmapFree
  by_cases e : s.prev m = 0 <;> simp [e]

theorem mmapFree_mapped (m : Nat) (s : State) :
    (mmapFree m s).mapped = s.mapped.erase (m, (metaSize + (mmapFree m s).size m) % 2 ^ 64) := by
  unfold mmapFree
  by_cases e : s.prev m = 0 <;> simp [e]

@[simp] theorem mmapFree_freeLists (m : Nat) (s : State) : (mmapFree m s).freeLists = s.freeLists := by
  unfold mmapFree
  by_cases e : s.prev m = 0 <;> simp [e]

@[simp] theorem mmapFree_heapBase (m : Nat) (s : State) : (mmapFree m s).heapBase = s.heapBase := by
  unfold mmapFree
  by_cases e : s.prev m = 0 <;> simp [e]

@[simp] theorem mmapFree_initialized (m : Nat) (s : State) : (mmapFree m s).initialized = s.initialized := by
  unfold mmapFree
  by_cases e : s.prev m = 0 <;> simp [e]

section Unmap

variable {A : Set Nat} (hA : Places A) (hm : m ∈ A) (hprev : s.prev m = 0 ∨ s.prev m ∈ A)
  (hnext : s.next m = 0 ∨ s.next m ∈ A) (nePrev : s.prev m ≠ m)
include hA hm hprev hnext nePrev

theorem mmapFree_header (hx : x ∈ A) : (mmapFree m s).mem.header x =
    { s.mem.header x with
      next := if x = s.prev m then s.next m else s.next x
      prev := if x = s.next m then s.prev m else s.prev x } := by
  have self : (bypassNext m s).header m = s.mem.header m := by
    rw [bypassNext_header hA hprev hm, if_neg (Ne.symm nePrev)]
  rw [mmapFree_mem, self]
  have first := bypassNext_header hA hprev hx
  by_cases e : s.next m = 0
  · have out : x ≠ s.next m := e ▸ hA.pos x hx
    rw [if_neg (not_not.mpr e), first, if_neg out]
  · rw [if_pos e, hA.slots.header_setPrev hx (hnext.resolve_left e), first,
      Nat.mod_eq_of_lt (Mem.header_prev_lt _ _)]
    split_ifs <;> rfl

theorem mmapFree_touches : Mem.Touches (metaRanges A) s.mem (mmapFree m s).mem := by
  have self : (bypassNext m s).header m = s.mem.header m := by
    rw [bypassNext_header hA hprev hm, if_neg (Ne.symm nePrev)]
  have first : Mem.Touches (metaRanges A) s.mem (bypassNext m s) := by
    unfold bypassNext
    split_ifs with e
    · exact Mem.touches_setNext (hprev.resolve_left e)
    · exact Mem.Touches.refl _ _
  rw [mmapFree_mem, self]
  split_ifs with e
  · exact first.trans (Mem.touches_setPrev (hnext.resolve_left e))
  · exact first

end Unmap

/-- **Unmapping a block** takes it off the list. -/
theorem MmapInv.mmapFree (h : MmapInv s M) (hm : m ∈ M) :
    MmapInv (mmapFree m s) (M.erase m) ∧
      (∀ x ∈ M, (mmapFree m s).size x = s.size x ∧ (mmapFree m s).isMmap x = s.isMmap x) ∧
      Mem.Touches (metaRanges {x | x ∈ M}) s.mem (mmapFree m s).mem := by
  have out : 0 ∉ M := fun mem => h.dll.ne_null mem rfl
  have hprev : s.prev m = 0 ∨ s.prev m ∈ M := h.dll.prev_mem hm
  have hnext : s.next m = 0 ∨ s.next m ∈ M := or_iff_not_imp_left.mpr (h.dll.next_mem hm)
  have nePrev := h.dll.prev_ne_self h.nodup out hm
  have hdr : ∀ x ∈ M, _ := fun x hx => mmapFree_header h.places hm hprev hnext nePrev hx
  have touches := mmapFree_touches h.places hm hprev hnext nePrev
  set s' := Buddy.mmapFree m s with hs'
  have size : ∀ x ∈ M, s'.size x = s.size x := fun x hx => by rw [State.size, hdr x hx]
  have isMmap : ∀ x ∈ M, s'.isMmap x = s.isMmap x := fun x hx => by rw [State.isMmap, hdr x hx]
  have sub : ∀ x ∈ M.erase m, x ∈ M := fun x hx => List.mem_of_mem_erase hx
  refine ⟨?_, fun x hx => ⟨size x hx, isMmap x hx⟩, touches⟩
  constructor
  · rw [hs', mmapFree_mmapList]
    refine h.dll.unlink h.nodup out hm ?_ ?_
    · exact fun x hx _ => by rw [State.next, hdr x hx]
    · exact fun x hx _ => by rw [State.prev, hdr x hx]
  · exact h.nodup.erase m
  · have lt := h.lt m hm
    have region : (metaSize + s'.size m) % 2 ^ 64 = metaSize + s.size m := by
      rw [size m hm]
      exact Nat.mod_eq_of_lt (by omega)
    have inj : Function.Injective fun x => (x, metaSize + s.size x) := fun a b e => (Prod.mk.inj e).1
    rw [mmapFree_mapped, ← hs', region, h.mapped]
    have same : (M.erase m).map (fun x => (x, metaSize + s'.size x)) = (M.erase m).map fun x => (x, metaSize + s.size x) :=
      List.map_congr_left fun x hx => by rw [size x (sub x hx)]
    rw [same, List.map_erase inj]
  · exact fun x hx => (isMmap x (sub x hx)).trans (h.isMmap x (sub x hx))
  · intro x hx
    rw [State.isFree, hdr x (sub x hx)]
    exact h.alloc x (sub x hx)
  · exact fun x hx => size x (sub x hx) ▸ h.large x (sub x hx)
  · exact fun x hx => size x (sub x hx) ▸ h.lt x (sub x hx)
  · intro x hx y hy ne
    rw [size x (sub x hx), size y (sub y hy)]
    exact h.apart x (sub x hx) y (sub y hy) ne

end OsProjects.Malloc.Buddy
