import OsProjects.Malloc.Steps

/-!
# The mapped regions

`munmaps` lists the calls of `munmap` that a call of the client makes. In every run
`mmap_list` holds the live mmap blocks, the mapped regions are exactly these blocks,
each `munmap` undoes one `mmap`, and no block is smaller than the last size it was
granted for (`mmapList_tracks`).
-/

namespace OsProjects.Malloc.Buddy

open Links Tiling

variable {ed : Edition} {os : Os} {s s' s₁ : State} {m n p q x z num size : Nat} {B B' B₁ : Set Nat} {M M' M₁ : List Nat}
  {c c' : Config} {w w' : World} {call : Call} {g : Nat → Nat}

/-! ## The calls of `munmap` -/

/-- A call of `munmap`, with the flag `is_huge` of the block it is made for. -/
structure Munmap where
  addr : Nat
  length : Nat
  isHuge : Bool
  deriving DecidableEq

/-- The `munmap` of `mmap_free`, which reads the metadata after the block is unlinked. -/
def munmapOf (m : Nat) (s : State) : Munmap where
  addr := m
  length := (metaSize + (mmapFree m s).size m) % 2 ^ 64
  isHuge := ((mmapFree m s).mem.header m).isHuge

/-- The `munmap` calls of `sfree`. -/
def sfreeMunmaps (p : Nat) (s : State) : List Munmap :=
  if p = 0 then []
  else
    let m := metaFromPtr p
    if (s.mem.header m).isFree then []
    else if (s.mem.header m).isMmap then [munmapOf m s]
    else []

/-- The `munmap` calls of `srealloc`: a region that is too small is unmapped after its
bytes were copied, and so is what `sfree` unmaps at the end of the last resort. -/
def sreallocMunmaps (ed : Edition) (os : Os) (oldp size : Nat) (s : State) : List Munmap :=
  if size = 0 ∨ exceedsMax size then []
  else if oldp = 0 then []
  else
    let m := metaFromPtr oldp
    if (s.mem.header m).isMmap then
      if size ≤ (s.mem.header m).size then []
      else
        match smalloc ed os size s with
        | some (newp, s) =>
          if newp = 0 then [] else [munmapOf m { s with mem := s.mem.memmove newp oldp (s.mem.header m).size }]
        | none => []
    else
      let usable := subSize (s.mem.header m).size metaSize
      if size ≤ usable then []
      else
        match simulateMerge size s (maxOrder - getOrder s m) m (getOrder s m) with
        | some _ => []
        | none =>
          match smalloc ed os size s with
          | some (newp, s) =>
            if newp = 0 then [] else sfreeMunmaps oldp (unmark ed m { s with mem := s.mem.memmove newp oldp usable })
          | none => []

/-- The `munmap` calls of a call. Only `sfree` and `srealloc` give memory back. -/
def munmaps (ed : Edition) (os : Os) : Call → State → List Munmap
  | .sfree p, s => sfreeMunmaps p s
  | .srealloc oldp size, s => sreallocMunmaps ed os oldp size s
  | .smalloc _, _ => []
  | .scalloc _ _, _ => []
  | .write _ _, _ => []

/-! ## Huge pages -/

/-- A block on huge pages takes whole pages. Only malloc_4 has the flag. -/
def WholePages (ed : Edition) (s : State) (M : List Nat) : Prop :=
  ed = .malloc4 → ∀ x ∈ M, (s.mem.header x).isHuge = true → hugepageSize ∣ metaSize + s.size x

theorem WholePages.congr (h : WholePages ed s M) (hdr : ∀ z ∈ M, s'.mem.header z = s.mem.header z) :
    WholePages ed s' M := by
  intro four x hx huge
  rw [State.size, hdr x hx]
  rw [hdr x hx] at huge
  exact h four x hx huge

/-- The metadata of the blocks that stay mapped keeps its size and flags. -/
theorem MmapInv.mmapFree_header (h : MmapInv s M) (hm : m ∈ M) (hx : x ∈ M) :
    ((Buddy.mmapFree m s).mem.header x).isHuge = (s.mem.header x).isHuge ∧
      (Buddy.mmapFree m s).size x = s.size x := by
  have out : 0 ∉ M := fun mem => h.dll.ne_null mem rfl
  have hdr := Buddy.mmapFree_header h.places hm (h.dll.prev_mem hm) (or_iff_not_imp_left.mpr (h.dll.next_mem hm))
    (h.dll.prev_ne_self h.nodup out hm) hx
  exact ⟨by rw [hdr], by rw [State.size, hdr]⟩

theorem MmapInv.wholePages_enlist {huge : Bool} {total : Nat} (h : WholePages .malloc4 s M)
    (maps : MmapInv (mmapEnlist .malloc4 huge m total s) (m :: M)) (head : s.mmapList = 0 ∨ s.mmapList ∈ M)
    (large : metaSize ≤ total) (lt : total < 2 ^ 64) (whole : huge = true → hugepageSize ∣ total) :
    WholePages .malloc4 (mmapEnlist .malloc4 huge m total s) (m :: M) := by
  intro _ x hx
  rw [State.size, mmapEnlist_header maps.places List.mem_cons_self (head.imp_right (List.mem_cons_of_mem m)) .malloc4 huge
    large lt hx]
  obtain rfl | ne := eq_or_ne x m
  · rw [if_pos rfl]
    intro flag
    rw [Nat.add_sub_cancel' large]
    exact whole flag
  · rw [if_neg ne]
    exact h rfl x (List.mem_of_ne_of_mem ne hx)

/-- **Every elementary step keeps huge blocks whole.** -/
theorem Step.wholePages (step : Step ed c c') (h : WholePages ed c.st c.maps) : WholePages ed c'.st c'.maps := by
  obtain ⟨prim, before, after⟩ := step
  cases prim with
  | boot top => exact fun _ x hx => absurd hx List.not_mem_nil
  | take chosen alloc maps => exact h.congr maps
  | merge merged apart maps => exact h.congr maps
  | map large lt whole heap =>
    rintro rfl
    exact MmapInv.wholePages_enlist h after.maps before.maps.head large lt whole rfl
  | unmap mem heap =>
    intro four x hx huge
    obtain ⟨flag, size⟩ := before.maps.mmapFree_header mem (List.mem_of_mem_erase hx)
    rw [size]
    exact h four x (List.mem_of_mem_erase hx) (flag ▸ huge)
  | write same => exact h.congr fun z hz => same z (.inr hz)

/-! ## What a call unmaps -/

/-- The regions unmapped between two states: at most one, mapped before and not any
more, and of whole pages when on huge pages. -/
structure Unmaps (ed : Edition) (s s' : State) (l : List Munmap) : Prop where
  one : l.length ≤ 1
  mapped : ∀ u ∈ l, (u.addr, u.length) ∈ s.mapped
  gone : ∀ u ∈ l, ∀ r ∈ s'.mapped, r.1 ≠ u.addr
  whole : ed = .malloc4 → ∀ u ∈ l, u.isHuge = true → hugepageSize ∣ u.length

theorem Unmaps.none : Unmaps ed s s' [] :=
  ⟨Nat.zero_le 1, fun _ hu => absurd hu List.not_mem_nil, fun _ hu => absurd hu List.not_mem_nil,
    fun _ _ hu => absurd hu List.not_mem_nil⟩

/-- `mmap_free` of a block that was mapped in `s` with the same size. -/
theorem Inv.unmaps (h : Inv False s B M) (h₁ : Inv False s₁ B₁ M₁) (whole : WholePages ed s₁ M₁) (hm : m ∈ M)
    (hm₁ : m ∈ M₁) (size : s₁.size m = s.size m) : Unmaps ed s (Buddy.mmapFree m s₁) [munmapOf m s₁] := by
  obtain ⟨flag, same⟩ := h₁.maps.mmapFree_header hm₁ hm₁
  have lt := h.maps.lt m hm
  have length : (munmapOf m s₁).length = metaSize + s.size m := by
    unfold munmapOf
    rw [same, size]
    exact Nat.mod_eq_of_lt (by omega)
  obtain ⟨maps, -, -⟩ := h₁.maps.mmapFree hm₁
  refine ⟨le_refl 1, List.forall_mem_singleton.mpr ?_, List.forall_mem_singleton.mpr ?_, fun four =>
    List.forall_mem_singleton.mpr fun huge => ?_⟩
  · rw [h.maps.mapped, length]
    exact List.mem_map.mpr ⟨m, hm, rfl⟩
  · intro r hr e
    rw [maps.mapped] at hr
    obtain ⟨x, hx, rfl⟩ := List.mem_map.mp hr
    exact (h₁.maps.nodup.mem_erase_iff.mp hx).1 e
  · rw [length, ← size]
    exact whole four m hm₁ (flag ▸ huge)

theorem sfreeMunmaps_of_heap (heap : s.isMmap m = false) : sfreeMunmaps (ptrFromMeta m) s = [] := by
  have heap' : (s.mem.header m).isMmap = false := heap
  simp only [sfreeMunmaps, if_neg (ptrFromMeta_ne_zero m), metaFromPtr_ptrFromMeta, heap', Bool.false_eq_true, if_false,
    ite_self]

theorem sfreeMunmaps_of_mmap (alloc : s.isFree m = false) (mmap : s.isMmap m = true) :
    sfreeMunmaps (ptrFromMeta m) s = [munmapOf m s] := by
  have alloc' : (s.mem.header m).isFree = false := alloc
  have mmap' : (s.mem.header m).isMmap = true := mmap
  simp only [sfreeMunmaps, if_neg (ptrFromMeta_ne_zero m), metaFromPtr_ptrFromMeta, alloc', mmap', Bool.false_eq_true,
    if_false, if_true]

theorem Inv.sfree_unmaps (h : Inv False s B M) (whole : WholePages ed s M) (hm : m ∈ Held s B M)
    (run : Buddy.sfree (ptrFromMeta m) s = some s') : Unmaps ed s s' (sfreeMunmaps (ptrFromMeta m) s) := by
  have flag := h.held_flag hm
  rcases hm with ⟨hm, -⟩ | hm
  · rw [sfreeMunmaps_of_heap (h.heap.notMmap m hm)]
    exact Unmaps.none
  · have mmap := h.maps.isMmap m hm
    rw [sfree_mmap flag mmap] at run
    obtain rfl := Option.some_inj.mp run
    rw [sfreeMunmaps_of_mmap flag mmap]
    exact h.unmaps h whole hm hm rfl

section Paths

variable (ok : ¬Refused size)
include ok

theorem sreallocMunmaps_of_fits (heap : s.isMmap m = false) (fits : size ≤ s.usable m) :
    sreallocMunmaps ed os (ptrFromMeta m) size s = [] := by
  have ok' : ¬(size = 0 ∨ exceedsMax size = true) := ok
  have heap' : (s.mem.header m).isMmap = false := heap
  have fits' : size ≤ subSize (s.mem.header m).size metaSize := by
    rw [State.usable, heap] at fits
    exact fits
  simp only [sreallocMunmaps, if_neg ok', if_neg (ptrFromMeta_ne_zero m), metaFromPtr_ptrFromMeta, heap',
    Bool.false_eq_true, if_false, if_pos fits']

theorem sreallocMunmaps_of_mmap (mmap : s.isMmap m = true) : sreallocMunmaps ed os (ptrFromMeta m) size s =
    if size ≤ s.size m then []
    else
      match smalloc ed os size s with
      | some (q, s₁) => if q = 0 then [] else [munmapOf m (copyTo q m (s₁.size m) s₁)]
      | none => [] := by
  have ok' : ¬(size = 0 ∨ exceedsMax size = true) := ok
  have mmap' : (s.mem.header m).isMmap = true := mmap
  simp only [sreallocMunmaps, if_neg ok', if_neg (ptrFromMeta_ne_zero m), metaFromPtr_ptrFromMeta, mmap', if_true]
  rfl

theorem sreallocMunmaps_of_merge {o : Nat} (heap : s.isMmap m = false)
    (sim : simulateMerge size s (maxOrder - getOrder s m) m (getOrder s m) = some o) :
    sreallocMunmaps ed os (ptrFromMeta m) size s = [] := by
  have ok' : ¬(size = 0 ∨ exceedsMax size = true) := ok
  have heap' : (s.mem.header m).isMmap = false := heap
  simp only [sreallocMunmaps, if_neg ok', if_neg (ptrFromMeta_ne_zero m), metaFromPtr_ptrFromMeta, heap',
    Bool.false_eq_true, if_false, sim, ite_self]

theorem sreallocMunmaps_of_copy (heap : s.isMmap m = false) (small : s.usable m < size)
    (sim : simulateMerge size s (maxOrder - getOrder s m) m (getOrder s m) = none)
    (alloc : smalloc ed os size s = some (q, s₁)) : sreallocMunmaps ed os (ptrFromMeta m) size s =
      if q = 0 then [] else sfreeMunmaps (ptrFromMeta m) (unmark ed m (copyTo q m (s.usable m) s₁)) := by
  have ok' : ¬(size = 0 ∨ exceedsMax size = true) := ok
  have heap' : (s.mem.header m).isMmap = false := heap
  have usable : s.usable m = subSize (s.mem.header m).size metaSize := by
    rw [State.usable, heap]
    rfl
  have small' : ¬size ≤ subSize (s.mem.header m).size metaSize := by
    rw [← usable]
    exact not_le.mpr small
  simp only [sreallocMunmaps, if_neg ok', if_neg (ptrFromMeta_ne_zero m), metaFromPtr_ptrFromMeta, heap',
    Bool.false_eq_true, if_false, if_neg small', sim, alloc, copyTo, usable]

end Paths

/-- **What `srealloc` unmaps.** -/
theorem Inv.srealloc_unmaps (h : Inv False s B M) (whole : WholePages ed s M) (sound : Sound os s)
    (hm : m ∈ Held s B M) (run : Buddy.srealloc ed os (ptrFromMeta m) size s = some (p, s')) :
    Unmaps ed s s' (sreallocMunmaps ed os (ptrFromMeta m) size s) := by
  by_cases bad : Refused size
  · have bad' : size = 0 ∨ exceedsMax size = true := bad
    rw [sreallocMunmaps, if_pos bad']
    exact Unmaps.none
  have flag := h.held_flag hm
  obtain fits | small := le_or_gt size (s.usable m)
  · rcases hm with ⟨hm, -⟩ | hm
    · rw [sreallocMunmaps_of_fits bad (h.heap.notMmap m hm) fits]
      exact Unmaps.none
    · have mmap := h.maps.isMmap m hm
      rw [State.usable, mmap, if_pos rfl] at fits
      rw [sreallocMunmaps_of_mmap bad mmap, if_pos fits]
      exact Unmaps.none
  obtain ⟨q, s₁, alloc, -, outcome⟩ := h.reallocCopy sound ed bad hm small
  rcases hm with ⟨hmB, alloc'⟩ | hmM
  · have heap := h.heap.notMmap m hmB
    cases sim : simulateMerge size s (maxOrder - getOrder s m) m (getOrder s m) with
    | some o =>
      rw [sreallocMunmaps_of_merge bad heap sim]
      exact Unmaps.none
    | none =>
      rw [sreallocMunmaps_of_copy bad heap small sim alloc]
      by_cases null : q = 0
      · rw [if_pos null]
        exact Unmaps.none
      · obtain ⟨B₁, M₁, inv, hm₁, keeps, -⟩ := h.copy_steps sound bad (.inl ⟨hmB, alloc'⟩) small alloc null
        rw [if_neg null, unmark_eq ed (inv.held_flag hm₁), sfreeMunmaps_of_heap (keeps.isMmap.trans heap)]
        exact Unmaps.none
  · have mmap := h.maps.isMmap m hmM
    have usable : s.usable m = s.size m := by rw [State.usable, mmap, if_pos rfl]
    have notFits : ¬size ≤ s.size m := usable ▸ not_le.mpr small
    rw [srealloc_mmap bad mmap, if_neg notFits, alloc, Option.map_some] at run
    rw [sreallocMunmaps_of_mmap bad mmap, if_neg notFits, alloc]
    rcases outcome with ⟨rfl, -⟩ | ⟨pos, -, -, size₁, -⟩
    · exact Unmaps.none
    · rw [if_neg pos] at run
      obtain ⟨-, rfl⟩ := Prod.mk.inj (Option.some_inj.mp run)
      obtain ⟨B₁, M₁, inv, hm₁, keeps, steps⟩ := h.copy_steps sound bad (.inr hmM) small alloc pos
      have whole₁ := steps.keeps (fun _ _ step => step.wholePages) whole
      have mapped : m ∈ M₁ := by
        refine hm₁.resolve_left fun hB => ?_
        rw [keeps.isMmap.symm.trans (inv.heap.notMmap m hB.1)] at mmap
        exact Bool.noConfusion mmap
      simp only [if_neg pos, size₁, ← usable]
      exact h.unmaps inv whole₁ hmM mapped keeps.size

/-! ## The size a block was granted for -/

/-- The size that a call asks for. -/
def requestedSize : Call → Option Nat
  | .smalloc size => some size
  | .scalloc num size => some (product num size)
  | .srealloc _ size => some size
  | .sfree _ => none
  | .write _ _ => none

/-- The sizes granted last, after a call that returned `p`. -/
def granted (call : Call) (p : Nat) (g : Nat → Nat) : Nat → Nat :=
  match requestedSize call with
  | some size => if p = 0 then g else Function.update g p size
  | none => g

/-- The worlds reached by permitted calls, with the size granted last for each pointer. -/
inductive Granted (ed : Edition) : World → (Nat → Nat) → Prop where
  | start (mem : Mem) : Granted ed (World.start mem) fun _ => 0
  | step {w w' : World} {g : Nat → Nat} {os : Os} {call : Call} {p : Nat} (reach : Granted ed w g)
      (ok : Permitted ed w os call) (run : exec ed os call w = some (p, w')) : Granted ed w' (granted call p g)

theorem Granted.reachable (run : Granted ed w g) : Reachable ed (Permitted ed) w := by
  induction run with
  | start mem => exact .start mem
  | step _ ok run ih => exact .step ih ok run

/-- No mmap block is smaller than the size it was granted for. -/
def Roomy (g : Nat → Nat) (s : State) (M : List Nat) : Prop := ∀ x ∈ M, g (ptrFromMeta x) ≤ s.size x

/-- Blocks that the client keeps stay roomy. -/
theorem Roomy.keeps (h : Roomy g s M) (inv : Inv False s B M) (inv' : Inv False s' B' M') (hx : x ∈ M')
    (held : x ∈ Held s B M) (keeps : Keeps s s' x) : g (ptrFromMeta x) ≤ s'.size x := by
  have mapped : x ∈ M := by
    refine held.resolve_left fun hB => ?_
    have mmap := inv'.maps.isMmap x hx
    rw [keeps.isMmap.trans (inv.heap.notMmap x hB.1)] at mmap
    exact Bool.noConfusion mmap
  rw [keeps.size]
  exact h x mapped

/-- A block granted from the heap although it is too small is no mmap block. -/
theorem Inv.size_of_usable (h : Inv False s B M) (hx : x ∈ M) : s.usable x = s.size x ∧ s.usable x ≠ 131040 := by
  have large := h.maps.large x hx
  have threshold : mmapThreshold = 131072 := rfl
  have usable : s.usable x = s.size x := by rw [State.usable, h.maps.isMmap x hx, if_pos rfl]
  exact ⟨usable, by omega⟩

/-- **A request.** -/
theorem Roomy.request {hugepage : Bool} (h : Roomy g s M) (inv : Inv False s B M) (inv' : Inv False s' B' M')
    (sound : Sound os s) (small : size ≤ maxAllocSize)
    (req : Requested ed os hugepage size s s₁ s' B₁ (Held s B M) (Held s' B' M') x) :
    Roomy (if userPtr x = 0 then g else Function.update g (userPtr x) size) s' M' := by
  rcases req.result with ⟨rfl, held, keeps⟩ | ⟨pos, grants⟩
  · intro z hz
    have old : z ∈ Held s B M := held ▸ .inr hz
    exact h.keeps inv inv' hz old (keeps z old)
  · rw [userPtr_ne_zero pos, if_neg (ptrFromMeta_ne_zero x)]
    intro z hz
    obtain rfl | ne := eq_or_ne z x
    · rw [Function.update_self]
      obtain ⟨usable, wide⟩ := inv'.size_of_usable hz
      obtain ⟨fits, band⟩ := inv'.usable_of_reserved (.inr hz) sound small grants.extent
      exact usable ▸ fits fun narrow => wide (band narrow)
    · rw [Function.update_of_ne fun e => ne (ptrFromMeta_inj e)]
      have held : z ∈ Held s' B' M' := .inr hz
      rw [grants.held] at held
      have old := held.resolve_left ne
      exact h.keeps inv inv' hz old (grants.keeps z old)

theorem Roomy.srealloc (h : Roomy g s M) (inv : Inv False s B M) (inv' : Inv False s' B' M') (sound : Sound os s)
    (ok : ¬Refused size) (hm : m ∈ Held s B M) (run : Buddy.srealloc ed os (ptrFromMeta m) size s = some (p, s')) :
    Roomy (if p = 0 then g else Function.update g p size) s' M' := by
  obtain ⟨q, t, B₁, M₁, run', inv₁, -, did⟩ := inv.srealloc sound ed ok hm
  obtain ⟨rfl, rfl⟩ := Prod.mk.inj (Option.some_inj.mp (run'.symm.trans run))
  obtain ⟨rfl, rfl⟩ := inv'.unique inv₁
  rcases did.result with ⟨rfl, held, keeps⟩ | ⟨x, rfl, moves, wide, band⟩
  · intro z hz
    have old : z ∈ Held s B M := held ▸ .inr hz
    exact h.keeps inv inv' hz old (keeps z old)
  · rw [if_neg (ptrFromMeta_ne_zero x)]
    intro z hz
    obtain rfl | ne := eq_or_ne z x
    · rw [Function.update_self]
      obtain ⟨usable, large⟩ := inv'.size_of_usable hz
      exact usable ▸ wide fun narrow => large (band narrow.1 narrow.2)
    · rw [Function.update_of_ne fun e => ne (ptrFromMeta_inj e)]
      have held : z ∈ Held t B₁ M₁ := .inr hz
      rw [moves.held] at held
      obtain ⟨old, neM⟩ := held.resolve_left ne
      exact h.keeps inv inv' hz old (moves.keeps z old neM)

theorem Roomy.sfree (h : Roomy g s M) (inv : Inv False s B M) (inv' : Inv False s' B' M') (hm : m ∈ Held s B M)
    (run : Buddy.sfree (ptrFromMeta m) s = some s') : Roomy g s' M' := by
  obtain ⟨t, B₁, M₁, run', inv₁, -, frees⟩ := inv.sfree hm
  obtain rfl := Option.some_inj.mp (run'.symm.trans run)
  obtain ⟨rfl, rfl⟩ := inv'.unique inv₁
  intro z hz
  have held : z ∈ Held t B₁ M₁ := .inr hz
  rw [frees.held] at held
  exact h.keeps inv inv' hz held.1 (frees.keeps z held.1 held.2)

/-- Payload writes. -/
theorem Roomy.write {mem : Mem} (h : Roomy g s M) (inv : Inv False s B M) (inv' : Inv False { s with mem := mem } B' M')
    (hx : x ∈ Held s B M) (fits : n ≤ s.usable x) (touches : Mem.Touches {(x + metaSize, n)} s.mem mem) :
    Roomy g { s with mem := mem } M' := by
  have whole := inv.usable_eq (Inv.blocks_of_held hx)
  obtain ⟨inv₁, -, hdr, -⟩ := inv.write (Inv.blocks_of_held hx) (by omega) touches
  obtain ⟨rfl, rfl⟩ := inv'.unique inv₁
  intro z hz
  rw [State.size, hdr z (.inr hz)]
  exact h z hz

theorem Roomy.smalloc (h : Roomy g s M) (inv : Inv False s B M) (inv' : Inv False s' B' M') (sound : Sound os s)
    (run : Buddy.smalloc ed os size s = some (p, s')) :
    Roomy (if p = 0 then g else Function.update g p size) s' M' := by
  by_cases bad : Refused size
  · rw [smalloc_of_refused bad] at run
    obtain ⟨rfl, rfl⟩ := Prod.mk.inj (Option.some_inj.mp run)
    obtain ⟨rfl, rfl⟩ := inv.unique inv'
    exact h
  · obtain ⟨x, s₁, B₁, t, B₂, M₂, run', -, -, inv₂, req⟩ := inv.smalloc sound ed bad
    obtain ⟨rfl, rfl⟩ := Prod.mk.inj (Option.some_inj.mp (run'.symm.trans run))
    obtain ⟨rfl, rfl⟩ := inv'.unique inv₂
    exact h.request inv inv' sound (not_refused.mp bad).2 req

theorem Roomy.scalloc (h : Roomy g s M) (inv : Inv False s B M) (inv' : Inv False s' B' M') (sound : Sound os s)
    (no : ¬Overruns ed os num size s) (run : Buddy.scalloc ed os num size s = some (p, s')) :
    Roomy (if p = 0 then g else Function.update g p (product num size)) s' M' := by
  by_cases bad : CallocRefused ed num size
  · rw [scalloc_of_refused bad] at run
    obtain ⟨rfl, rfl⟩ := Prod.mk.inj (Option.some_inj.mp run)
    obtain ⟨rfl, rfl⟩ := inv.unique inv'
    exact h
  have small := (not_callocRefused bad).2.2.1
  obtain ⟨x, s₁, B₁, t, B₂, M₂, run', boot, inv₂, req⟩ := inv.scalloc sound ed bad
  have inv₂ : Inv False t B₂ M₂ := inv₂.weaken False.elim
  have roomy := h.request inv inv₂ sound small req
  rw [run'] at run
  by_cases null : x = 0
  · rw [if_pos null] at run
    obtain ⟨rfl, rfl⟩ := Prod.mk.inj (Option.some_inj.mp run)
    obtain ⟨rfl, rfl⟩ := inv'.unique inv₂
    rw [null] at roomy
    exact roomy
  · rw [if_neg null] at run
    obtain ⟨rfl, rfl⟩ := Prod.mk.inj (Option.some_inj.mp run)
    rw [userPtr_ne_zero null] at roomy
    have grants := (req.result.resolve_left fun none => null none.1).2
    have hx : x ∈ Held t B₂ M₂ := by
      rw [grants.held]
      exact Set.mem_insert x _
    have fits := (inv₂.usable_of_reserved (Inv.blocks_of_held hx) sound small grants.extent).1
      fun band => no ⟨band, (req.narrow boot band).mp null⟩
    exact roomy.write inv₂ inv' hx fits (Inv.touches_memset t.mem x (product num size) 0)

/-- **Every permitted call keeps the mmap blocks roomy.** -/
theorem Roomy.exec (h : Roomy g w.st M) (inv : Inv False w.st B M) (live : LivePtrs w B M)
    (ok : Permitted ed w os call) (run : Buddy.exec ed os call w = some (p, w')) (inv' : Inv False w'.st B' M') :
    Roomy (granted call p g) w'.st M' := by
  have pointer : ∀ {q}, q ≠ 0 → q = 0 ∨ q ∈ w.live → ∃ x ∈ Held w.st B M, q = ptrFromMeta x := fun ne arg =>
    (live _).mp (arg.resolve_left ne)
  cases call with
  | smalloc size =>
    obtain ⟨⟨q, t⟩, alloc, e⟩ := Option.bind_eq_some_iff.mp run
    obtain ⟨rfl, rfl⟩ := Prod.mk.inj (Option.some_inj.mp e)
    exact h.smalloc inv inv' ok.sound alloc
  | scalloc num size =>
    obtain ⟨⟨q, t⟩, alloc, e⟩ := Option.bind_eq_some_iff.mp run
    obtain ⟨rfl, rfl⟩ := Prod.mk.inj (Option.some_inj.mp e)
    exact h.scalloc inv inv' ok.sound ok.args.2.2 alloc
  | sfree q =>
    obtain ⟨t, free, e⟩ := Option.bind_eq_some_iff.mp run
    obtain ⟨rfl, rfl⟩ := Prod.mk.inj (Option.some_inj.mp e)
    by_cases null : q = 0
    · simp only [Buddy.sfree, if_pos null] at free
      obtain rfl := Option.some_inj.mp free
      obtain ⟨rfl, rfl⟩ := inv.unique inv'
      exact h
    · obtain ⟨x, hx, rfl⟩ := pointer null ok.args
      exact h.sfree inv inv' hx free
  | srealloc q size =>
    obtain ⟨⟨r, t⟩, alloc, e⟩ := Option.bind_eq_some_iff.mp run
    obtain ⟨rfl, rfl⟩ := Prod.mk.inj (Option.some_inj.mp e)
    by_cases bad : Refused size
    · rw [srealloc_of_refused bad] at alloc
      obtain ⟨rfl, rfl⟩ := Prod.mk.inj (Option.some_inj.mp alloc)
      obtain ⟨rfl, rfl⟩ := inv.unique inv'
      exact h
    by_cases null : q = 0
    · rw [srealloc_null bad null] at alloc
      exact h.smalloc inv inv' ok.sound alloc
    · obtain ⟨x, hx, rfl⟩ := pointer null ok.args.2
      exact h.srealloc inv inv' ok.sound bad hx alloc
  | write a b =>
    obtain ⟨rfl, rfl⟩ := Prod.mk.inj (Option.some_inj.mp run)
    obtain ⟨q, hq, low, high⟩ := ok.args
    obtain ⟨x, hx, rfl⟩ := (live q).mp hq
    rw [metaFromPtr_ptrFromMeta] at high
    exact h.write inv inv' hx (le_refl _) (Mem.touches_store8 (r := (x + metaSize, w.st.usable x)) rfl low high)

/-! ## Runs -/

theorem Granted.roomy (run : Granted ed w g) :
    ∃ B M, Inv False w.st B M ∧ LivePtrs w B M ∧ Roomy g w.st M := by
  induction run with
  | start mem =>
    obtain ⟨B, M, inv, live⟩ := (Good.start mem).weaken (False.elim : False → _)
    obtain ⟨rfl, rfl⟩ := (Inv.start mem).unique inv
    exact ⟨∅, [], inv, live, fun _ hx => absurd hx List.not_mem_nil⟩
  | step _ ok run ih =>
    obtain ⟨B, M, inv, live, roomy⟩ := ih
    obtain ⟨p', w'', run', good, -⟩ := Good.exec ⟨B, M, inv, live⟩ ok
    obtain ⟨-, rfl⟩ := Prod.mk.inj (Option.some_inj.mp (run.symm.trans run'))
    obtain ⟨B', M', inv', live'⟩ := good.weaken (False.elim : False → _)
    exact ⟨B', M', inv', live', roomy.exec inv live ok run inv'⟩

/-- What a permitted call unmaps. -/
theorem exec_unmaps (inv : Inv False w.st B M) (live : LivePtrs w B M) (whole : WholePages ed w.st M)
    (ok : Permitted ed w os call) (run : exec ed os call w = some (p, w')) :
    Unmaps ed w.st w'.st (munmaps ed os call w.st) := by
  cases call with
  | sfree q =>
    obtain ⟨t, free, e⟩ := Option.bind_eq_some_iff.mp run
    obtain ⟨-, rfl⟩ := Prod.mk.inj (Option.some_inj.mp e)
    by_cases null : q = 0
    · simp only [munmaps, sfreeMunmaps, if_pos null]
      exact Unmaps.none
    · obtain ⟨x, hx, rfl⟩ := (live q).mp (ok.args.resolve_left null)
      exact inv.sfree_unmaps whole hx free
  | srealloc q size =>
    obtain ⟨⟨r, t⟩, alloc, e⟩ := Option.bind_eq_some_iff.mp run
    obtain ⟨-, rfl⟩ := Prod.mk.inj (Option.some_inj.mp e)
    by_cases null : q = 0
    · simp only [munmaps, sreallocMunmaps, if_pos null, ite_self]
      exact Unmaps.none
    · obtain ⟨x, hx, rfl⟩ := (live q).mp (ok.args.2.resolve_left null)
      exact inv.srealloc_unmaps whole ok.sound hx alloc
  | _ => exact Unmaps.none

/-- `mmap_list` is `M`, which are the live mmap blocks and the mapped regions; each has
the size it was granted for. -/
structure Tracked (w : World) (g : Nat → Nat) (M : List Nat) : Prop where
  list : Dll w.st.next w.st.prev 0 0 w.st.mmapList M
  once : M.Nodup
  live : ∀ x, x ∈ M ↔ ptrFromMeta x ∈ w.live ∧ w.st.isMmap x = true
  mapped : w.st.mapped = M.map fun x => (x, metaSize + w.st.size x)
  roomy : ∀ x ∈ M, g (ptrFromMeta x) ≤ w.st.size x

theorem Inv.mem_maps_iff (h : Inv False w.st B M) (live : LivePtrs w B M) :
    x ∈ M ↔ ptrFromMeta x ∈ w.live ∧ w.st.isMmap x = true := by
  rw [live]
  constructor
  · exact fun hx => ⟨⟨x, .inr hx, rfl⟩, h.maps.isMmap x hx⟩
  · rintro ⟨⟨y, hy, e⟩, mmap⟩
    obtain rfl := ptrFromMeta_inj e
    refine hy.resolve_left fun hB => ?_
    rw [h.heap.notMmap x hB.1] at mmap
    exact Bool.noConfusion mmap

/-- **The mmap list tracks the live mappings**, and each `munmap` undoes one `mmap`. -/
theorem mmapList_tracks (run : Granted ed w g) : ∃ M, Tracked w g M ∧ ∀ os call, Permitted ed w os call →
    ∃ p w', exec ed os call w = some (p, w') ∧ Unmaps ed w.st w'.st (munmaps ed os call w.st) := by
  obtain ⟨B, M, inv, live, roomy⟩ := run.roomy
  obtain ⟨B', M', inv', -, whole⟩ := run.reachable.keeps (P := fun c => WholePages ed c.st c.maps) (fun _ _ _ ok => ok)
    (fun _ _ _ hx => absurd hx List.not_mem_nil) fun _ _ step => step.wholePages
  obtain ⟨rfl, rfl⟩ := inv.unique inv'
  refine ⟨M', ⟨inv.maps.dll, inv.maps.nodup, fun x => inv.mem_maps_iff live, inv.maps.mapped, roomy⟩,
    fun os call ok => ?_⟩
  obtain ⟨p, w', run', -⟩ := Good.exec ⟨B', M', inv, live⟩ ok
  exact ⟨p, w', run', exec_unmaps inv live whole ok run'⟩

/-- A region for 200000 bytes. -/
theorem mmapList_tracks_one : ∃ p w, exec .malloc4 sampleOs (.smalloc 200000) (World.start fun _ => 0) = some (p, w) ∧
    p ∈ w.live ∧ ∃ M, Tracked w (granted (.smalloc 200000) p fun _ => 0) M ∧ ∀ os call, Permitted .malloc4 w os call →
      ∃ p w', exec .malloc4 os call w = some (p, w') ∧ Unmaps .malloc4 w.st w'.st (munmaps .malloc4 os call w.st) := by
  have sound : Sound sampleOs (World.start fun _ => 0).st := sampleOs_sound rfl (.inl rfl)
  have ok : Permitted .malloc4 (World.start fun _ => 0) sampleOs (.smalloc 200000) := ⟨sound, by decide⟩
  obtain ⟨x, s₁, B₁, s', B, M, alloc, -, -, -, req⟩ :=
    (Inv.start fun _ => 0).smalloc sound .malloc4 (by decide : ¬Refused 200000)
  have run := exec_smalloc (w := World.start fun _ => 0) alloc
  have answer : sampleOs.mmap false (reserved .malloc4 sampleOs (decide (hugepageSmalloc ≤ 200000)) 200000) ≠ none := by
    decide
  have pos : x ≠ 0 := fun null => answer (req.map (by decide) null)
  have start : Granted .malloc4 (World.start fun _ => 0) fun _ => 0 := .start _
  have step := start.step ok run
  refine ⟨userPtr x, _, run, ?_, mmapList_tracks step⟩
  rw [userPtr_ne_zero pos, if_neg (ptrFromMeta_ne_zero x)]
  exact Finset.mem_insert_self _ _

end OsProjects.Malloc.Buddy
