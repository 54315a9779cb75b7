import OsProjects.Malloc.Realloc

/-!
# Runs of the buddy allocators

A `World` is the allocator's state together with the pointers the client holds.
`exec` makes one call; `Permitted` is the contract of a call: pointers are null or
live, the client writes only inside usable bytes, and the operating system keeps
its promises. Every permitted call returns and keeps the invariant
(`Good.exec`), so every `Reachable` world is good.
-/

namespace OsProjects.Malloc.Buddy

open Links Tiling

variable {listed : Prop} {ed : Edition} {os : Os} {s s' s₁ : State} {m n p x size num : Nat} {B B' B₁ H H' : Set Nat}
  {M M' : List Nat}

/-! ## `scalloc` -/

/-- `scalloc` of either file. -/
def scalloc (ed : Edition) (os : Os) (num size : Nat) (s : State) : Option (Nat × State) :=
  match ed with
  | .malloc3 => Malloc3.scalloc os num size s
  | .malloc4 => Malloc4.scalloc os num size s

/-- The arguments for which `scalloc` returns null at once. malloc_3 goes through
`smalloc` and so also refuses a product that is zero. -/
def CallocRefused (ed : Edition) (num size : Nat) : Prop :=
  num = 0 ∨ size = 0 ∨ exceedsMax (product num size) = true ∨ ed = .malloc3 ∧ product num size = 0

instance (ed : Edition) (num size : Nat) : Decidable (CallocRefused ed num size) :=
  inferInstanceAs (Decidable (_ ∨ _ ∨ _ ∨ _ ∧ _))

/-- The state after the memory of a new block was cleared. -/
def clearBlock (x n : Nat) (s : State) : State := { s with mem := s.mem.memset (ptrFromMeta x) 0 n }

theorem scalloc_of_refused (h : CallocRefused ed num size) : scalloc ed os num size s = some (0, s) := by
  by_cases zero : num = 0 ∨ size = 0
  · cases ed <;> simp only [scalloc, Malloc3.scalloc, Malloc4.scalloc, if_pos zero]
  by_cases max : exceedsMax (num * size % 2 ^ 64) = true
  · cases ed <;> simp only [scalloc, Malloc3.scalloc, Malloc4.scalloc, if_neg zero, if_pos max]
  · rcases h with h | h | h | ⟨rfl, none⟩
    · exact absurd (.inl h) zero
    · exact absurd (.inr h) zero
    · exact absurd h max
    · simp only [scalloc, Malloc3.scalloc, if_neg zero, if_neg max]
      change (smalloc .malloc3 os (product num size) s).bind _ = _
      rw [smalloc_of_refused (.inl none)]
      rfl

theorem not_callocRefused (h : ¬CallocRefused ed num size) :
    num ≠ 0 ∧ size ≠ 0 ∧ product num size ≤ maxAllocSize ∧ (ed = .malloc3 → product num size ≠ 0) := by
  simp only [CallocRefused, exceedsMax_iff, not_or, not_lt, not_and] at h
  exact ⟨h.1, h.2.1, h.2.2.1, h.2.2.2⟩

/-- The huge-page flag means nothing in malloc_3. -/
theorem allocate_malloc3 (os : Os) (n : Nat) (s : State) (b b' : Bool) :
    allocate .malloc3 os n b s = allocate .malloc3 os n b' s := rfl

theorem scalloc_eq (h : ¬CallocRefused ed num size) : scalloc ed os num size s =
    (allocate ed os (product num size) (decide (hugepageScalloc < size)) s).map fun r =>
      if r.1 = 0 then (0, r.2) else (ptrFromMeta r.1, clearBlock r.1 (product num size) r.2) := by
  obtain ⟨hn, hs, max, pos⟩ := not_callocRefused h
  have zero : ¬(num = 0 ∨ size = 0) := not_or.mpr ⟨hn, hs⟩
  have max' : ¬exceedsMax (num * size % 2 ^ 64) = true := by
    rw [exceedsMax_iff]
    exact not_lt.mpr max
  cases ed with
  | malloc3 =>
    have ok : ¬(product num size = 0 ∨ exceedsMax (product num size) = true) := not_or.mpr ⟨pos rfl, max'⟩
    have flag := allocate_malloc3 os (product num size) s (decide (hugepageScalloc < size))
      (decide (hugepageSmalloc ≤ product num size))
    simp only [scalloc, Malloc3.scalloc, if_neg zero, if_neg max']
    change (smalloc .malloc3 os (product num size) s).bind _ = _
    rw [smalloc_eq, if_neg ok, flag]
    cases allocate .malloc3 os (product num size) (decide (hugepageSmalloc ≤ product num size)) s with
    | none => rfl
    | some r =>
      simp only [Option.map_some, Option.bind_some]
      by_cases null : r.1 = 0
      · simp only [userPtr, if_pos null, if_true]
        rfl
      · simp only [userPtr, if_neg null, if_neg (ptrFromMeta_ne_zero r.1)]
        rfl
  | malloc4 =>
    -- the two branches share what follows them
    have finish : ∀ r : Option (Nat × State), (r.bind fun r =>
        if r.1 = 0 then some (0, r.2) else some (ptrFromMeta r.1, clearBlock r.1 (product num size) r.2)) =
        r.map fun r => if r.1 = 0 then (0, r.2) else (ptrFromMeta r.1, clearBlock r.1 (product num size) r.2) := by
      rintro (_ | r)
      · rfl
      · simp only [Option.bind_some, Option.map_some]
        split_ifs <;> rfl
    simp only [scalloc, Malloc4.scalloc, if_neg zero, if_neg max', allocate]
    cases buddyInit .malloc4 os s with
    | none => rfl
    | some s₁ =>
      simp only [Option.bind_eq_bind, Option.bind_some]
      by_cases big : mmapThreshold ≤ product num size
      · have big' : mmapThreshold ≤ num * size % 2 ^ 64 := big
        rw [if_pos big, if_pos big']
        exact finish (some (bigAlloc .malloc4 os (product num size) _ s₁))
      · have big' : ¬mmapThreshold ≤ num * size % 2 ^ 64 := big
        rw [if_neg big, if_neg big']
        exact finish (buddyAlloc .malloc4 (product num size) s₁)

/-- The heap has, or is about to get, a free block of the largest order on its list. -/
def TopFree (ed : Edition) (os : Os) (s : State) : Prop :=
  if s.initialized then s.freeLists maxOrder ≠ 0 else SbrkSucceeds ed os

theorem Booted.topFree (boot : Booted ed os s s₁ B B₁) : s₁.freeLists maxOrder ≠ 0 ↔ TopFree ed os s := by
  unfold TopFree
  rcases boot with ⟨init, rfl, -⟩ | ⟨fresh, sbrk, -, -, -, -, top, -⟩ | ⟨fresh, sbrk, -, lists⟩
  · rw [if_pos init]
  · simp [fresh, sbrk, top]
  · simp [fresh, sbrk, lists]

/-- In the narrow window a request is served exactly when there is a block of the
largest order. -/
theorem Requested.narrow {hugepage : Bool} (boot : Booted ed os s s₁ B B₁)
    (req : Requested ed os hugepage size s s₁ s' B' H H' x) (band : Narrow size) : x ≠ 0 ↔ TopFree ed os s := by
  have lt : size < mmapThreshold := band.2
  rw [← boot.topFree, not_iff_not, req.heap lt, sizeToOrder_of_narrow band]
  exact ⟨fun all => all maxOrder (le_refl _) (le_refl _), fun zero j le le' => le_antisymm le' le ▸ zero⟩

theorem Inv.scalloc (h : Inv listed s B M) (sound : Sound os s) (ed : Edition) (ok : ¬CallocRefused ed num size) :
    ∃ x s₁ B₁ s' B' M', scalloc ed os num size s =
        some (if x = 0 then (0, s') else (ptrFromMeta x, clearBlock x (product num size) s')) ∧
      Booted ed os s s₁ B B₁ ∧
      Inv (listed ∧ (product num size < mmapThreshold → NoSplit s (product num size))) s' B' M' ∧
      Requested ed os (decide (hugepageScalloc < size)) (product num size) s s₁ s' B' (Held s B M) (Held s' B' M') x := by
  obtain ⟨x, s₁, B₁, s', B', M', run, -, boot, inv, req⟩ :=
    h.allocate sound ed (decide (hugepageScalloc < size)) (not_callocRefused ok).2.2.1
  refine ⟨x, s₁, B₁, s', B', M', ?_, boot, inv, req⟩
  rw [scalloc_eq ok, run]
  rfl

/-- Clearing a block that is large enough. -/
theorem Inv.clear (h : Inv listed s' B M) (hx : x ∈ Held s' B M) (fits : n ≤ s'.usable x) :
    Inv listed (clearBlock x n s') B M ∧ Held (clearBlock x n s') B M = Held s' B M ∧
      (clearBlock x n s').extent x = s'.extent x ∧
      ∀ z ∈ Held s' B M, z ≠ x → Keeps s' (clearBlock x n s') z := by
  have blocks := Inv.blocks_of_held hx
  have whole := h.usable_eq blocks
  obtain ⟨inv, held, hdr, keeps⟩ := h.write (n := n) blocks (by omega) (Inv.touches_memset s'.mem x n 0)
  exact ⟨inv, held, State.extent_congr (hdr x blocks), fun z hz ne => keeps z (Inv.blocks_of_held hz) ne⟩

/-! ## Worlds -/

/-- The allocator and the pointers the client holds. -/
structure World where
  st : State
  live : Finset Nat

/-- The program's start. -/
def World.start (mem : Mem) : World := ⟨State.start mem, ∅⟩

/-- One call: what it returns (`0` where it returns nothing) and the world after it. -/
def exec (ed : Edition) (os : Os) : Call → World → Option (Nat × World)
  | .smalloc size, w => do
    let (p, st) ← smalloc ed os size w.st
    return (p, ⟨st, if p = 0 then w.live else insert p w.live⟩)
  | .scalloc num size, w => do
    let (p, st) ← scalloc ed os num size w.st
    return (p, ⟨st, if p = 0 then w.live else insert p w.live⟩)
  | .sfree p, w => do
    let st ← sfree p w.st
    return (0, ⟨st, w.live.erase p⟩)
  | .srealloc oldp size, w => do
    let (p, st) ← srealloc ed os oldp size w.st
    return (p, ⟨st, if p = 0 then w.live else insert p (w.live.erase oldp)⟩)
  | .write a b, w => some (0, { w with st := { w.st with mem := w.st.mem.store8 a b } })

theorem exec_smalloc {w : World} (run : smalloc ed os size w.st = some (p, s')) :
    exec ed os (.smalloc size) w = some (p, ⟨s', if p = 0 then w.live else insert p w.live⟩) := by
  simp only [exec, run]
  rfl

theorem exec_scalloc {w : World} (run : scalloc ed os num size w.st = some (p, s')) :
    exec ed os (.scalloc num size) w = some (p, ⟨s', if p = 0 then w.live else insert p w.live⟩) := by
  simp only [exec, run]
  rfl

theorem exec_srealloc {w : World} {q : Nat} (run : srealloc ed os p size w.st = some (q, s')) :
    exec ed os (.srealloc p size) w = some (q, ⟨s', if q = 0 then w.live else insert q (w.live.erase p)⟩) := by
  simp only [exec, run]
  rfl

/-- `scalloc` clears more bytes than its block has. -/
def Overruns (ed : Edition) (os : Os) (num size : Nat) (s : State) : Prop :=
  Narrow (product num size) ∧ TopFree ed os s

/-- The contract of a call. -/
structure Permitted (ed : Edition) (w : World) (os : Os) (call : Call) : Prop where
  sound : Sound os w.st
  args : match call with
    | .smalloc size => size < 2 ^ 64
    | .scalloc num size => num < 2 ^ 64 ∧ size < 2 ^ 64 ∧ ¬Overruns ed os num size w.st
    | .sfree p => p = 0 ∨ p ∈ w.live
    | .srealloc oldp size => size < 2 ^ 64 ∧ (oldp = 0 ∨ oldp ∈ w.live)
    | .write a _ => ∃ p ∈ w.live, p ≤ a ∧ a < p + w.st.usable (metaFromPtr p)

/-- The call splits no block. -/
def NoSplitCall (w : World) : Call → Prop
  | .smalloc size => ¬Refused size → size < mmapThreshold → NoSplit w.st size
  | .scalloc num size => product num size < mmapThreshold → NoSplit w.st (product num size)
  | .sfree _ => True
  | .srealloc oldp size => ¬Refused size → (oldp = 0 ∨ Relocates w.st (metaFromPtr oldp) size) →
      size < mmapThreshold → NoSplit w.st size
  | .write _ _ => True

/-- The worlds reached by calls that satisfy `Ok`. -/
inductive Reachable (ed : Edition) (Ok : World → Os → Call → Prop) : World → Prop where
  | start (mem : Mem) : Reachable ed Ok (World.start mem)
  | step {w w' : World} {os : Os} {call : Call} {p : Nat} (reach : Reachable ed Ok w) (ok : Ok w os call)
      (run : exec ed os call w = some (p, w')) : Reachable ed Ok w'

/-! ## The invariant of a run -/

/-- The live pointers are the held blocks. -/
def LivePtrs (w : World) (B : Set Nat) (M : List Nat) : Prop :=
  ∀ p, p ∈ w.live ↔ ∃ x ∈ Held w.st B M, p = ptrFromMeta x

/-- A well-formed world, with complete free lists when `listed`. -/
def Good (listed : Prop) (w : World) : Prop := ∃ B M, Inv listed w.st B M ∧ LivePtrs w B M

/-- The heap was set up, if `buddy_init` has run. -/
def HeapUp (s : State) : Prop := s.initialized = true → s.heapBase ≠ 0 ∧ s.heapBase ≠ failed

theorem LivePtrs.grant {w : World} {bytes : Nat} (live : LivePtrs w B M)
    (grants : Grants w.st s' (Held w.st B M) (Held s' B' M') x bytes) :
    LivePtrs ⟨s', insert (ptrFromMeta x) w.live⟩ B' M' := by
  intro p
  simp only [Finset.mem_insert, live p, grants.held]
  constructor
  · rintro (rfl | ⟨z, hz, rfl⟩)
    · exact ⟨x, .inl rfl, rfl⟩
    · exact ⟨z, .inr hz, rfl⟩
  · rintro ⟨z, rfl | hz, rfl⟩
    · exact .inl rfl
    · exact .inr ⟨z, hz, rfl⟩

theorem LivePtrs.free {w : World} (live : LivePtrs w B M)
    (frees : Frees w.st s' (Held w.st B M) (Held s' B' M') m) :
    LivePtrs ⟨s', w.live.erase (ptrFromMeta m)⟩ B' M' := by
  intro p
  simp only [Finset.mem_erase, live p, frees.held]
  constructor
  · rintro ⟨ne, z, hz, rfl⟩
    exact ⟨z, ⟨hz, fun e => ne (by rw [Set.mem_singleton_iff.mp e])⟩, rfl⟩
  · rintro ⟨z, ⟨hz, ne⟩, rfl⟩
    exact ⟨fun e => ne (ptrFromMeta_inj e), z, hz, rfl⟩

theorem LivePtrs.move {w : World} (live : LivePtrs w B M)
    (moves : Moves w.st s' (Held w.st B M) (Held s' B' M') m x) :
    LivePtrs ⟨s', insert (ptrFromMeta x) (w.live.erase (ptrFromMeta m))⟩ B' M' := by
  intro p
  simp only [Finset.mem_insert, Finset.mem_erase, live p, moves.held]
  constructor
  · rintro (rfl | ⟨ne, z, hz, rfl⟩)
    · exact ⟨x, .inl rfl, rfl⟩
    · exact ⟨z, .inr ⟨hz, fun e => ne (by rw [Set.mem_singleton_iff.mp e])⟩, rfl⟩
  · rintro ⟨z, rfl | ⟨hz, ne⟩, rfl⟩
    · exact .inl rfl
    · exact .inr ⟨fun e => ne (ptrFromMeta_inj e), z, hz, rfl⟩

theorem Good.start (mem : Mem) : Good True (World.start mem) := by
  refine ⟨∅, [], Inv.start mem, fun p => ?_⟩
  simp [World.start, Held]

theorem Booted.heapUp (boot : Booted ed os s s₁ B B₁) (sbrk : s.initialized = false → SbrkSucceeds ed os)
    (up : HeapUp s) : s₁.heapBase ≠ 0 ∧ s₁.heapBase ≠ failed := by
  rcases boot with ⟨init, rfl, -⟩ | ⟨-, -, base, notFailed, -⟩ | ⟨fresh, failed, -⟩
  · exact up init
  · exact ⟨base, notFailed⟩
  · exact absurd (sbrk fresh) failed

/-- A request, from the point of view of the run. -/
theorem Good.request {w : World} {hugepage : Bool} (live : LivePtrs w B M) (boot : Booted ed os w.st s₁ B B₁)
    (inv : Inv listed s' B' M')
    (req : Requested ed os hugepage size w.st s₁ s' B' (Held w.st B M) (Held s' B' M') x) :
    Good listed ⟨s', if userPtr x = 0 then w.live else insert (userPtr x) w.live⟩ ∧
      ((w.st.initialized = false → SbrkSucceeds ed os) → HeapUp w.st → HeapUp s') := by
  refine ⟨⟨B', M', inv, ?_⟩, fun sbrk up _ => req.base ▸ boot.heapUp sbrk up⟩
  rcases req.result with ⟨rfl, held, -⟩ | ⟨pos, grants⟩
  · intro p
    simp only [userPtr, if_true, held]
    exact live p
  · rw [userPtr_ne_zero pos, if_neg (ptrFromMeta_ne_zero x)]
    exact live.grant grants

namespace Good

variable {w : World}

theorem weaken {listed' : Prop} (good : Good listed w) (imp : listed' → listed) : Good listed' w := by
  obtain ⟨B, M, inv, live⟩ := good
  exact ⟨B, M, inv.weaken imp, live⟩

theorem smalloc (good : Good listed w) (sound : Sound os w.st) (ed : Edition) (size : Nat) :
    ∃ p w', exec ed os (.smalloc size) w = some (p, w') ∧ Good (listed ∧ NoSplitCall w (.smalloc size)) w' ∧
      ((w.st.initialized = false → SbrkSucceeds ed os) → HeapUp w.st → HeapUp w'.st) := by
  by_cases bad : Refused size
  · exact ⟨0, w, exec_smalloc (smalloc_of_refused bad), good.weaken And.left, fun _ up => up⟩
  · obtain ⟨B, M, inv, live⟩ := good
    obtain ⟨x, s₁, B₁, s', B', M', run, -, boot, inv', req⟩ := inv.smalloc sound ed bad
    obtain ⟨good', up⟩ := Good.request live boot inv' req
    exact ⟨userPtr x, _, exec_smalloc run, good'.weaken fun l => ⟨l.1, l.2 bad⟩, up⟩

theorem scalloc (good : Good listed w) (sound : Sound os w.st) (ed : Edition) (num size : Nat)
    (no : ¬Overruns ed os num size w.st) :
    ∃ p w', exec ed os (.scalloc num size) w = some (p, w') ∧ Good (listed ∧ NoSplitCall w (.scalloc num size)) w' ∧
      ((w.st.initialized = false → SbrkSucceeds ed os) → HeapUp w.st → HeapUp w'.st) := by
  by_cases bad : CallocRefused ed num size
  · exact ⟨0, w, exec_scalloc (scalloc_of_refused bad), good.weaken And.left, fun _ up => up⟩
  · obtain ⟨B, M, inv, live⟩ := good
    obtain ⟨x, s₁, B₁, s', B', M', run, boot, inv', req⟩ := inv.scalloc sound ed bad
    have up := (Good.request live boot inv' req).2
    by_cases null : x = 0
    · rw [if_pos null] at run
      refine ⟨0, ⟨s', w.live⟩, exec_scalloc run, ⟨B', M', inv', fun p => ?_⟩, up⟩
      rw [(req.result.resolve_right fun g => g.1 null).2.1]
      exact live p
    · have grants := (req.result.resolve_left fun g => null g.1).2
      have hx : x ∈ Held s' B' M' := by
        rw [grants.held]
        exact Set.mem_insert x _
      have fits := (inv'.usable_of_reserved (Inv.blocks_of_held hx) sound (not_callocRefused bad).2.2.1 grants.extent).1
        fun band => no ⟨band, (req.narrow boot band).mp null⟩
      obtain ⟨inv'', held, extent, keeps⟩ := inv'.clear hx fits
      have grants' : Grants w.st (clearBlock x (product num size) s') (Held w.st B M)
          (Held (clearBlock x (product num size) s') B' M') x (reserved ed os (decide (hugepageScalloc < size)) (product num size)) := by
        refine ⟨grants.fresh, held.trans grants.held, fun z hz => ?_, extent.trans grants.extent⟩
        have hz' : z ∈ Held s' B' M' := grants.held ▸ Set.mem_insert_of_mem x hz
        exact (grants.keeps z hz).trans (keeps z hz' fun e => grants.fresh (e ▸ hz))
      rw [if_neg null] at run
      refine ⟨ptrFromMeta x, _, exec_scalloc run, ⟨B', M', inv'', ?_⟩, up⟩
      rw [if_neg (ptrFromMeta_ne_zero x)]
      exact live.grant grants'

theorem sfree (good : Good listed w) (os : Os) (ed : Edition) (arg : p = 0 ∨ p ∈ w.live) :
    ∃ w', exec ed os (.sfree p) w = some (0, w') ∧ Good listed w' ∧ (HeapUp w.st → HeapUp w'.st) := by
  obtain ⟨B, M, inv, live⟩ := good
  by_cases null : p = 0
  · have notLive : p ∉ w.live := fun hp => by
      obtain ⟨x, -, e⟩ := (live p).mp hp
      exact ptrFromMeta_ne_zero x (e.symm.trans null)
    refine ⟨w, ?_, ⟨B, M, inv, live⟩, id⟩
    simp only [exec, Buddy.sfree, if_pos null, Finset.erase_eq_of_notMem notLive]
    rfl
  · obtain ⟨m, hm, rfl⟩ := (live p).mp (arg.resolve_left null)
    obtain ⟨s', B', M', run, inv', base, frees⟩ := inv.sfree hm
    refine ⟨⟨s', w.live.erase (ptrFromMeta m)⟩, ?_, ⟨B', M', inv', live.free frees⟩, fun up _ => ?_⟩
    · simp only [exec, run]
      rfl
    · exact base.symm ▸ up (inv.initialized_of_mem (Inv.blocks_of_held hm))

theorem srealloc (good : Good listed w) (sound : Sound os w.st) (ed : Edition) (size : Nat)
    (arg : p = 0 ∨ p ∈ w.live) :
    ∃ q w', exec ed os (.srealloc p size) w = some (q, w') ∧ Good (listed ∧ NoSplitCall w (.srealloc p size)) w' ∧
      ((w.st.initialized = false → SbrkSucceeds ed os) → HeapUp w.st → HeapUp w'.st) := by
  by_cases bad : Refused size
  · exact ⟨0, w, exec_srealloc (srealloc_of_refused bad), good.weaken And.left, fun _ up => up⟩
  by_cases null : p = 0
  · obtain ⟨B, M, inv, live⟩ := good
    obtain ⟨x, s₁, B₁, s', B', M', run, -, boot, inv', req⟩ := inv.smalloc sound ed bad
    obtain ⟨good', up⟩ := Good.request live boot inv' req
    have notLive : p ∉ w.live := fun hp => by
      obtain ⟨x, -, e⟩ := (live p).mp hp
      exact ptrFromMeta_ne_zero x (e.symm.trans null)
    rw [← srealloc_null bad null] at run
    refine ⟨userPtr x, _, exec_srealloc run, ?_, up⟩
    rw [Finset.erase_eq_of_notMem notLive]
    exact good'.weaken fun l => ⟨l.1, l.2 bad (.inl null)⟩
  · obtain ⟨B, M, inv, live⟩ := good
    obtain ⟨m, hm, rfl⟩ := (live p).mp (arg.resolve_left null)
    obtain ⟨q, s', B', M', run, inv', base, re⟩ := inv.srealloc sound ed bad hm
    refine ⟨q, _, exec_srealloc run, ⟨B', M', ?_, ?_⟩, fun _ up _ => ?_⟩
    · refine inv'.weaken fun l => ⟨l.1, fun reloc => l.2 bad (.inr ?_)⟩
      rwa [metaFromPtr_ptrFromMeta]
    · rcases re.result with ⟨rfl, held, -⟩ | ⟨x, rfl, moves, -⟩
      · intro p
        rw [if_pos rfl, held]
        exact live p
      · rw [if_neg (ptrFromMeta_ne_zero x)]
        exact live.move moves
    · exact base.symm ▸ up (inv.initialized_of_mem (Inv.blocks_of_held hm))

theorem write {a : Nat} (good : Good listed w) (b : UInt8)
    (arg : ∃ p ∈ w.live, p ≤ a ∧ a < p + w.st.usable (metaFromPtr p)) :
    Good listed { w with st := { w.st with mem := w.st.mem.store8 a b } } := by
  obtain ⟨B, M, inv, live⟩ := good
  obtain ⟨p, hp, low, high⟩ := arg
  obtain ⟨x, hx, rfl⟩ := (live p).mp hp
  rw [metaFromPtr_ptrFromMeta] at high
  have blocks := Inv.blocks_of_held hx
  have whole := inv.usable_eq blocks
  have touches : Mem.Touches {(x + metaSize, w.st.usable x)} w.st.mem (w.st.mem.store8 a b) :=
    Mem.touches_store8 (r := (x + metaSize, w.st.usable x)) rfl low high
  obtain ⟨inv', held, -, -⟩ := inv.write blocks (by omega) touches
  refine ⟨B, M, inv', fun p => ?_⟩
  rw [held]
  exact live p

end Good

/-- **Every permitted call returns and keeps the world well-formed.** The free lists
stay complete when the call splits no block. -/
theorem Good.exec {w : World} {call : Call} (good : Good listed w) (ok : Permitted ed w os call) :
    ∃ p w', exec ed os call w = some (p, w') ∧ Good (listed ∧ NoSplitCall w call) w' ∧
      ((w.st.initialized = false → SbrkSucceeds ed os) → HeapUp w.st → HeapUp w'.st) := by
  cases call with
  | smalloc size => exact good.smalloc ok.sound ed size
  | scalloc num size => exact good.scalloc ok.sound ed num size ok.args.2.2
  | sfree p =>
    obtain ⟨w', run, good', up⟩ := good.sfree os ed ok.args
    exact ⟨0, w', run, good'.weaken And.left, fun _ => up⟩
  | srealloc p size => exact good.srealloc ok.sound ed size ok.args.2
  | write a b => exact ⟨0, _, rfl, (good.write b ok.args).weaken And.left, fun _ up => up⟩

/-- The steps of a run in which `buddy_init` gets its heap and `scalloc` is not called. -/
structure HeapStep (ed : Edition) (w : World) (os : Os) (call : Call) : Prop where
  permitted : Permitted ed w os call
  sbrk : w.st.initialized = false → SbrkSucceeds ed os
  plain : ∀ num size, call ≠ .scalloc num size

theorem Reachable.good {Ok : World → Os → Call → Prop} {w : World} (reach : Reachable ed Ok w)
    (permits : ∀ w os call, Ok w os call → Permitted ed w os call) : Good False w := by
  induction reach with
  | start mem => exact (Good.start mem).weaken False.elim
  | @step w w' os call p _ ok run ih =>
    obtain ⟨p', w'', run', good, -⟩ := ih.exec (permits w os call ok)
    obtain ⟨-, rfl⟩ := Prod.mk.inj (Option.some_inj.mp (run.symm.trans run'))
    exact good.weaken False.elim

theorem Reachable.heapUp {Ok : World → Os → Call → Prop} {w : World} (reach : Reachable ed Ok w)
    (steps : ∀ w os call, Ok w os call → HeapStep ed w os call) : HeapUp w.st := by
  induction reach with
  | start mem => exact fun e => nomatch e
  | @step w w' os call p reach ok run ih =>
    have step := steps w os call ok
    have good := reach.good fun w os call ok => (steps w os call ok).permitted
    obtain ⟨p', w'', run', -, up⟩ := good.exec step.permitted
    obtain ⟨-, rfl⟩ := Prod.mk.inj (Option.some_inj.mp (run.symm.trans run'))
    exact up step.sbrk ih

/-- **Without splits the free lists stay complete.** -/
theorem Reachable.complete {Ok : World → Os → Call → Prop} {w : World} (reach : Reachable ed Ok w)
    (permits : ∀ w os call, Ok w os call → Permitted ed w os call)
    (whole : ∀ w os call, Ok w os call → NoSplitCall w call) : Good True w := by
  induction reach with
  | start mem => exact Good.start mem
  | @step w w' os call p _ ok run ih =>
    obtain ⟨p', w'', run', good, -⟩ := ih.exec (permits w os call ok)
    obtain ⟨-, rfl⟩ := Prod.mk.inj (Option.some_inj.mp (run.symm.trans run'))
    exact good.weaken fun _ => ⟨trivial, whole w os call ok⟩

/-! ## A sample operating system -/

/-- An operating system that puts the heap at 4 MiB and every region at 1 TiB. -/
def sampleOs : Os where
  sbrk _ := some 4194304
  mmap _ n := if n < 2 ^ 32 then some (2 ^ 40) else none
  pageSize := 4096

theorem sampleOs_sbrk (ed : Edition) : SbrkSucceeds ed sampleOs :=
  ⟨fun _ _ => Option.some_ne_none _, Option.some_ne_none _⟩

theorem sampleOs_mmap {huge : Bool} {raw : Nat} (h : sampleOs.mmap huge n = some raw) : raw = 2 ^ 40 ∧ n < 2 ^ 32 := by
  simp only [sampleOs] at h
  split_ifs at h with lt
  exact ⟨(Option.some_inj.mp h).symm, lt⟩

/-- It keeps its promises until the first region is mapped. -/
theorem sampleOs_sound (fresh : s.mapped = []) (base : s.heapBase = 0 ∨ s.heapBase = 4194304) : Sound sampleOs s := by
  have total : totalHeapSize = 4194304 := rfl
  have stop : s.heapEnd ≤ 2 * 4194304 := by
    unfold State.heapEnd
    split_ifs <;> omega
  refine ⟨⟨12, by decide, rfl⟩, ⟨?_, ?_, ?_⟩, ?_⟩
  · intro huge n raw answer
    obtain ⟨rfl, lt⟩ := sampleOs_mmap answer
    omega
  · intro huge n raw _ r hr
    rw [fresh] at hr
    exact absurd hr List.not_mem_nil
  · intro huge n raw answer
    obtain ⟨rfl, lt⟩ := sampleOs_mmap answer
    omega
  · rintro - b answer
    obtain rfl : 4194304 = b := Option.some_inj.mp answer
    refine ⟨by decide, by decide, fun huge n raw answer' => ?_⟩
    obtain ⟨rfl, lt⟩ := sampleOs_mmap answer'
    omega

end OsProjects.Malloc.Buddy
