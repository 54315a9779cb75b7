import OsProjects.Malloc.Layout

/-!
# Granted requests fit

A call that returns a pointer should return a block with room for the request.
`Misfit` is the one way in which it does not: the request is in the narrow window
below `MMAP_THRESHOLD` and there is a block of the largest order to serve it from.
-/

namespace OsProjects.Malloc.Buddy

open Links Tiling

variable {listed : Prop} {ed : Edition} {os : Os} {s s' : State} {w : World} {n p x num size : Nat} {B : Set Nat}
  {M : List Nat}

/-- A block of the heap or of the mmap list, as the code finds them. -/
def IsBlock (s : State) (y : Nat) : Prop :=
  (s.heapBase ≠ 0 ∧ s.heapBase ≠ failed ∧ ∃ l, HeapWalk s l ∧ y ∈ l) ∨ ∃ l, Chain s.next 0 s.mmapList l ∧ y ∈ l

theorem Inv.mem_of_isBlock {y : Nat} (inv : Inv listed s B M) (h : IsBlock s y) : y ∈ B ∨ y ∈ M := by
  rcases h with ⟨base, notFailed, l, walk, mem⟩ | ⟨l, chain, mem⟩
  · obtain ⟨l', walk', all⟩ := inv.heapWalk ⟨base, notFailed⟩
    obtain rfl := walk.unique walk'
    exact .inl ((all y).mp mem)
  · obtain rfl := chain.unique inv.maps.dll.chain
    exact .inr mem

/-- A returned pointer has `n` usable bytes, and they meet the metadata of no other
block. -/
def Fits (s : State) (p n : Nat) : Prop :=
  p ≠ 0 → n ≤ s.usable (metaFromPtr p) ∧
    ∀ y, IsBlock s y → y ≠ metaFromPtr p → y + metaSize ≤ p ∨ p + n ≤ y

/-- The number of bytes a call asks for. -/
def Asks : Call → Nat → Prop
  | .smalloc size, n => n = size
  | .scalloc num size, n => n = num * size ∧ n < 2 ^ 64
  | .srealloc _ size, n => n = size
  | .sfree _, _ => False
  | .write _ _, _ => False

/-- The call is served with a block that is too small. -/
def Misfit (ed : Edition) (w : World) (os : Os) : Call → Prop
  | .smalloc size => Narrow size ∧ TopFree ed os w.st
  | .scalloc num size => Narrow (num * size) ∧ TopFree ed os w.st
  | .srealloc oldp size =>
    Narrow size ∧ TopFree ed os w.st ∧ (oldp = 0 ∨ w.st.isMmap (metaFromPtr oldp) = false)
  | .sfree _ => False
  | .write _ _ => False

/-- The contract of a call that asks for memory; `scalloc` may overrun its block. -/
structure Asked (w : World) (os : Os) (call : Call) : Prop where
  sound : Sound os w.st
  args : match call with
    | .smalloc size => size < 2 ^ 64
    | .scalloc num size => num < 2 ^ 64 ∧ size < 2 ^ 64
    | .srealloc oldp size => size < 2 ^ 64 ∧ (oldp = 0 ∨ oldp ∈ w.live)
    | .sfree _ => False
    | .write _ _ => False

theorem fits_null (s : State) (n : Nat) : Fits s 0 n := fun ne => absurd rfl ne

theorem Inv.fits (inv : Inv listed s B M) (hx : x ∈ B ∨ x ∈ M) (enough : n ≤ s.usable x) : Fits s (ptrFromMeta x) n := by
  intro _
  rw [metaFromPtr_ptrFromMeta]
  refine ⟨enough, fun y hy ne => ?_⟩
  have blocks := inv.mem_of_isBlock hy
  have whole := inv.usable_eq hx
  have room := inv.le_extent blocks
  have := inv.apart blocks hx ne
  have word : metaSize = 32 := rfl
  unfold ptrFromMeta
  omega

theorem not_fits (short : s.usable x < n) : ¬Fits s (ptrFromMeta x) n := fun fits => by
  have := (fits (ptrFromMeta_ne_zero x)).1
  rw [metaFromPtr_ptrFromMeta] at this
  omega

theorem not_narrow_of_refused (h : Refused size) : ¬Narrow size := fun band => by
  have max : maxAllocSize = 100000000 := rfl
  unfold Refused at h
  rw [exceedsMax_iff] at h
  obtain ⟨low, high⟩ := band
  omega

/-- A request and its block. -/
theorem Requested.fits_iff {hugepage : Bool} {s₁ : State} {B' B₁ H : Set Nat} {M' : List Nat}
    (boot : Booted ed os s s₁ B B₁) (sound : Sound os s) (small : size ≤ maxAllocSize) (inv : Inv listed s' B' M')
    (req : Requested ed os hugepage size s s₁ s' B' H (Held s' B' M') x) :
    Fits s' (userPtr x) size ↔ ¬(Narrow size ∧ TopFree ed os s) := by
  rcases req.result with ⟨rfl, -⟩ | ⟨pos, grants⟩
  · refine iff_of_true (fits_null s' size) fun ⟨band, top⟩ => ?_
    exact (req.narrow boot band).mpr top rfl
  · have hx : x ∈ Held s' B' M' := by
      rw [grants.held]
      exact Set.mem_insert x _
    obtain ⟨wide, narrow⟩ := inv.usable_of_reserved (Inv.blocks_of_held hx) sound small grants.extent
    rw [userPtr_ne_zero pos]
    by_cases band : Narrow size
    · have short : s'.usable x < size := by
        have := narrow band
        have := band.1
        omega
      exact iff_of_false (not_fits short) (not_not.mpr ⟨band, (req.narrow boot band).mp pos⟩)
    · exact iff_of_true (inv.fits (Inv.blocks_of_held hx) (wide band)) fun m => band m.1

theorem Good.smalloc_fits (good : Good listed w) (sound : Sound os w.st) (ed : Edition) (size : Nat) :
    ∃ p w', Buddy.exec ed os (.smalloc size) w = some (p, w') ∧
      (Fits w'.st p size ↔ ¬(Narrow size ∧ TopFree ed os w.st)) := by
  by_cases bad : Refused size
  · exact ⟨0, w, exec_smalloc (smalloc_of_refused bad),
      iff_of_true (fits_null w.st size) fun m => not_narrow_of_refused bad m.1⟩
  · obtain ⟨B, M, inv, -⟩ := good
    obtain ⟨x, s₁, B₁, s', B', M', run, -, boot, inv', req⟩ := inv.smalloc sound ed bad
    exact ⟨userPtr x, _, exec_smalloc run, req.fits_iff boot sound (not_refused.mp bad).2 inv'⟩

theorem Good.scalloc_fits (good : Good listed w) (sound : Sound os w.st) (ed : Edition) (small : num * size < 2 ^ 64) :
    ∃ p w', Buddy.exec ed os (.scalloc num size) w = some (p, w') ∧
      (Fits w'.st p (num * size) ↔ ¬(Narrow (num * size) ∧ TopFree ed os w.st)) := by
  have exact : product num size = num * size := Nat.mod_eq_of_lt small
  by_cases bad : CallocRefused ed num size
  · refine ⟨0, w, exec_scalloc (scalloc_of_refused bad), iff_of_true (fits_null w.st _) fun m => ?_⟩
    have max : maxAllocSize = 100000000 := rfl
    obtain ⟨⟨low, high⟩, -⟩ := m
    unfold CallocRefused at bad
    rw [exceedsMax_iff, exact] at bad
    rcases bad with rfl | rfl | bad | ⟨-, bad⟩
    · rw [Nat.zero_mul] at low
      omega
    · rw [Nat.mul_zero] at low
      omega
    · omega
    · omega
  · obtain ⟨B, M, inv, -⟩ := good
    obtain ⟨x, s₁, B₁, s', B', M', run, boot, inv', req⟩ := inv.scalloc sound ed bad
    have max := (not_callocRefused bad).2.2.1
    have iff := req.fits_iff boot sound max inv'
    rw [exact] at run iff
    by_cases null : x = 0
    · rw [if_pos null] at run
      refine ⟨0, _, exec_scalloc run, iff_of_true (fits_null _ _) ?_⟩
      subst null
      exact iff.mp (fits_null _ _)
    · rw [if_neg null] at run
      refine ⟨ptrFromMeta x, _, exec_scalloc run, ?_⟩
      have grants := (req.result.resolve_left fun g => null g.1).2
      have hx : x ∈ Held s' B' M' := by
        rw [grants.held]
        exact Set.mem_insert x _
      have blocks := Inv.blocks_of_held hx
      obtain ⟨wide, narrow⟩ := inv'.usable_of_reserved blocks sound max grants.extent
      rw [exact] at wide narrow
      by_cases band : Narrow (num * size)
      · -- the clearing runs past the block, but not over its own metadata
        have self : (clearBlock x (num * size) s').usable x = s'.usable x := by
          refine State.usable_congr (Mem.header_congr fun a lo hi => if_neg ?_)
          unfold ptrFromMeta
          omega
        have short : (clearBlock x (num * size) s').usable x < num * size := by
          rw [self, narrow band]
          exact band.1
        rw [← exact] at band
        have top := (req.narrow boot band).mp null
        rw [exact] at band
        exact iff_of_false (not_fits short) (not_not.mpr ⟨band, top⟩)
      · have whole := inv'.usable_eq blocks
        have enough := wide band
        obtain ⟨inv'', -, hdr, -⟩ := inv'.write (n := num * size) blocks (by omega)
          (Inv.touches_memset s'.mem x (num * size) 0)
        refine iff_of_true (inv''.fits blocks ?_) fun m => band m.1
        rwa [State.usable_congr (s := s') (hdr x blocks)]

theorem Good.srealloc_fits (good : Good listed w) (sound : Sound os w.st) (ed : Edition) (size : Nat)
    (arg : p = 0 ∨ p ∈ w.live) :
    ∃ q w', Buddy.exec ed os (.srealloc p size) w = some (q, w') ∧
      (Fits w'.st q size ↔
        ¬(Narrow size ∧ TopFree ed os w.st ∧ (p = 0 ∨ w.st.isMmap (metaFromPtr p) = false))) := by
  by_cases bad : Refused size
  · exact ⟨0, w, exec_srealloc (srealloc_of_refused bad),
      iff_of_true (fits_null w.st size) fun m => not_narrow_of_refused bad m.1⟩
  obtain ⟨B, M, inv, live⟩ := good
  by_cases null : p = 0
  · obtain ⟨x, s₁, B₁, s', B', M', run, -, boot, inv', req⟩ := inv.smalloc sound ed bad
    rw [← srealloc_null bad null] at run
    refine ⟨userPtr x, _, exec_srealloc run, ?_⟩
    rw [req.fits_iff boot sound (not_refused.mp bad).2 inv']
    simp only [null, true_or, and_true]
  · obtain ⟨m, hm, rfl⟩ := (live p).mp (arg.resolve_left null)
    obtain ⟨q, s', B', M', run, inv', -, re⟩ := inv.srealloc sound ed bad hm
    refine ⟨q, _, exec_srealloc run, ?_⟩
    rw [metaFromPtr_ptrFromMeta]
    have top : TopFree ed os w.st ↔ w.st.freeLists maxOrder ≠ 0 := by
      unfold TopFree
      rw [if_pos (inv.initialized_of_mem (Inv.blocks_of_held hm))]
    have heap : w.st.isMmap m = false ↔ m ∈ B := by
      refine ⟨fun flag => ?_, inv.heap.notMmap m⟩
      rcases Inv.blocks_of_held hm with hm' | hm'
      · exact hm'
      · rw [inv.maps.isMmap m hm'] at flag
        exact Bool.noConfusion flag
    rw [top, heap]
    by_cases bandB : Narrow size ∧ m ∈ B
    · have served := re.narrow bandB.1 bandB.2
      rcases re.result with ⟨rfl, -⟩ | ⟨x, rfl, -, -, short⟩
      · exact iff_of_true (fits_null _ _) fun m => m.2.1 (served.mp rfl)
      · have lt : s'.usable x < size := by
          have := short bandB.1 bandB.2
          have := bandB.1.1
          omega
        exact iff_of_false (not_fits lt) (not_not.mpr
          ⟨bandB.1, fun zero => ptrFromMeta_ne_zero x (served.mpr zero), .inr bandB.2⟩)
    · have notMisfit : ¬(Narrow size ∧ w.st.freeLists maxOrder ≠ 0 ∧ (ptrFromMeta m = 0 ∨ m ∈ B)) :=
        fun h => bandB ⟨h.1, h.2.2.resolve_left (ptrFromMeta_ne_zero m)⟩
      rcases re.result with ⟨rfl, -⟩ | ⟨x, rfl, moves, enough, -⟩
      · exact iff_of_true (fits_null _ _) notMisfit
      · have hx : x ∈ Held s' B' M' := by
          rw [moves.held]
          exact Set.mem_insert x _
        exact iff_of_true (inv'.fits (Inv.blocks_of_held hx) (enough bandB)) notMisfit

/-- **When a granted request fits.** In every reachable world every call that asks for
memory returns, and what it returns fits the request exactly when the request is
not in the narrow window with a block of the largest order at hand. -/
theorem granted_fits_iff {call : Call} (reach : Reachable .malloc3 (Permitted .malloc3) w) (asked : Asked w os call)
    (asks : Asks call n) :
    ∃ p w', exec .malloc3 os call w = some (p, w') ∧ (Fits w'.st p n ↔ ¬Misfit .malloc3 w os call) := by
  have good := reach.good fun _ _ _ ok => ok
  cases call with
  | smalloc size =>
    obtain rfl : n = size := asks
    exact good.smalloc_fits asked.sound .malloc3 n
  | scalloc num size =>
    obtain ⟨rfl, lt⟩ := asks
    exact good.scalloc_fits asked.sound .malloc3 lt
  | srealloc oldp size =>
    obtain rfl : n = size := asks
    exact good.srealloc_fits asked.sound .malloc3 n asked.args.2
  | sfree p => exact asks.elim
  | write a b => exact asks.elim

theorem granted_fits_first : ∃ p w', exec .malloc3 sampleOs (.smalloc 100) (World.start fun _ => 0) = some (p, w') ∧
    Fits w'.st p 100 := by
  obtain ⟨p, w', run, iff⟩ := granted_fits_iff (.start fun _ => 0)
    (⟨sampleOs_sound rfl (.inl rfl), by decide⟩ : Asked (World.start fun _ => 0) sampleOs (.smalloc 100)) rfl
  exact ⟨p, w', run, iff.mpr fun misfit => absurd misfit.1 (by decide)⟩

theorem smalloc_131041_misfit : ∃ p w', exec .malloc3 sampleOs (.smalloc 131041) (World.start fun _ => 0) = some (p, w') ∧
    ¬Fits w'.st p 131041 := by
  obtain ⟨p, w', run, iff⟩ := (Good.start fun _ => 0).smalloc_fits (sampleOs_sound rfl (.inl rfl)) .malloc3 131041
  refine ⟨p, w', run, fun fits => iff.mp fits ⟨by decide, ?_⟩⟩
  exact sampleOs_sbrk .malloc3

end OsProjects.Malloc.Buddy
