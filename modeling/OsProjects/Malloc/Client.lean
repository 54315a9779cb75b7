import OsProjects.Lib.Objects
import OsProjects.Malloc.Whole

/-!
# What a client sees of the buddy allocators

A client names its objects by variables and reads and writes their bytes. However the
allocator splits, merges and moves the blocks, the client sees an ideal memory of
separate objects (`ideal_memory`): what it has stored is there until the object goes, new
objects meet no others, and `srealloc` carries the bytes along.
-/

namespace OsProjects.Malloc

open Objects

/-- A request of a client that names its objects by variables. -/
inductive Request (ι : Type*) where
  | smalloc (h : ι) (size : Nat)
  | scalloc (h : ι) (num size : Nat)
  | sfree (h : ι)
  | srealloc (h : ι) (size : Nat)
  | write (h : ι) (i : Nat) (b : UInt8)

variable {ι : Type*}

/-- The call, with the pointer that the variable has. -/
def Request.call (vars : ι → Nat) : Request ι → Call
  | smalloc _ size => .smalloc size
  | scalloc _ num size => .scalloc num size
  | sfree h => .sfree (vars h)
  | srealloc h size => .srealloc (vars h) size
  | write h i b => .write (vars h + i) b

/-- What the client takes the request for. -/
def Request.effect : Request ι → Effect ι UInt8
  | smalloc h _ => .new h
  | scalloc h num size => .filled h (product num size) 0
  | sfree h => .delete h
  | srealloc h size => .resize h size
  | write h i b => .store h i b

/-- A byte is written inside the object that it is meant for. -/
def Request.Inside (v : View UInt8) (vars : ι → Nat) : Request ι → Prop
  | write h i _ => vars h ∈ v.live ∧ i < v.room (vars h)
  | smalloc _ _ | scalloc _ _ _ | sfree _ | srealloc _ _ => True

/-- One object with one byte in it. -/
def stored : List (Request Unit × Bool) := [(.smalloc () 100, true), (.write () 7 42, false)]

namespace Buddy

open Links Tiling

variable {listed : Prop} {ed : Edition} {os : Os} {s s' : State} {w w' : World} {m n p x size num : Nat} {B B' : Set Nat}
  {M M' : List Nat} {vars : ι → Nat}

/-- The world as the client sees it. -/
def World.view (w : World) : View UInt8 where
  live := w.live
  room p := w.st.usable (metaFromPtr p)
  mem := w.st.mem

/-- A request that meets the contract, and its answer. -/
structure Turn (ed : Edition) (vars : ι → Nat) (w : World) (r : Request ι) (p : Nat) (w' : World) : Prop where
  answer : ∃ os, Permitted ed w os (r.call vars) ∧ exec ed os (r.call vars) w = some (p, w')
  inside : r.Inside w.view vars

/-! ## The promises -/

theorem Keeps.same (inv : Inv listed w.st B M) (hx : x ∈ Held w.st B M) (keeps : Keeps w.st w'.st x) :
    Same w.view w'.view (ptrFromMeta x) where
  room := by
    simp only [World.view, metaFromPtr_ptrFromMeta, State.usable, keeps.size, keeps.isMmap]
  bytes i lt := by
    have whole := inv.usable_eq (Inv.blocks_of_held hx)
    simp only [World.view, metaFromPtr_ptrFromMeta] at lt
    exact keeps.bytes _ (by unfold ptrFromMeta; omega) (by unfold ptrFromMeta; omega)

theorem LivePtrs.zero_notMem (live : LivePtrs w B M) : 0 ∉ w.live := by
  intro mem
  obtain ⟨x, -, e⟩ := (live 0).mp mem
  exact ptrFromMeta_ne_zero x e.symm

theorem LivePtrs.unchanged (live : LivePtrs w B M) (inv : Inv listed w.st B M) (same : w'.live = w.live)
    (keeps : ∀ z ∈ Held w.st B M, Keeps w.st w'.st z) : Unchanged w.view w'.view where
  live := by
    simp only [World.view, same]
  same q hq := by
    obtain ⟨z, hz, rfl⟩ := (live q).mp hq
    exact (keeps z hz).same inv hz

/-- A new block. -/
theorem LivePtrs.given {bytes : Nat} (live : LivePtrs w B M) (inv : Inv listed w.st B M)
    (grants : Grants w.st s' (Held w.st B M) (Held s' B' M') x bytes) :
    Given w.view (World.view ⟨s', insert (ptrFromMeta x) w.live⟩) 0 (ptrFromMeta x) where
  ne_zero := ptrFromMeta_ne_zero x
  fresh mem := by
    obtain ⟨z, hz, e⟩ := (live _).mp mem.1
    exact grants.fresh (ptrFromMeta_inj e ▸ hz)
  live := by
    have zero : (0 : Nat) ∉ (w.live : Set Nat) := live.zero_notMem
    simp only [World.view, Finset.coe_insert, Set.sdiff_singleton_eq_self zero]
  same q hq _ := by
    obtain ⟨z, hz, rfl⟩ := (live q).mp hq
    exact (grants.keeps z hz).same inv hz

/-- A block in place of another one. -/
theorem LivePtrs.replaced (live : LivePtrs w B M) (inv : Inv listed w.st B M)
    (moves : Moves w.st s' (Held w.st B M) (Held s' B' M') m x) :
    Given w.view (World.view ⟨s', insert (ptrFromMeta x) (w.live.erase (ptrFromMeta m))⟩) (ptrFromMeta m) (ptrFromMeta x) where
  ne_zero := ptrFromMeta_ne_zero x
  fresh mem := by
    obtain ⟨z, hz, e⟩ := (live _).mp mem.1
    obtain rfl := ptrFromMeta_inj e
    rcases moves.fresh with rfl | out
    · exact mem.2 rfl
    · exact out hz
  live := by
    simp only [World.view, Finset.coe_insert, Finset.coe_erase]
  same q hq ne := by
    obtain ⟨z, hz, rfl⟩ := (live q).mp hq
    exact (moves.keeps z hz fun e => ne (by rw [e])).same inv hz

/-- A request for a new block. -/
theorem LivePtrs.requested {bytes : Nat} (live : LivePtrs w B M) (inv : Inv listed w.st B M)
    (result : x = 0 ∧ Held s' B' M' = Held w.st B M ∧ (∀ z ∈ Held w.st B M, Keeps w.st s' z) ∨
      x ≠ 0 ∧ Grants w.st s' (Held w.st B M) (Held s' B' M') x bytes) :
    userPtr x = 0 ∧ Unchanged w.view (World.view ⟨s', w.live⟩) ∨
      userPtr x = ptrFromMeta x ∧ Given w.view (World.view ⟨s', insert (ptrFromMeta x) w.live⟩) 0 (ptrFromMeta x) := by
  rcases result with ⟨rfl, -, keeps⟩ | ⟨pos, grants⟩
  · exact .inl ⟨rfl, live.unchanged inv rfl keeps⟩
  · exact .inr ⟨userPtr_ne_zero pos, live.given inv grants⟩

section Promises

variable (inv : Inv listed w.st B M) (live : LivePtrs w B M) (sound : Sound os w.st) (h : ι)
include inv live

include sound in
theorem promise_smalloc (run : exec ed os (.smalloc size) w = some (p, w')) :
    Answers vars w.view w'.view (.new h) p := by
  by_cases bad : Refused size
  · rw [exec_smalloc (smalloc_of_refused bad)] at run
    obtain ⟨rfl, rfl⟩ := Prod.mk.inj (Option.some_inj.mp run)
    exact .refusedNew (live.unchanged inv rfl fun z _ => Keeps.refl w.st z)
  · obtain ⟨x, s₁, B₁, s', B', M', eq, -, -, -, req⟩ := inv.smalloc sound ed bad
    rw [exec_smalloc eq] at run
    obtain ⟨rfl, rfl⟩ := Prod.mk.inj (Option.some_inj.mp run)
    rcases live.requested inv req.result with ⟨null, same⟩ | ⟨ptr, given⟩
    · rw [null, if_pos rfl]
      exact .refusedNew same
    · rw [ptr, if_neg (ptrFromMeta_ne_zero x)]
      exact .new given

include sound in
theorem promise_scalloc (no : ¬Overruns ed os num size w.st) (run : exec ed os (.scalloc num size) w = some (p, w')) :
    Answers vars w.view w'.view (.filled h (product num size) 0) p := by
  by_cases bad : CallocRefused ed num size
  · rw [exec_scalloc (scalloc_of_refused bad)] at run
    obtain ⟨rfl, rfl⟩ := Prod.mk.inj (Option.some_inj.mp run)
    exact .refusedFilled (live.unchanged inv rfl fun z _ => Keeps.refl w.st z)
  · obtain ⟨x, s₁, B₁, s', B', M', eq, boot, inv', req⟩ := inv.scalloc sound ed bad
    by_cases null : x = 0
    · rw [if_pos null] at eq
      rw [exec_scalloc eq] at run
      obtain ⟨rfl, rfl⟩ := Prod.mk.inj (Option.some_inj.mp run)
      have keeps := (req.result.resolve_right fun g => g.1 null).2.2
      exact .refusedFilled (live.unchanged inv rfl keeps)
    · have grants := (req.result.resolve_left fun g => null g.1).2
      have hx : x ∈ Held s' B' M' := by
        rw [grants.held]
        exact Set.mem_insert x _
      have fits := (inv'.usable_of_reserved (Inv.blocks_of_held hx) sound (not_callocRefused bad).2.2.1 grants.extent).1
        fun band => no ⟨band, (req.narrow boot band).mp null⟩
      obtain ⟨inv'', held, extent, keeps⟩ := inv'.clear hx fits
      rw [if_neg null] at eq
      rw [exec_scalloc eq] at run
      obtain ⟨rfl, rfl⟩ := Prod.mk.inj (Option.some_inj.mp run)
      rw [if_neg (ptrFromMeta_ne_zero x)]
      have cleared : Grants w.st (clearBlock x (product num size) s') (Held w.st B M)
          (Held (clearBlock x (product num size) s') B' M') x
          (reserved ed os (decide (hugepageScalloc < size)) (product num size)) := by
        refine ⟨grants.fresh, held.trans grants.held, fun z hz => ?_, extent.trans grants.extent⟩
        have hz' : z ∈ Held s' B' M' := grants.held ▸ Set.mem_insert_of_mem x hz
        exact (grants.keeps z hz).trans (keeps z hz' fun e => grants.fresh (e ▸ hz))
      apply Answers.filled (live.given inv cleared)
      intro i lt
      have room := inv''.usable_eq (Inv.blocks_of_held (held ▸ hx))
      have room' := inv'.usable_eq (Inv.blocks_of_held hx)
      constructor
      · simp only [World.view, metaFromPtr_ptrFromMeta]
        omega
      · exact Mem.memset_apply_of_mem (by omega) (by omega)

theorem promise_sfree (arg : vars h = 0 ∨ vars h ∈ w.live) (run : exec ed os (.sfree (vars h)) w = some (p, w')) :
    Answers vars w.view w'.view (.delete h) p := by
  by_cases null : vars h = 0
  · have notLive : vars h ∉ w.live := by
      rw [null]
      exact live.zero_notMem
    have eq : exec ed os (.sfree (vars h)) w = some (0, w) := by
      simp only [exec, Buddy.sfree, if_pos null, Finset.erase_eq_of_notMem notLive]
      rfl
    rw [eq] at run
    obtain ⟨rfl, rfl⟩ := Prod.mk.inj (Option.some_inj.mp run)
    exact .deleteNull null (live.unchanged inv rfl fun z _ => Keeps.refl w.st z)
  · obtain ⟨m, hm, ptr⟩ := (live (vars h)).mp (arg.resolve_left null)
    obtain ⟨s', B', M', free, -, -, frees⟩ := inv.sfree hm
    rw [ptr] at run
    simp only [exec, free] at run
    obtain ⟨rfl, rfl⟩ := Prod.mk.inj (Option.some_inj.mp run)
    apply Answers.delete
    · simp only [World.view, Finset.coe_erase, ptr]
    · intro q hq ne
      obtain ⟨z, hz, rfl⟩ := (live q).mp hq
      exact (frees.keeps z hz fun e => ne (by rw [ptr, e])).same inv hz

include sound in
theorem promise_srealloc (arg : vars h = 0 ∨ vars h ∈ w.live)
    (run : exec ed os (.srealloc (vars h) size) w = some (p, w')) : Answers vars w.view w'.view (.resize h size) p := by
  by_cases bad : Refused size
  · rw [exec_srealloc (srealloc_of_refused bad)] at run
    obtain ⟨rfl, rfl⟩ := Prod.mk.inj (Option.some_inj.mp run)
    exact .refusedResize (live.unchanged inv rfl fun z _ => Keeps.refl w.st z)
  by_cases null : vars h = 0
  · have notLive : vars h ∉ w.live := by
      rw [null]
      exact live.zero_notMem
    obtain ⟨x, s₁, B₁, s', B', M', eq, -, -, -, req⟩ := inv.smalloc sound ed bad
    rw [← srealloc_null bad null] at eq
    rw [exec_srealloc eq, Finset.erase_eq_of_notMem notLive] at run
    obtain ⟨rfl, rfl⟩ := Prod.mk.inj (Option.some_inj.mp run)
    rcases live.requested inv req.result with ⟨null', same⟩ | ⟨ptr, given⟩
    · rw [null', if_pos rfl]
      exact .refusedResize same
    · rw [ptr, if_neg (ptrFromMeta_ne_zero x)]
      rw [← null] at given
      exact .resize given fun ne => absurd null ne
  · obtain ⟨m, hm, ptr⟩ := (live (vars h)).mp (arg.resolve_left null)
    obtain ⟨q, s', B', M', eq, -, -, re⟩ := inv.srealloc sound ed bad hm
    rw [ptr, exec_srealloc eq] at run
    obtain ⟨rfl, rfl⟩ := Prod.mk.inj (Option.some_inj.mp run)
    rcases re.result with ⟨rfl, -, keeps⟩ | ⟨x, rfl, moves, wide, narrow⟩
    · rw [if_pos rfl]
      exact .refusedResize (live.unchanged inv rfl keeps)
    · rw [if_neg (ptrFromMeta_ne_zero x)]
      apply Answers.resize
      · rw [ptr]
        exact live.replaced inv moves
      · intro _ i lt small
        rw [ptr] at lt ⊢
        simp only [World.view, metaFromPtr_ptrFromMeta] at lt ⊢
        refine ⟨?_, moves.bytes i lt⟩
        -- the new block has the requested bytes, or as many as the largest block has
        by_cases band : Narrow size ∧ m ∈ B
        · rw [narrow band.1 band.2]
          exact lt_of_lt_of_le lt (inv.usable_le band.2)
        · exact lt_of_lt_of_le small (wide band)

theorem promise_write {i : Nat} (b : UInt8) (inside : vars h ∈ w.live ∧ i < w.st.usable (metaFromPtr (vars h)))
    (run : exec ed os (.write (vars h + i) b) w = some (p, w')) : Answers vars w.view w'.view (.store h i b) p := by
  obtain ⟨mem, fits⟩ := inside
  obtain ⟨rfl, rfl⟩ := Prod.mk.inj (Option.some_inj.mp run)
  obtain ⟨x, hx, ptr⟩ := (live (vars h)).mp mem
  have blocks := Inv.blocks_of_held hx
  have whole := inv.usable_eq blocks
  rw [ptr, metaFromPtr_ptrFromMeta] at fits
  have touches : Mem.Touches {(x + metaSize, w.st.usable x)} w.st.mem (w.st.mem.store8 (vars h + i) b) := by
    refine Mem.touches_store8 (r := (x + metaSize, w.st.usable x)) rfl ?_ ?_
    · rw [ptr]
      unfold ptrFromMeta
      omega
    · rw [ptr]
      unfold ptrFromMeta
      omega
  obtain ⟨inv', -, hdr, keeps⟩ := inv.write blocks (by omega) touches
  apply Answers.store
  · rfl
  · intro q hq ne
    obtain ⟨z, hz, rfl⟩ := (live q).mp hq
    exact (keeps z (Inv.blocks_of_held hz) fun e => ne (by rw [ptr, e])).same inv hz
  · have header : metaFromPtr (vars h) = x := by rw [ptr, metaFromPtr_ptrFromMeta]
    simp only [World.view, header]
    exact State.usable_congr (hdr x blocks)
  · rw [ptr]
    simpa only [World.view, metaFromPtr_ptrFromMeta] using fits
  · intro j _
    simp only [World.view, Mem.store8, Nat.add_left_cancel_iff]

end Promises

/-- **Every answer is one that an ideal memory can give.** -/
theorem Turn.answers {r : Request ι} (good : Good False w) (turn : Turn ed vars w r p w') :
    Good False w' ∧ Answers vars w.view w'.view r.effect p := by
  obtain ⟨⟨os, ok, run⟩, inside⟩ := turn
  obtain ⟨p', v, run', good', -⟩ := good.exec ok
  obtain ⟨-, rfl⟩ := Prod.mk.inj (Option.some_inj.mp (run.symm.trans run'))
  obtain ⟨B, M, inv, live⟩ := good
  refine ⟨good'.weaken False.elim, ?_⟩
  cases r with
  | smalloc h size => exact promise_smalloc inv live ok.sound h run
  | scalloc h num size => exact promise_scalloc inv live ok.sound h ok.args.2.2 run
  | sfree h => exact promise_sfree inv live h ok.args run
  | srealloc h size => exact promise_srealloc inv live ok.sound h ok.args.2 run
  | write h i b => exact promise_write inv live h b inside run

variable [DecidableEq ι]

/-- A client of one of the buddy allocators, from the program's start. -/
abbrev Client (ed : Edition) (mem : Mem) : List (Request ι × Bool) → (ι → Nat) → World → Prop :=
  Plays Request.effect (Turn ed) (fun _ => 0) (World.start mem)

theorem Client.good {mem : Mem} {trace : List (Request ι × Bool)} (client : Client ed mem trace vars w) :
    Good False w ∧ Agrees vars w.view (replay Request.effect trace fun _ => none) :=
  Plays.agrees (fun _ _ _ _ _ good turn => turn.answers good) ((Good.start mem).weaken False.elim) (Agrees.start _) client

/-- A client that stores a byte in a new block. -/
theorem exists_stored : ∃ vars w, Client .malloc3 (fun _ => 0) stored vars w := by
  have step := first_step (fun _ => 0) .malloc3 100 (by decide)
  obtain ⟨x, s₁, B₁, s', B', M', run, -, boot, inv, req⟩ :=
    (Inv.start fun _ => 0).smalloc step.permitted.sound .malloc3 (by decide : ¬Refused 100)
  have pos : x ≠ 0 := by
    intro zero
    have empty := (req.heap (by decide)).mp zero maxOrder (by decide) (le_refl _)
    exact boot.topFree.mpr (step.sbrk rfl) empty
  have grants := (req.result.resolve_left fun g => pos g.1).2
  have held : x ∈ Held s' B' M' := by
    rw [grants.held]
    exact .inl rfl
  have room := (inv.usable_of_reserved (Inv.blocks_of_held held) step.permitted.sound (by decide) grants.extent).1 (by decide)
  have first : Client .malloc3 (fun _ => 0) ([] ++ [(Request.smalloc () 100, decide (userPtr x ≠ 0))]) _ _ :=
    Plays.nil.snoc rfl ⟨⟨_, step.permitted, exec_smalloc run⟩, trivial⟩
  rw [userPtr_ne_zero pos, if_neg (ptrFromMeta_ne_zero x)] at first
  have live : ptrFromMeta x ∈ (World.mk s' (insert (ptrFromMeta x) ∅)).live := Finset.mem_insert_self _ _
  have inside : ptrFromMeta x ∈ (World.mk s' (insert (ptrFromMeta x) ∅)).live ∧ 7 < s'.usable (metaFromPtr (ptrFromMeta x)) := by
    rw [metaFromPtr_ptrFromMeta]
    exact ⟨live, by omega⟩
  have turn : Turn .malloc3 (Function.update (fun _ => 0) () (ptrFromMeta x)) (World.mk s' (insert (ptrFromMeta x) ∅))
      (Request.write () 7 42) 0 _ :=
    ⟨⟨spentOs, ⟨spentOs_sound _, ptrFromMeta x, live, Nat.le_add_right _ 7, Nat.add_lt_add_left inside.2 _⟩, rfl⟩, inside⟩
  have ready : (Request.write () 7 42).effect.Ready (Function.update (fun _ => 0) () (ptrFromMeta x)) := trivial
  have second : Client .malloc3 (fun _ => 0) _ _ _ := Plays.snoc first ready turn
  have trace : decide (ptrFromMeta x ≠ 0) = true := decide_eq_true (ptrFromMeta_ne_zero x)
  rw [trace] at second
  exact ⟨_, _, second⟩

end Buddy

end OsProjects.Malloc
