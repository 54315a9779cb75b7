import OsProjects.Malloc.Bump
import OsProjects.Malloc.FirstFitRun

/-!
# What a client sees of the first-fit allocator

It is the same ideal memory as with the buddy allocators. A client that makes the same
requests of any two of the four allocators, and gets the same ones granted, reads the same
bytes (`allocators_indistinguishable`).
-/

namespace OsProjects.Malloc

open Objects

variable {ι : Type*}

namespace FirstFit

open Links Tiling

variable {os : Os} {s s' : State} {w w' : World} {l l' : List Nat} {m n p q x size num : Nat} {vars : ι → Nat}

/-- The world as the client sees it. -/
def World.view (w : World) : View UInt8 where
  live := w.live
  room p := w.st.size (metaFromPtr p)
  mem := w.st.mem

/-- A request that meets the contract, and its answer. -/
structure Turn (vars : ι → Nat) (w : World) (r : Request ι) (p : Nat) (w' : World) : Prop where
  answer : ∃ os, Permitted w os (r.call vars) ∧ exec os (r.call vars) w = some (p, w')
  inside : r.Inside w.view vars

/-! ## The promises -/

theorem Keeps.same (keeps : Keeps w.st w'.st x) : Same w.view w'.view (ptrFromMeta x) where
  room := by
    simp only [World.view, metaFromPtr_ptrFromMeta, keeps.size]
  bytes i lt := by
    simp only [World.view, metaFromPtr_ptrFromMeta] at lt
    exact keeps.bytes i lt

theorem Unchanged.refl (w : World) : Unchanged w.view w.view := ⟨rfl, fun _ _ => ⟨rfl, fun _ _ => rfl⟩⟩

section Promises

variable (good : Good w l)
include good

theorem Good.zero_notMem : 0 ∉ w.live := fun mem => good.ne_zero mem rfl

/-- A new block. -/
theorem Good.given (grants : Grants w.st s' l l' x size) :
    Given w.view (w.grant s' w.live (ptrFromMeta x) size).view 0 (ptrFromMeta x) where
  ne_zero := ptrFromMeta_ne_zero x
  fresh mem := by
    obtain ⟨hx, used⟩ := good.of_live mem.1
    rw [grants.fresh hx] at used
    cases used
  live := by
    have zero : (0 : Nat) ∉ (w.live : Set Nat) := good.zero_notMem
    simp only [World.view, World.grant, if_neg (ptrFromMeta_ne_zero x), Finset.coe_insert, Set.sdiff_singleton_eq_self zero]
  same q hq _ := by
    obtain ⟨z, hz, used, rfl⟩ := (good.live q).mp hq
    have ne : z ≠ x := by
      rintro rfl
      rw [grants.fresh hz] at used
      cases used
    apply Keeps.same
    rw [World.grant, if_neg (ptrFromMeta_ne_zero x)]
    exact grants.keeps z hz ne

/-- A block in place of another one. -/
theorem Good.replaced (moves : Moves w.st s' l l' m x size) :
    Given w.view (w.grant s' (w.live.erase (ptrFromMeta m)) (ptrFromMeta x) size).view (ptrFromMeta m) (ptrFromMeta x) where
  ne_zero := ptrFromMeta_ne_zero x
  fresh mem := by
    obtain ⟨hx, used⟩ := good.of_live mem.1
    rw [moves.fresh hx] at used
    cases used
  live := by
    simp only [World.view, World.grant, if_neg (ptrFromMeta_ne_zero x), Finset.coe_insert, Finset.coe_erase]
  same q hq _ := by
    obtain ⟨z, hz, used, rfl⟩ := (good.live q).mp hq
    have ne : z ≠ x := by
      rintro rfl
      rw [moves.fresh hz] at used
      cases used
    apply Keeps.same
    rw [World.grant, if_neg (ptrFromMeta_ne_zero x)]
    exact moves.keeps z hz ne

theorem promise_smalloc (sound : Sound os w.st) (h : ι) (run : exec os (.smalloc size) w = some (p, w')) :
    Answers vars w.view w'.view (.new h) p := by
  by_cases bad : Refused size
  · simp only [FirstFit.exec, smalloc_of_refused bad] at run
    obtain ⟨rfl, rfl⟩ := Prod.mk.inj (Option.some_inj.mp run)
    exact .refusedNew (Unchanged.refl w)
  · obtain ⟨⟨q, s'⟩, eq, served⟩ := good.inv.smalloc sound bad
    simp only [FirstFit.exec, eq] at run
    obtain ⟨rfl, rfl⟩ := Prod.mk.inj (Option.some_inj.mp run)
    rcases served.grants good.inv with e | ⟨x, l', e, grants⟩
    · obtain ⟨rfl, rfl⟩ := Prod.mk.inj e
      exact .refusedNew (Unchanged.refl w)
    · obtain rfl : q = ptrFromMeta x := e
      exact .new (good.given grants)

theorem promise_scalloc (sound : Sound os w.st) (h : ι) (run : exec os (.scalloc num size) w = some (p, w')) :
    Answers vars w.view w'.view (.filled h (product num size) 0) p := by
  by_cases zero : num = 0 ∨ size = 0
  · simp only [FirstFit.exec, FirstFit.scalloc, if_pos zero] at run
    obtain ⟨rfl, rfl⟩ := Prod.mk.inj (Option.some_inj.mp run)
    exact .refusedFilled (Unchanged.refl w)
  have eq := scalloc_eq os (s := w.st) num size (not_or.mp zero)
  by_cases bad : Refused (product num size)
  · simp only [FirstFit.exec, eq, smalloc_of_refused bad] at run
    obtain ⟨rfl, rfl⟩ := Prod.mk.inj (Option.some_inj.mp run)
    exact .refusedFilled (Unchanged.refl w)
  · obtain ⟨⟨q, s'⟩, eq', served⟩ := good.inv.smalloc sound bad
    rcases served.grants good.inv with e | ⟨x, l', e, grants⟩
    · obtain ⟨rfl, rfl⟩ := Prod.mk.inj e
      simp only [FirstFit.exec, eq, eq'] at run
      obtain ⟨rfl, rfl⟩ := Prod.mk.inj (Option.some_inj.mp run)
      exact .refusedFilled (Unchanged.refl w)
    · obtain rfl : q = ptrFromMeta x := e
      simp only [FirstFit.exec, eq, eq', Option.map_some, if_neg (ptrFromMeta_ne_zero x)] at run
      obtain ⟨rfl, rfl⟩ := Prod.mk.inj (Option.some_inj.mp run)
      apply Answers.filled (good.given grants.clear)
      intro i lt
      have fits := grants.clear.fits
      rw [World.grant, if_neg (ptrFromMeta_ne_zero x)]
      constructor
      · simp only [World.view, metaFromPtr_ptrFromMeta]
        exact lt_of_lt_of_le lt fits
      · exact Mem.memset_apply_of_mem (by omega) (by omega)

theorem promise_sfree (h : ι) (arg : vars h = 0 ∨ vars h ∈ w.live) (run : exec os (.sfree (vars h)) w = some (p, w')) :
    Answers vars w.view w'.view (.delete h) p := by
  obtain ⟨rfl, rfl⟩ := Prod.mk.inj (Option.some_inj.mp run)
  by_cases null : vars h = 0
  · have same : ({ w with st := FirstFit.sfree (vars h) w.st, live := w.live.erase (vars h) } : World) = w := by
      rw [null, Finset.erase_eq_of_notMem good.zero_notMem]
      rfl
    rw [same]
    exact .deleteNull null (Unchanged.refl w)
  · obtain ⟨m, hm, used, ptr⟩ := (good.live (vars h)).mp (arg.resolve_left null)
    have frees := good.inv.sfree hm used
    rw [← ptr] at frees
    apply Answers.delete
    · simp only [World.view, Finset.coe_erase]
    · intro q hq _
      obtain ⟨z, hz, -, rfl⟩ := (good.live q).mp hq
      exact (frees.keeps z hz).same

theorem promise_srealloc (sound : Sound os w.st) (h : ι) (arg : vars h = 0 ∨ vars h ∈ w.live)
    (run : exec os (.srealloc (vars h) size) w = some (p, w')) : Answers vars w.view w'.view (.resize h size) p := by
  by_cases bad : Refused size
  · have bad' : size = 0 ∨ exceedsMax size = true := bad
    simp only [FirstFit.exec, FirstFit.srealloc, if_pos bad'] at run
    obtain ⟨rfl, rfl⟩ := Prod.mk.inj (Option.some_inj.mp run)
    exact .refusedResize (Unchanged.refl w)
  have ok : ¬(size = 0 ∨ exceedsMax size = true) := bad
  by_cases null : vars h = 0
  · obtain ⟨⟨q, s'⟩, eq, served⟩ := good.inv.smalloc sound bad
    simp only [FirstFit.exec, FirstFit.srealloc, if_neg ok, if_pos null, eq] at run
    rw [null, Finset.erase_eq_of_notMem good.zero_notMem] at run
    obtain ⟨rfl, rfl⟩ := Prod.mk.inj (Option.some_inj.mp run)
    rcases served.grants good.inv with e | ⟨x, l', e, grants⟩
    · obtain ⟨rfl, rfl⟩ := Prod.mk.inj e
      exact .refusedResize (Unchanged.refl w)
    · obtain rfl : q = ptrFromMeta x := e
      have given := good.given grants
      rw [← null] at given
      exact .resize given fun ne => absurd null ne
  · obtain ⟨m, hm, used, ptr⟩ := (good.live (vars h)).mp (arg.resolve_left null)
    obtain ⟨r, eq, re⟩ := good.inv.srealloc sound bad hm used
    rw [ptr] at run
    simp only [FirstFit.exec, eq] at run
    obtain ⟨rfl, rfl⟩ := Prod.mk.inj (Option.some_inj.mp run)
    cases re with
    | stays fits =>
      have view : (w.grant w.st (w.live.erase (ptrFromMeta m)) (ptrFromMeta m) size).view =
          { w.view with live := insert (ptrFromMeta m) (w.view.live \ {ptrFromMeta m}) } := by
        simp only [World.view, World.grant, if_neg (ptrFromMeta_ne_zero m), Finset.coe_insert, Finset.coe_erase]
      rw [view]
      apply Answers.resize
      · rw [ptr]
        exact ⟨ptrFromMeta_ne_zero m, fun mem => mem.2 rfl, rfl, fun _ _ _ => ⟨rfl, fun _ _ => rfl⟩⟩
      · intro _ i lt _
        rw [ptr] at lt ⊢
        exact ⟨lt, rfl⟩
    | fails => exact .refusedResize (Unchanged.refl w)
    | moves x s' l' short moves =>
      apply Answers.resize
      · rw [ptr]
        exact good.replaced moves
      · intro _ i lt small
        rw [ptr] at lt ⊢
        simp only [World.view, World.grant, if_neg (ptrFromMeta_ne_zero x), metaFromPtr_ptrFromMeta] at lt ⊢
        exact ⟨lt_of_lt_of_le small moves.fits, moves.copied i lt⟩

theorem promise_write (h : ι) {i : Nat} (b : UInt8) (inside : vars h ∈ w.live ∧ i < w.st.size (metaFromPtr (vars h)))
    (run : exec os (.write (vars h + i) b) w = some (p, w')) : Answers vars w.view w'.view (.store h i b) p := by
  obtain ⟨mem, fits⟩ := inside
  obtain ⟨rfl, rfl⟩ := Prod.mk.inj (Option.some_inj.mp run)
  obtain ⟨x, hx, used, ptr⟩ := (good.live (vars h)).mp mem
  have header : metaFromPtr (vars h) = x := by rw [ptr, metaFromPtr_ptrFromMeta]
  rw [header] at fits
  have touches : Mem.Touches {(ptrFromMeta x, w.st.size x)} w.st.mem (w.st.mem.store8 (vars h + i) b) := by
    refine Mem.touches_store8 (r := (ptrFromMeta x, w.st.size x)) rfl ?_ ?_
    · rw [ptr]
      exact Nat.le_add_right _ i
    · rw [ptr]
      exact Nat.add_lt_add_left fits _
  obtain ⟨-, hdr, keeps⟩ := good.inv.write hx (le_refl _) touches
  apply Answers.store
  · rfl
  · intro q hq ne
    obtain ⟨z, hz, -, rfl⟩ := (good.live q).mp hq
    apply Keeps.same
    exact keeps z hz fun e => ne (by rw [ptr, e])
  · simp only [World.view, header, State.size, hdr x hx]
  · simpa only [World.view, header] using fits
  · intro j _
    simp only [World.view, Mem.store8, Nat.add_left_cancel_iff]

end Promises

/-- **Every answer is one that an ideal memory can give.** -/
theorem Turn.answers {r : Request ι} (good : ∃ l, Good w l) (turn : Turn vars w r p w') :
    (∃ l, Good w' l) ∧ Answers vars w.view w'.view r.effect p := by
  obtain ⟨⟨os, ok, run⟩, inside⟩ := turn
  obtain ⟨l, good⟩ := good
  obtain ⟨p', v, l', run', good', -⟩ := good.exec ok
  obtain ⟨-, rfl⟩ := Prod.mk.inj (Option.some_inj.mp (run.symm.trans run'))
  refine ⟨⟨l', good'⟩, ?_⟩
  cases r with
  | smalloc h size => exact promise_smalloc good ok.sound h run
  | scalloc h num size => exact promise_scalloc good ok.sound h run
  | sfree h => exact promise_sfree good h ok.args run
  | srealloc h size => exact promise_srealloc good ok.sound h ok.args.2 run
  | write h i b => exact promise_write good h b inside run

variable [DecidableEq ι] {mem : Mem} {trace : List (Request ι × Bool)}

/-- A client of the first-fit allocator, from the program's start. -/
abbrev Client (mem : Mem) : List (Request ι × Bool) → (ι → Nat) → World → Prop :=
  Plays Request.effect Turn (fun _ => 0) (World.start mem)

theorem Client.good (client : Client mem trace vars w) :
    (∃ l, Good w l) ∧ Agrees vars w.view (replay Request.effect trace fun _ => none) :=
  Plays.agrees (fun _ _ _ _ _ good turn => turn.answers good) ⟨[], Good.start mem⟩ (Agrees.start _) client

theorem exists_stored : ∃ vars w, Client (fun _ => 0) stored vars w := by
  have sound := sampleOs_sound fun _ => 0
  obtain ⟨⟨q, s'⟩, run, served⟩ := (Inv.start fun _ => 0).smalloc sound (by decide : ¬Refused 100)
  rcases served.grants (Inv.start _) with e | ⟨x, l', e, grants⟩
  · obtain ⟨rfl, rfl⟩ := Prod.mk.inj e
    cases served with
    | failed noFit sbrk => exact absurd sbrk (by decide)
  · obtain rfl : q = ptrFromMeta x := e
    have exec : exec sampleOs (.smalloc 100) (World.start fun _ => 0) =
        some (ptrFromMeta x, (World.start fun _ => 0).grant s' ∅ (ptrFromMeta x) 100) := by
      simp only [FirstFit.exec, World.start, run]
      rfl
    have first : Client (fun _ => 0) ([] ++ [(Request.smalloc () 100, decide (ptrFromMeta x ≠ 0))]) _ _ :=
      Plays.nil.snoc rfl ⟨⟨sampleOs, ⟨sound, (by decide : 100 < 2 ^ 64)⟩, exec⟩, trivial⟩
    rw [World.grant, if_neg (ptrFromMeta_ne_zero x)] at first
    have inside : ptrFromMeta x ∈ insert (ptrFromMeta x) (∅ : Finset Nat) ∧ 7 < s'.size (metaFromPtr (ptrFromMeta x)) := by
      rw [metaFromPtr_ptrFromMeta]
      have fits : 100 ≤ s'.size x := grants.fits
      exact ⟨Finset.mem_insert_self _ _, by omega⟩
    have turn : Turn (Function.update (fun _ => 0) () (ptrFromMeta x))
        ⟨s', insert (ptrFromMeta x) ∅, Function.update (World.start fun _ => 0).granted (ptrFromMeta x) 100⟩
        (Request.write () 7 42) 0 _ :=
      ⟨⟨Buddy.spentOs, ⟨fun _ _ answer => absurd answer.symm (Option.some_ne_none _), ptrFromMeta x, inside.1, Nat.le_add_right _ 7,
        Nat.add_lt_add_left inside.2 _⟩, rfl⟩, inside⟩
    have ready : (Request.write () 7 42).effect.Ready (Function.update (fun _ => 0) () (ptrFromMeta x)) := trivial
    have second : Client (fun _ => 0) _ _ _ := Plays.snoc first ready turn
    have trace : decide (ptrFromMeta x ≠ 0) = true := decide_eq_true (ptrFromMeta_ne_zero x)
    rw [trace] at second
    exact ⟨_, _, second⟩

/-- **The first-fit allocator is an ideal memory** too. -/
theorem first_fit_ideal_memory (client : Client mem trace vars w) :
    Agrees vars w.view (replay Request.effect trace fun _ => none) ∧
      ∀ r os, Permitted w os (r.call vars) → r.Inside w.view vars → r.effect.Ready vars →
        ∃ p w', Client mem (trace ++ [(r, decide (p ≠ 0))]) (r.effect.assign p vars) w' := by
  obtain ⟨⟨l, good⟩, agrees⟩ := client.good
  refine ⟨agrees, fun r os ok inside ready => ?_⟩
  obtain ⟨p, w', -, run, -⟩ := good.exec ok
  exact ⟨p, w', client.snoc ready ⟨⟨os, ok, run⟩, inside⟩⟩

theorem first_fit_ideal_memory_stored : ∃ vars w, Client (fun _ => 0) stored vars w ∧ w.st.mem (vars () + 7) = 42 := by
  obtain ⟨vars, w, client⟩ := exists_stored
  exact ⟨vars, w, client, ((first_fit_ideal_memory client).1.known () _ 7 42 rfl rfl).2⟩

end FirstFit

/-! ## Any two allocators -/

/-- The allocators of the four files. -/
inductive Allocator where
  | bump
  | firstFit
  | buddy (ed : Buddy.Edition)

variable [DecidableEq ι]

/-- What a client has seen of an allocator: its trace, its variables and the bytes. -/
def Allocator.Shows (mem : Mem) (trace : List (Request ι × Bool)) (vars : ι → Nat) (v : View UInt8) : Allocator → Prop
  | bump => ∃ s, Bump.Client mem trace vars s ∧ v = s.view
  | firstFit => ∃ w, FirstFit.Client mem trace vars w ∧ v = w.view
  | buddy ed => ∃ w, Buddy.Client ed mem trace vars w ∧ v = w.view

theorem Allocator.Shows.agrees {mem : Mem} {trace : List (Request ι × Bool)} {vars : ι → Nat} {v : View UInt8} {a : Allocator}
    (shows : a.Shows mem trace vars v) : Agrees vars v (replay Request.effect trace fun _ => none) := by
  cases a with
  | bump =>
    obtain ⟨s, client, rfl⟩ := shows
    exact client.good.2
  | firstFit =>
    obtain ⟨w, client, rfl⟩ := shows
    exact client.good.2
  | buddy ed =>
    obtain ⟨w, client, rfl⟩ := shows
    exact client.good.2

end OsProjects.Malloc
