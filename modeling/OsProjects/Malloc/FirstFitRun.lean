import OsProjects.Malloc.FirstFitInv

/-!
# Runs of the first-fit allocator

A `World` is the allocator's state with the pointers the client holds and the last
size granted for each. `exec` makes one call and `Permitted` is its contract. Every
permitted call returns, keeps the invariant and changes the bytes of no block but
its own (`Good.exec`); `first_fit_correct` puts this together over whole runs.
-/

namespace OsProjects.Malloc.FirstFit

open Links Tiling

/-- The allocator, the pointers the client holds, and the last size granted for each. -/
structure World where
  st : State
  live : Finset Nat
  granted : Nat → Nat

/-- The program's start. -/
def World.start (mem : Mem) : World := ⟨State.start mem, ∅, fun _ => 0⟩

/-- The world after a call that was asked for `size` bytes returned `p`; the other
pointers the client still holds are `live`. -/
def World.grant (w : World) (st : State) (live : Finset Nat) (p size : Nat) : World :=
  if p = 0 then { w with st := st } else ⟨st, insert p live, Function.update w.granted p size⟩

/-- One call: what it returns (`0` where it returns nothing) and the world after it. -/
def exec (os : Os) : Call → World → Option (Nat × World)
  | .smalloc size, w => do
    let (p, st) ← smalloc os size w.st
    return (p, w.grant st w.live p size)
  | .scalloc num size, w => do
    let (p, st) ← scalloc os num size w.st
    return (p, w.grant st w.live p (product num size))
  | .sfree p, w => some (0, { w with st := sfree p w.st, live := w.live.erase p })
  | .srealloc oldp size, w => do
    let (p, st) ← srealloc os oldp size w.st
    return (p, w.grant st (w.live.erase oldp) p size)
  | .write a b, w => some (0, { w with st := { w.st with mem := w.st.mem.store8 a b } })

/-- The contract of a call. -/
structure Permitted (w : World) (os : Os) (call : Call) : Prop where
  sound : Sound os w.st
  args : match call with
    | .smalloc size => size < 2 ^ 64
    | .scalloc num size => num < 2 ^ 64 ∧ size < 2 ^ 64
    | .sfree p => p = 0 ∨ p ∈ w.live
    | .srealloc oldp size => size < 2 ^ 64 ∧ (oldp = 0 ∨ oldp ∈ w.live)
    | .write a _ => ∃ p ∈ w.live, p ≤ a ∧ a < p + w.st.size (metaFromPtr p)

/-- `w'` is reached from `w` by permitted calls. -/
inductive Run (w : World) : World → Prop where
  | refl : Run w w
  | step {w' w'' : World} {os : Os} {call : Call} {p : Nat} (run : Run w w') (ok : Permitted w' os call)
      (exec : exec os call w' = some (p, w'')) : Run w w''

/-- The worlds that permitted calls reach from the program's start. -/
def Reachable (w : World) : Prop := ∃ mem, Run (World.start mem) w

variable {os : Os} {s s' : State} {w w' : World} {l l' : List Nat} {a m p q size x : Nat} {call : Call}

/-! ## The invariant of a run -/

/-- The live pointers are the used blocks, and each is as large as was last granted. -/
structure Good (w : World) (l : List Nat) : Prop where
  inv : Inv w.st l
  live : ∀ p, p ∈ w.live ↔ ∃ x ∈ l, w.st.isFree x = false ∧ p = ptrFromMeta x
  granted : ∀ x ∈ l, w.st.isFree x = false →
    0 < w.granted (ptrFromMeta x) ∧ w.granted (ptrFromMeta x) ≤ w.st.size x

/-- The call is about the block of `q`. -/
def Concerns (w : World) (q : Nat) : Call → Prop
  | .smalloc _ => False
  | .scalloc _ _ => False
  | .sfree p => q = p
  | .srealloc oldp _ => q = oldp
  | .write a _ => q ≤ a ∧ a < q + w.st.size (metaFromPtr q)

/-- What a call leaves alone: the blocks and their sizes, and the bytes of the live
blocks that it is not about. -/
structure Leaves (w w' : World) (call : Call) (l l' : List Nat) : Prop where
  sizes : ∀ x ∈ l, x ∈ l' ∧ w'.st.size x = w.st.size x
  bytes : ∀ q ∈ w.live, ¬Concerns w q call →
    ∀ i < w.st.size (metaFromPtr q), w'.st.mem (q + i) = w.st.mem (q + i)

theorem Leaves.refl (w : World) (call : Call) (l : List Nat) : Leaves w w call l l :=
  ⟨fun _ hx => ⟨hx, rfl⟩, fun _ _ _ _ _ => rfl⟩

/-- The block that `srealloc` returns starts with the bytes of the old one. -/
def Copies (w w' : World) (p : Nat) : Call → Prop
  | .srealloc oldp _ => oldp ≠ 0 → p ≠ 0 →
      ∀ i < w.st.size (metaFromPtr oldp), w'.st.mem (p + i) = w.st.mem (oldp + i)
  | _ => True

/-- The call returns, and leaves the world in order. -/
def Executed (os : Os) (call : Call) (w : World) (l : List Nat) : Prop :=
  ∃ p w' l', exec os call w = some (p, w') ∧ Good w' l' ∧ Leaves w w' call l l' ∧ Copies w w' p call

theorem Good.executed_nothing (good : Good w l) (run : exec os call w = some (0, w)) : Executed os call w l := by
  refine ⟨0, w, l, run, good, Leaves.refl w call l, ?_⟩
  cases call with
  | srealloc oldp size => exact fun _ pos => absurd rfl pos
  | _ => trivial

namespace Good

theorem start (mem : Mem) : Good (World.start mem) [] := by
  refine ⟨Inv.start mem, fun p => ?_, fun x hx => absurd hx List.not_mem_nil⟩
  simp [World.start]

theorem ne_zero (good : Good w l) (hp : p ∈ w.live) : p ≠ 0 := by
  obtain ⟨x, -, -, rfl⟩ := (good.live p).mp hp
  exact ptrFromMeta_ne_zero x

theorem of_live (good : Good w l) (hx : ptrFromMeta x ∈ w.live) : x ∈ l ∧ w.st.isFree x = false := by
  obtain ⟨z, hz, used, e⟩ := (good.live _).mp hx
  exact ptrFromMeta_inj e ▸ ⟨hz, used⟩

/-- A new block `x` for the client, who keeps the pointers `live`. -/
theorem handOut {live : Finset Nat} (good : Good w l) (sub : live ⊆ w.live) (inv : Inv s' l')
    (used : ∀ z, z ∈ l' ∧ s'.isFree z = false ↔ z = x ∨ ptrFromMeta z ∈ live)
    (sizes : ∀ z ∈ l, s'.size z = w.st.size z) (pos : 0 < size) (fits : size ≤ s'.size x) :
    Good (w.grant s' live (ptrFromMeta x) size) l' := by
  rw [World.grant, if_neg (ptrFromMeta_ne_zero x)]
  refine ⟨inv, fun p => ?_, fun z hz usedZ => ?_⟩
  · rw [Finset.mem_insert]
    constructor
    · rintro (rfl | hp)
      · exact ⟨x, ((used x).mpr (.inl rfl)).1, ((used x).mpr (.inl rfl)).2, rfl⟩
      · obtain ⟨z, -, -, rfl⟩ := (good.live p).mp (sub hp)
        exact ⟨z, ((used z).mpr (.inr hp)).1, ((used z).mpr (.inr hp)).2, rfl⟩
    · rintro ⟨z, hz, usedZ, rfl⟩
      rcases (used z).mp ⟨hz, usedZ⟩ with rfl | mem
      · exact .inl rfl
      · exact .inr mem
  · change 0 < Function.update w.granted (ptrFromMeta x) size (ptrFromMeta z) ∧
      Function.update w.granted (ptrFromMeta x) size (ptrFromMeta z) ≤ s'.size z
    by_cases e : z = x
    · rw [e, Function.update_self]
      exact ⟨pos, fits⟩
    · obtain ⟨hz', usedZ'⟩ := good.of_live (sub (((used z).mp ⟨hz, usedZ⟩).resolve_left e))
      rw [Function.update_of_ne fun same => e (ptrFromMeta_inj same), sizes z hz']
      exact good.granted z hz' usedZ'

/-- A call that only hands out the block `x`. -/
theorem grant (good : Good w l) (pos : 0 < size) (grants : Grants w.st s' l l' x size) (call : Call) :
    Good (w.grant s' w.live (ptrFromMeta x) size) l' ∧
      Leaves w (w.grant s' w.live (ptrFromMeta x) size) call l l' := by
  have hx : x ∈ l' := (grants.blocks x).mpr (.inr rfl)
  have sub : ∀ z ∈ l, z ∈ l' := fun z hz => (grants.blocks z).mpr (.inl hz)
  have neX : ∀ z ∈ l, w.st.isFree z = false → z ≠ x := by
    rintro z hz used rfl
    rw [grants.fresh hz] at used
    exact absurd used Bool.noConfusion
  refine ⟨good.handOut (Finset.Subset.refl _) grants.inv (fun z => ?_) grants.sizes pos grants.fits, ?_⟩
  · constructor
    · rintro ⟨hz, used⟩
      by_cases e : z = x
      · exact .inl e
      · have old := ((grants.blocks z).mp hz).resolve_right e
        exact .inr ((good.live _).mpr ⟨z, old, (grants.rest z old e).symm.trans used, rfl⟩)
    · rintro (rfl | mem)
      · exact ⟨hx, grants.used⟩
      · obtain ⟨hz, used⟩ := good.of_live mem
        exact ⟨sub z hz, (grants.rest z hz (neX z hz used)).trans used⟩
  · rw [World.grant, if_neg (ptrFromMeta_ne_zero x)]
    refine ⟨fun z hz => ⟨sub z hz, grants.sizes z hz⟩, fun q hq _ i lt => ?_⟩
    obtain ⟨z, hz, used, rfl⟩ := (good.live q).mp hq
    rw [metaFromPtr_ptrFromMeta] at lt
    exact (grants.keeps z hz (neX z hz used)).bytes i lt

/-- A call that moves the block `m` to `x`. -/
theorem move (good : Good w l) (pos : 0 < size) (moves : Moves w.st s' l l' m x size) :
    Good (w.grant s' (w.live.erase (ptrFromMeta m)) (ptrFromMeta x) size) l' ∧
      Leaves w (w.grant s' (w.live.erase (ptrFromMeta m)) (ptrFromMeta x) size) (.srealloc (ptrFromMeta m) size) l l' := by
  have hx : x ∈ l' := (moves.blocks x).mpr (.inr rfl)
  have sub : ∀ z ∈ l, z ∈ l' := fun z hz => (moves.blocks z).mpr (.inl hz)
  have neX : ∀ z ∈ l, w.st.isFree z = false → z ≠ x := by
    rintro z hz used rfl
    rw [moves.fresh hz] at used
    exact absurd used Bool.noConfusion
  refine ⟨good.handOut (Finset.erase_subset _ _) moves.inv (fun z => ?_) moves.sizes pos moves.fits, ?_⟩
  · rw [Finset.mem_erase]
    constructor
    · rintro ⟨hz, used⟩
      by_cases e : z = x
      · exact .inl e
      · have old := ((moves.blocks z).mp hz).resolve_right e
        have neM : z ≠ m := by
          rintro rfl
          rw [moves.free] at used
          exact absurd used Bool.noConfusion
        exact .inr ⟨fun same => neM (ptrFromMeta_inj same),
          (good.live _).mpr ⟨z, old, (moves.rest z old neM e).symm.trans used, rfl⟩⟩
    · rintro (rfl | ⟨ne, mem⟩)
      · exact ⟨hx, moves.used⟩
      · obtain ⟨hz, used⟩ := good.of_live mem
        exact ⟨sub z hz, (moves.rest z hz (fun e => ne (by rw [e])) (neX z hz used)).trans used⟩
  · rw [World.grant, if_neg (ptrFromMeta_ne_zero x)]
    refine ⟨fun z hz => ⟨sub z hz, moves.sizes z hz⟩, fun q hq _ i lt => ?_⟩
    obtain ⟨z, hz, used, rfl⟩ := (good.live q).mp hq
    rw [metaFromPtr_ptrFromMeta] at lt
    exact (moves.keeps z hz (neX z hz used)).bytes i lt

/-- A call that frees the block `m`. -/
theorem free (good : Good w l) (frees : Frees w.st s' l m) :
    Good { w with st := s', live := w.live.erase (ptrFromMeta m) } l ∧
      Leaves w { w with st := s', live := w.live.erase (ptrFromMeta m) } (.sfree (ptrFromMeta m)) l l := by
  have neM : ∀ z, s'.isFree z = false → z ≠ m := by
    rintro z used rfl
    rw [frees.free] at used
    exact absurd used Bool.noConfusion
  refine ⟨⟨frees.inv, fun p => ?_, fun z hz usedZ => ?_⟩, fun z hz => ⟨hz, (frees.keeps z hz).size⟩,
    fun q hq _ i lt => ?_⟩
  · rw [Finset.mem_erase, good.live]
    constructor
    · rintro ⟨ne, z, hz, usedZ, rfl⟩
      exact ⟨z, hz, (frees.rest z hz fun e => ne (by rw [e])).trans usedZ, rfl⟩
    · rintro ⟨z, hz, usedZ, rfl⟩
      have ne := neM z usedZ
      exact ⟨fun same => ne (ptrFromMeta_inj same), z, hz, (frees.rest z hz ne).symm.trans usedZ, rfl⟩
  · have old := good.granted z hz ((frees.rest z hz (neM z usedZ)).symm.trans usedZ)
    rw [(frees.keeps z hz).size]
    exact old
  · obtain ⟨z, hz, -, rfl⟩ := (good.live q).mp hq
    rw [metaFromPtr_ptrFromMeta] at lt
    exact (frees.keeps z hz).bytes i lt

/-- A byte the client writes. -/
theorem write (good : Good w l) (b : UInt8)
    (arg : ∃ p ∈ w.live, p ≤ a ∧ a < p + w.st.size (metaFromPtr p)) :
    Good { w with st := { w.st with mem := w.st.mem.store8 a b } } l ∧
      Leaves w { w with st := { w.st with mem := w.st.mem.store8 a b } } (.write a b) l l := by
  obtain ⟨p, hp, low, high⟩ := arg
  obtain ⟨x, hx, -, rfl⟩ := (good.live p).mp hp
  rw [metaFromPtr_ptrFromMeta] at high
  obtain ⟨inv, hdr, -⟩ := good.inv.write (n := w.st.size x) hx (le_refl _)
    (Mem.touches_store8 (m := w.st.mem) (b := b) (r := (ptrFromMeta x, w.st.size x)) rfl low high)
  refine ⟨⟨inv, fun p => ?_, fun z hz used => ?_⟩, fun z hz => ⟨hz, ?_⟩, fun q _ off i lt => ?_⟩
  · rw [good.live]
    refine exists_congr fun z => and_congr_right fun hz => ?_
    simp only [State.isFree, hdr z hz]
  · simp only [State.isFree, State.size, hdr z hz] at used ⊢
    exact good.granted z hz used
  · rw [State.size, hdr z hz]
  · refine if_neg fun e => off ⟨by omega, by omega⟩

theorem smalloc (good : Good w l) (sound : Sound os w.st) (size : Nat) : Executed os (.smalloc size) w l := by
  by_cases bad : Refused size
  · refine good.executed_nothing ?_
    simp only [FirstFit.exec, smalloc_of_refused bad]
    rfl
  · obtain ⟨r, run, served⟩ := good.inv.smalloc sound bad
    rcases served.grants good.inv with rfl | ⟨x, l', e, grants⟩
    · refine good.executed_nothing ?_
      simp only [FirstFit.exec, run]
      rfl
    · obtain ⟨good', leaves⟩ := good.grant (not_refused.mp bad).1 grants (.smalloc size)
      refine ⟨ptrFromMeta x, _, l', ?_, good', leaves, trivial⟩
      simp only [FirstFit.exec, run, ← e]
      rfl

theorem scalloc (good : Good w l) (sound : Sound os w.st) (num size : Nat) : Executed os (.scalloc num size) w l := by
  by_cases zero : num = 0 ∨ size = 0
  · refine good.executed_nothing ?_
    simp only [FirstFit.exec, FirstFit.scalloc, if_pos zero]
    rfl
  have eq := scalloc_eq os (s := w.st) num size (not_or.mp zero)
  by_cases bad : Refused (product num size)
  · refine good.executed_nothing ?_
    simp only [FirstFit.exec, eq, smalloc_of_refused bad]
    rfl
  · obtain ⟨⟨q, s'⟩, run, served⟩ := good.inv.smalloc sound bad
    rcases served.grants good.inv with e | ⟨x, l', e, grants⟩
    · obtain ⟨rfl, rfl⟩ := Prod.mk.inj e
      refine good.executed_nothing ?_
      simp only [FirstFit.exec, eq, run]
      rfl
    · obtain rfl : q = ptrFromMeta x := e
      obtain ⟨good', leaves⟩ := good.grant (not_refused.mp bad).1 grants.clear (.scalloc num size)
      refine ⟨ptrFromMeta x, _, l', ?_, good', leaves, trivial⟩
      simp only [FirstFit.exec, eq, run, Option.map_some, if_neg (ptrFromMeta_ne_zero x)]
      rfl

theorem sfree (good : Good w l) (arg : p = 0 ∨ p ∈ w.live) : Executed os (.sfree p) w l := by
  by_cases null : p = 0
  · have notLive : p ∉ w.live := fun hp => good.ne_zero hp null
    refine good.executed_nothing ?_
    simp only [FirstFit.exec, FirstFit.sfree, if_pos null, Finset.erase_eq_of_notMem notLive]
  · obtain ⟨m, hm, used, rfl⟩ := (good.live p).mp (arg.resolve_left null)
    obtain ⟨good', leaves⟩ := good.free (good.inv.sfree hm used)
    exact ⟨0, _, l, rfl, good', leaves, trivial⟩

theorem srealloc (good : Good w l) (sound : Sound os w.st) (size : Nat) (arg : p = 0 ∨ p ∈ w.live) :
    Executed os (.srealloc p size) w l := by
  by_cases bad : Refused size
  · have bad' : size = 0 ∨ exceedsMax size = true := bad
    refine good.executed_nothing ?_
    simp only [FirstFit.exec, FirstFit.srealloc, if_pos bad']
    rfl
  have ok : ¬(size = 0 ∨ exceedsMax size = true) := bad
  by_cases null : p = 0
  · have notLive : p ∉ w.live := fun hp => good.ne_zero hp null
    obtain ⟨q, w', l', run, good', leaves, -⟩ := good.smalloc sound size
    refine ⟨q, w', l', ?_, good', ⟨leaves.sizes, fun q hq _ => leaves.bytes q hq id⟩, fun pos => absurd null pos⟩
    simp only [FirstFit.exec, FirstFit.srealloc, if_neg ok, if_pos null, Finset.erase_eq_of_notMem notLive] at run ⊢
    exact run
  · obtain ⟨m, hm, used, rfl⟩ := (good.live p).mp (arg.resolve_left null)
    obtain ⟨r, run, re⟩ := good.inv.srealloc sound bad hm used
    cases re with
    | stays fits =>
      have good' : Good (w.grant w.st (w.live.erase (ptrFromMeta m)) (ptrFromMeta m) size) l := by
        refine good.handOut (Finset.erase_subset _ _) good.inv (fun z => ?_) (fun _ _ => rfl) (not_refused.mp bad).1 fits
        rw [Finset.mem_erase]
        constructor
        · rintro ⟨hz, usedZ⟩
          by_cases e : z = m
          · exact .inl e
          · exact .inr ⟨fun same => e (ptrFromMeta_inj same), (good.live _).mpr ⟨z, hz, usedZ, rfl⟩⟩
        · rintro (rfl | ⟨-, mem⟩)
          · exact ⟨hm, used⟩
          · exact good.of_live mem
      have st : (w.grant w.st (w.live.erase (ptrFromMeta m)) (ptrFromMeta m) size).st = w.st := by
        rw [World.grant, if_neg (ptrFromMeta_ne_zero m)]
      refine ⟨ptrFromMeta m, _, l, ?_, good', ⟨fun z hz => ⟨hz, by rw [st]⟩, fun q _ _ i _ => by rw [st]⟩, fun _ _ i _ => ?_⟩
      · simp only [FirstFit.exec, run]
        rfl
      · rw [st]
    | fails =>
      refine good.executed_nothing ?_
      simp only [FirstFit.exec, run]
      rfl
    | moves x s' l' short moves =>
      obtain ⟨good', leaves⟩ := good.move (not_refused.mp bad).1 moves
      refine ⟨ptrFromMeta x, _, l', ?_, good', leaves, fun _ _ i lt => ?_⟩
      · simp only [FirstFit.exec, run]
        rfl
      · rw [metaFromPtr_ptrFromMeta] at lt
        rw [World.grant, if_neg (ptrFromMeta_ne_zero x)]
        exact moves.copied i lt

/-- **Every permitted call returns** and leaves the world in order. -/
theorem exec (good : Good w l) (ok : Permitted w os call) : Executed os call w l := by
  cases call with
  | smalloc size => exact good.smalloc ok.sound size
  | scalloc num size => exact good.scalloc ok.sound num size
  | sfree p => exact good.sfree ok.args
  | srealloc p size => exact good.srealloc ok.sound size ok.args.2
  | write a b =>
    obtain ⟨good', leaves⟩ := good.write b ok.args
    exact ⟨0, _, l, rfl, good', leaves, trivial⟩

/-- Along a run blocks only get added. -/
theorem run (good : Good w l) (run : Run w w') :
    ∃ l', Good w' l' ∧ ∀ x ∈ l, x ∈ l' ∧ w'.st.size x = w.st.size x := by
  induction run with
  | refl => exact ⟨l, good, fun x hx => ⟨hx, rfl⟩⟩
  | step _ ok exec ih =>
    obtain ⟨l₁, good₁, same₁⟩ := ih
    obtain ⟨p', w₂, l₂, exec', good₂, leaves, -⟩ := good₁.exec ok
    obtain ⟨-, rfl⟩ := Prod.mk.inj (Option.some_inj.mp (exec.symm.trans exec'))
    refine ⟨l₂, good₂, fun x hx => ?_⟩
    obtain ⟨mem₁, size₁⟩ := same₁ x hx
    obtain ⟨mem₂, size₂⟩ := leaves.sizes x mem₁
    exact ⟨mem₂, size₂.trans size₁⟩

end Good

/-! ## Statistics -/

theorem sumWhere_eq {mem : Mem} (pick : MallocMetadata → Bool) (weight : MallocMetadata → Nat) (acc : Nat)
    (chain : Chain (fun x => (mem.header x).next) 0 p l)
    (small : acc + (l.map fun x => if pick (mem.header x) then weight (mem.header x) else 0).sum < 2 ^ 64) :
    sumWhere mem pick weight p acc =
      some (acc + (l.map fun x => if pick (mem.header x) then weight (mem.header x) else 0).sum) := by
  induction l generalizing p acc with
  | nil =>
    obtain rfl : p = 0 := chain
    rw [sumWhere, if_pos rfl]
    rfl
  | cons x l ih =>
    obtain ⟨rfl, pos, rest⟩ := chain
    simp only [List.map_cons, List.sum_cons] at small ⊢
    rw [sumWhere, if_neg pos]
    by_cases picked : pick (mem.header p) = true
    · simp only [if_pos picked] at small ⊢
      rw [Nat.mod_eq_of_lt (by omega), ih _ rest (by omega), Nat.add_assoc]
    · simp only [if_neg picked] at small ⊢
      rw [ih _ rest (by omega), Nat.zero_add]

/-- Allocated and metadata bytes together are what `sbrk` handed out. -/
theorem Inv.bytes (inv : Inv s l) : ∃ allocated metaData, numAllocatedBytes s = some allocated ∧
    numMetaDataBytes s = some metaData ∧ allocated + metaData = (s.obtained.map Prod.snd).sum := by
  have word : metaSize = 32 := rfl
  have total : (s.obtained.map Prod.snd).sum = (l.map fun x => metaSize + s.size x).sum := by
    rw [inv.obtained, List.map_map]
    rfl
  have parts := sum_add_meta s.size l
  have bound : (l.map fun x => metaSize + s.size x).sum ≤ 2 ^ 64 - 1 := by
    refine sum_le_of_apart inv.nodup (fun x hx y hy ne => ?_) fun x hx => ?_
    · have := inv.apart hx hy ne
      omega
    · have := inv.lt x hx
      omega
  have ones : (l.map fun _ => 1).sum = l.length := by simp
  have short : l.length ≤ l.length * metaSize := Nat.le_mul_of_pos_right _ (by decide)
  have allocated : numAllocatedBytes s = some (l.map s.size).sum := by
    have := sumWhere_eq (fun _ => true) MallocMetadata.size 0 inv.dll.chain (by
      simp only [if_true, Nat.zero_add]
      change (l.map s.size).sum < _
      omega)
    simpa only [numAllocatedBytes, if_true, Nat.zero_add] using this
  have blocks : numAllocatedBlocks s = some l.length := by
    have := sumWhere_eq (fun _ => true) (fun _ => 1) 0 inv.dll.chain (by
      simp only [if_true, Nat.zero_add, ones]
      omega)
    simpa only [numAllocatedBlocks, if_true, Nat.zero_add, ones] using this
  refine ⟨_, l.length * metaSize, allocated, ?_, by rw [total, parts]⟩
  unfold numMetaDataBytes
  rw [blocks]
  change some _ = _
  rw [Nat.mod_eq_of_lt (by omega)]

/-! ## Correctness -/

/-- The block `x` covers the address `p`. -/
def Covers (s : State) (l : List Nat) (p x : Nat) : Prop := x ∈ l ∧ x ≤ p ∧ p < x + metaSize + s.size x

/-- A well-formed world, whose list of blocks is `l`. -/
structure WellFormed (w : World) (l : List Nat) : Prop where
  linked : Dll w.st.next w.st.prev 0 0 w.st.gHead l
  ascending : l.Pairwise (· < ·)
  apart : l.Pairwise fun x y => x + metaSize + w.st.size x ≤ y
  owner : ∀ p ∈ w.live, ∃ x, Covers w.st l p x ∧ (∀ y, Covers w.st l p y → y = x) ∧ p = ptrFromMeta x ∧
    w.st.isFree x = false ∧ w.granted p ≤ w.st.size x
  disjoint : ∀ p ∈ w.live, ∀ q ∈ w.live, p ≠ q →
    p + w.st.size (metaFromPtr p) ≤ q ∨ q + w.st.size (metaFromPtr q) ≤ p
  bytes : ∃ allocated metaData, numAllocatedBytes w.st = some allocated ∧ numMetaDataBytes w.st = some metaData ∧
    allocated + metaData = (w.st.obtained.map Prod.snd).sum

theorem Good.wellFormed (good : Good w l) : WellFormed w l where
  linked := good.inv.dll
  ascending := good.inv.ascending
  apart := good.inv.sorted
  owner p hp := by
    obtain ⟨x, hx, used, rfl⟩ := (good.live p).mp hp
    obtain ⟨pos, le⟩ := good.granted x hx used
    refine ⟨x, ⟨hx, Nat.le_add_right x metaSize, ?_⟩, ?_, rfl, used, le⟩
    · unfold ptrFromMeta
      omega
    · rintro y ⟨hy, low, high⟩
      by_contra ne
      have := good.inv.apart hx hy (Ne.symm ne)
      unfold ptrFromMeta at low high
      omega
  disjoint p hp q hq ne := by
    obtain ⟨x, hx, -, rfl⟩ := (good.live p).mp hp
    obtain ⟨y, hy, -, rfl⟩ := (good.live q).mp hq
    have := good.inv.apart hx hy fun e => ne (by rw [e])
    rw [metaFromPtr_ptrFromMeta, metaFromPtr_ptrFromMeta]
    unfold ptrFromMeta
    omega
  bytes := good.inv.bytes

/-- **First-fit correctness.** In every reachable world the list is well linked, ascending
and free of overlap, every live pointer belongs to one used block that is as large as was
granted, and the byte counters add up to what `sbrk` handed out; `smalloc` takes the lowest
free block that is large enough and calls `sbrk` only when there is none; every call
returns, leaves the other live blocks alone, and `srealloc` keeps the old bytes; and
whatever the run goes on to do, no block changes its size. -/
theorem first_fit_correct (reach : Reachable w) : ∃ l, WellFormed w l ∧
    (∀ os size, Sound os w.st → ¬Refused size → ∃ r, smalloc os size w.st = some r ∧ Served os size w.st l r) ∧
    (∀ os call, Permitted w os call → ∃ p w' l', exec os call w = some (p, w') ∧ WellFormed w' l' ∧
      Leaves w w' call l l' ∧ Copies w w' p call) ∧
    ∀ w', Run w w' → ∃ l', WellFormed w' l' ∧ ∀ x ∈ l, x ∈ l' ∧ w'.st.size x = w.st.size x := by
  obtain ⟨mem, start⟩ := reach
  obtain ⟨l, good, -⟩ := (Good.start mem).run start
  refine ⟨l, good.wellFormed, fun os size sound ok => good.inv.smalloc sound ok, fun os call ok => ?_, fun w' run => ?_⟩
  · obtain ⟨p, w', l', run, good', leaves, copies⟩ := good.exec ok
    exact ⟨p, w', l', run, good'.wellFormed, leaves, copies⟩
  · obtain ⟨l', good', same⟩ := good.run run
    exact ⟨l', good'.wellFormed, same⟩

/-- An operating system that puts one block at 4096. -/
def sampleOs : Os where
  sbrk n := if n < 2 ^ 32 then some 4096 else none
  mmap _ _ := none
  pageSize := 4096

theorem sampleOs_sound (mem : Mem) : Sound sampleOs (State.start mem) := by
  intro n raw answer
  simp only [sampleOs] at answer
  split_ifs at answer with lt
  obtain rfl := Option.some_inj.mp answer
  exact ⟨by decide, by omega, fun r hr => absurd hr List.not_mem_nil⟩

theorem first_fit_correct_first : ∃ w, Reachable w ∧ w.live = {4128} ∧ ∃ l, WellFormed w l ∧
    ∃ a b, numAllocatedBytes w.st = some a ∧ numMetaDataBytes w.st = some b ∧
      a + b = (w.st.obtained.map Prod.snd).sum := by
  have sound := sampleOs_sound fun _ => 0
  obtain ⟨r, run, served⟩ := (Inv.start fun _ => 0).smalloc sound (by decide : ¬Refused 100)
  have exec : exec sampleOs (.smalloc 100) (World.start fun _ => 0) =
      some (r.1, (World.start fun _ => 0).grant r.2 ∅ r.1 100) := by
    simp only [FirstFit.exec, World.start, run]
    rfl
  have reach : Reachable ((World.start fun _ => 0).grant r.2 ∅ r.1 100) :=
    ⟨fun _ => 0, Run.refl.step ⟨sound, by decide⟩ exec⟩
  obtain ⟨l, wf, -⟩ := first_fit_correct reach
  refine ⟨_, reach, ?_, l, wf, wf.bytes⟩
  cases served with
  | reused x mem => exact absurd mem List.not_mem_nil
  | failed noFit sbrk => exact absurd sbrk (by decide)
  | appended raw s' noFit sbrk =>
    obtain rfl : 4096 = raw := Option.some_inj.mp sbrk
    rfl

end OsProjects.Malloc.FirstFit
