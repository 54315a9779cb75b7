import OsProjects.Kernel.Branch
import OsProjects.Lib.Runs

/-!
# The tree in a run

The tree of processes while they come and go: from every process the parents lead up to the
idle task, nobody is above itself, and the idle task is out of reach of
`sys_flip_ban_branch`. The byte of a process has no bits but the three of `ban_char_to_mask`.
-/

namespace OsProjects.Kernel

open Ascent Relation

variable {ι : Type*} [DecidableEq ι] {tasks tasks' : Tasks ι} {act : Act ι} {p q r c a : ι}

/-! ## Parents -/

omit [DecidableEq ι] in
theorem ParentOf.alive (parent : ParentOf tasks c p) : (tasks c).isSome := by
  obtain ⟨t, found, -⟩ := Option.bind_eq_some_iff.mp parent
  rw [found]
  rfl

omit [DecidableEq ι] in
/-- What can be reached from a process is one. -/
theorem Rooted.linked (rooted : Rooted tasks) : Linked tasks := by
  intro c p parent
  obtain ⟨r, reach, root⟩ := rooted c parent.alive
  rcases ReflTransGen.cases_head_iff.mp reach with rfl | ⟨q, parent', reach⟩
  · obtain rfl := parentOf_functional tasks _ _ _ parent root
    exact root.alive
  · obtain rfl := parentOf_functional tasks _ _ _ parent parent'
    rcases ReflTransGen.cases_head_iff.mp reach with rfl | ⟨_, parent'', _⟩
    · exact root.alive
    · exact parent''.alive

omit [DecidableEq ι] in
/-- **Nobody is above itself**, except at the top. -/
theorem Rooted.acyclic (rooted : Rooted tasks) (above : Ancestor tasks p p) : ParentOf tasks p p := by
  obtain ⟨q, parent, -⟩ := TransGen.head'_iff.mp above
  obtain ⟨l, line⟩ := rooted.exists_line parent.alive
  by_contra leads
  have onLine : p ∈ l := (line.mem_iff (parentOf_functional tasks)).mpr ⟨above, leads⟩
  exact line.notMem (parentOf_functional tasks) onLine

omit [DecidableEq ι] in
/-- The tree stays. -/
theorem Rooted.congr (rooted : Rooted tasks) (parents : ∀ q, (tasks' q).bind Task.realParent = (tasks q).bind Task.realParent)
    (alive : ∀ q, (tasks' q).isSome → (tasks q).isSome) : Rooted tasks' := by
  intro p found
  rw [parentOf_congr parents]
  exact rooted p (alive p found)

/-! ## `fork` -/

theorem parentOf_fork_of_ne (ne : q ≠ c) : ParentOf (fork p c tasks) q r ↔ ParentOf tasks q r := by
  unfold ParentOf fork
  rw [Function.update_of_ne ne]

theorem parentOf_fork_self (alive : (tasks p).isSome) : ParentOf (fork p c tasks) c r ↔ r = p := by
  obtain ⟨t, found⟩ := Option.isSome_iff_exists.mp alive
  unfold ParentOf fork
  rw [Function.update_self, found, Option.map_some, Option.bind_some, Option.some_inj]
  exact eq_comm

/-- A new process hangs below its parent. -/
theorem Rooted.fork (rooted : Rooted tasks) (alive : (tasks p).isSome) (fresh : tasks c = none) :
    Rooted (Kernel.fork p c tasks) := by
  have old : ∀ {x}, (tasks x).isSome → x ≠ c := by
    rintro x found rfl
    rw [fresh] at found
    cases found
  have lift : ∀ {x y}, ReflTransGen (ParentOf tasks) x y → ReflTransGen (ParentOf (Kernel.fork p c tasks)) x y := by
    intro x y reach
    refine ReflTransGen.mono ?_ _ _ reach
    intro u v parent
    exact (parentOf_fork_of_ne (old parent.alive)).mpr parent
  intro q found
  by_cases new : q = c
  · obtain ⟨r, reach, root⟩ := rooted p alive
    refine ⟨r, ?_, (parentOf_fork_of_ne (old root.alive)).mpr root⟩
    rw [new]
    exact .head ((parentOf_fork_self alive).mpr rfl) (lift reach)
  · have before : (tasks q).isSome := by
      unfold Kernel.fork at found
      rwa [Function.update_of_ne new] at found
    obtain ⟨r, reach, root⟩ := rooted q before
    exact ⟨r, lift reach, (parentOf_fork_of_ne (old root.alive)).mpr root⟩

/-! ## `exit` -/

/-- Who stays keeps its parent, or goes to `a` when it was a child of `p`. -/
theorem parentOf_exit : ParentOf (exit p a tasks) q r ↔
    q ≠ p ∧ (ParentOf tasks q p ∧ r = a ∨ ParentOf tasks q r ∧ r ≠ p) := by
  unfold ParentOf exit
  by_cases gone : q = p
  · rw [if_pos gone]
    simp [gone]
  rw [if_neg gone]
  cases found : tasks q with
  | none => simp
  | some t =>
    simp only [Option.map_some, Option.bind_some, ne_eq, gone, not_false_eq_true, true_and]
    split_ifs with orphan
    · simp only [orphan, Option.some_inj, true_and]
      constructor
      · exact fun e => .inl e.symm
      · rintro (e | ⟨e, ne⟩)
        · exact e.symm
        · exact absurd e.symm ne
    · simp only [orphan, false_and, false_or]
      constructor
      · refine fun e => ⟨e, ?_⟩
        rintro rfl
        exact orphan e
      · exact fun parent => parent.1

theorem Rooted.exit (rooted : Rooted tasks) (ancestor : Ancestor tasks p a) (other : a ≠ p) :
    Rooted (Kernel.exit p a tasks) := by
  have functional := parentOf_functional tasks
  -- the one that exits is not at the top, as it has another above it
  have notTop : ¬ParentOf tasks p p := by
    intro top
    exact other (eq_of_fixed functional top ancestor.to_reflTransGen)
  intro q found
  have stays : q ≠ p := by
    rintro rfl
    unfold Kernel.exit at found
    rw [if_pos rfl] at found
    cases found
  have before : (tasks q).isSome := by
    unfold Kernel.exit at found
    rwa [if_neg stays, Option.isSome_map] at found
  obtain ⟨r, reach, root⟩ := rooted q before
  have rootStays : r ≠ p := by
    rintro rfl
    exact notTop root
  refine ⟨r, ?_, parentOf_exit.mpr ⟨rootStays, .inr ⟨root, rootStays⟩⟩⟩
  -- on the way up, everybody who stays still reaches the top
  suffices way : ∀ y, ReflTransGen (ParentOf tasks) q y → y ≠ p → ReflTransGen (ParentOf (Kernel.exit p a tasks)) y r from
    way q .refl stays
  clear found stays before
  induction reach using ReflTransGen.head_induction_on with
  | refl =>
    intro y above _
    rw [eq_of_fixed functional root above]
  | @head x y parent _ ih =>
    intro z above ne
    rcases ReflTransGen.cases_head_iff.mp above with rfl | ⟨y', parent', above⟩
    · by_cases orphan : y = p
      · subst orphan
        apply ReflTransGen.head (parentOf_exit.mpr ⟨ne, .inl ⟨parent, rfl⟩⟩)
        exact ih a ancestor.to_reflTransGen other
      · apply ReflTransGen.head (parentOf_exit.mpr ⟨ne, .inr ⟨parent, orphan⟩⟩)
        exact ih y .refl orphan
    · obtain rfl := functional _ _ _ parent parent'
      exact ih z above ne

/-! ## The other calls -/

theorem sysSetBan_parents (root : Bool) (g k m : Int) (q : ι) :
    ((sysSetBan p root g k m tasks).2 q).bind Task.realParent = (tasks q).bind Task.realParent := by
  unfold sysSetBan
  split_ifs
  · rfl
  · rfl
  · by_cases e : q = p
    · subst e
      simp only [Function.update_self]
      cases tasks q <;> rfl
    · simp only [Function.update_of_ne e]

theorem isSome_sysSetBan (root : Bool) (g k m : Int) (q : ι) :
    ((sysSetBan p root g k m tasks).2 q).isSome = (tasks q).isSome := by
  unfold sysSetBan
  split_ifs
  · rfl
  · rfl
  · by_cases e : q = p
    · subst e
      simp only [Function.update_self, Option.isSome_map]
    · simp only [Function.update_of_ne e]

theorem sysFlipBanBranch_parents (height : Int) (ban : Char) (q : ι) :
    ((sysFlipBanBranch p height ban tasks).2 q).bind Task.realParent = (tasks q).bind Task.realParent := by
  unfold sysFlipBanBranch
  split_ifs
  · rfl
  · cases banCharToMask ban with
    | none => rfl
    | some mask =>
      simp only
      split_ifs
      · rfl
      · exact flipLoop_parents _ _ _ _ _ q

@[simp] theorem isSome_flipped (mask : BitVec 8) (visited : List ι) (q : ι) :
    (flipped mask visited tasks q).isSome = (tasks q).isSome := by
  unfold flipped
  split_ifs
  · exact Option.isSome_map
  · rfl

/-- **The tree of any process stays rooted.** -/
theorem Rooted.step (rooted : Rooted tasks) (step : Step tasks act tasks') : Rooted tasks' := by
  cases step with
  | fork alive fresh => exact rooted.fork alive fresh
  | exit alive ancestor other => exact rooted.exit ancestor other
  | setBan root g k m alive =>
    apply rooted.congr (sysSetBan_parents root g k m)
    intro q found
    rwa [isSome_sysSetBan] at found
  | getBan ban alive => exact rooted
  | checkBan pid ban alive => exact rooted
  | flip height ban alive =>
    obtain ⟨l, line⟩ := rooted.exists_line alive
    apply rooted.congr (sysFlipBanBranch_parents height ban)
    intro q found
    rwa [(sysFlipBanBranch_eq line height ban).1, isSome_flipped] at found

/-! ## From the start -/

/-- The idle task and `init`, with the bytes zeroed. -/
def boot : Tasks Nat
  | 0 => some ⟨0, some 0⟩
  | 1 => some ⟨0, some 0⟩
  | _ => none

/-- The idle task makes no system call, and neither it nor `init` exits. -/
def Act.Possible : Act Nat → Prop
  | .exit p _ => p ≠ 0 ∧ p ≠ 1
  | .setBan p .. => p ≠ 0
  | _ => True

/-- A step of the running system. -/
def SystemStep (tasks tasks' : Tasks Nat) : Prop := ∃ act : Act Nat, act.Possible ∧ Step tasks act tasks'

/-- What holds of the tasks of a running system. -/
structure KernelState (tasks : Tasks Nat) : Prop where
  rooted : Rooted tasks
  top : ∀ r, ParentOf tasks r r → r = 0
  idle : ParentOf tasks 0 0
  init : ParentOf tasks 1 0
  idleBans : bansOf tasks 0 = 0
  bits : ∀ p, bansOf tasks p &&& 0xF8 = 0

theorem bansOf_fork (alive : (tasks p).isSome) :
    bansOf (fork p c tasks) q = if q = c then bansOf tasks p else bansOf tasks q := by
  obtain ⟨t, found⟩ := Option.isSome_iff_exists.mp alive
  unfold bansOf fork
  by_cases new : q = c
  · subst new
    rw [Function.update_self, found, if_pos rfl]
    rfl
  · rw [Function.update_of_ne new, if_neg new]

theorem bansOf_exit : bansOf (exit p a tasks) q = if q = p then 0 else bansOf tasks q := by
  unfold bansOf exit
  split_ifs
  · rfl
  · cases tasks q with
    | none => rfl
    | some t =>
      simp only [Option.map_some, Option.getD_some]
      split_ifs <;> rfl

/-- The byte that a successful `sys_set_ban` stores. -/
def givenBans (banGetpid banPipe banKill : Int) : BitVec 8 :=
  (if banGetpid ≠ 0 then 0x01 else 0) ||| (if banPipe ≠ 0 then 0x02 else 0) ||| (if banKill ≠ 0 then 0x04 else 0)

theorem sysSetBan_refused {root : Bool} {g k m : Int} (failed : (sysSetBan p root g k m tasks).1 ≠ 0) :
    (sysSetBan p root g k m tasks).2 = tasks := by
  unfold sysSetBan at failed ⊢
  split_ifs at failed ⊢
  · rfl
  · rfl
  · exact absurd rfl failed

theorem sysSetBan_granted {root : Bool} {g k m : Int} (alive : (tasks p).isSome) (done : (sysSetBan p root g k m tasks).1 = 0)
    (q : ι) : bansOf (sysSetBan p root g k m tasks).2 q = if q = p then givenBans g k m else bansOf tasks q := by
  obtain ⟨t, found⟩ := Option.isSome_iff_exists.mp alive
  have valid : ¬(g < 0 ∨ k < 0 ∨ m < 0) := by
    intro invalid
    simp [sysSetBan, invalid, einval] at done
  have asRoot : root = true := by
    cases root with
    | true => rfl
    | false =>
      rw [sysSetBan, if_neg valid] at done
      simp [eperm] at done
  -- a value above 1 counts as 1
  have clamped : ∀ x : Int, (if x > 1 then 1 else x) = 0 ↔ x = 0 := by
    intro x
    split_ifs with large <;> omega
  rw [sysSetBan, if_neg valid, asRoot]
  by_cases own : q = p
  · subst own
    simp [bansOf, found, clamped, givenBans]
  · simp [bansOf, own]

theorem givenBans_bits (g k m : Int) : givenBans g k m &&& 0xF8 = 0 := by
  unfold givenBans
  split_ifs <;> decide

theorem flip_bits (ban : Char) {b : BitVec 8} (clean : b &&& 0xF8 = 0) : (b ^^^ (banCharToMask ban).getD 0) &&& 0xF8 = 0 := by
  have bits : ∀ mask ∈ [(0 : BitVec 8), 1, 2, 4], ∀ b : BitVec 8, b &&& 0xF8 = 0 → (b ^^^ mask) &&& 0xF8 = 0 := by decide
  apply bits _ _ b clean
  unfold banCharToMask
  split_ifs <;> decide

namespace KernelState

variable {tasks tasks' : Tasks Nat} {p a c : Nat}

theorem of_boot : KernelState boot where
  rooted p alive := by
    match p with
    | 0 => exact ⟨0, .refl, rfl⟩
    | 1 => exact ⟨0, .single rfl, rfl⟩
  top r root := by
    match r with
    | 0 => rfl
    | 1 => exact absurd (Option.some_inj.mp root) (by decide)
  idle := rfl
  init := rfl
  idleBans := rfl
  bits p := by
    match p with
    | 0 => decide
    | 1 => decide
    | _ + 2 => simp [bansOf, boot]

theorem fork (h : KernelState tasks) (alive : (tasks p).isSome) (fresh : tasks c = none) : KernelState (fork p c tasks) := by
  have old : ∀ {x}, (tasks x).isSome → x ≠ c := by
    rintro x found rfl
    rw [fresh] at found
    cases found
  constructor
  · exact h.rooted.fork alive fresh
  · intro r root
    by_cases new : r = c
    · subst new
      exact absurd ((parentOf_fork_self alive).mp root).symm (old alive)
    · exact h.top r ((parentOf_fork_of_ne new).mp root)
  · exact (parentOf_fork_of_ne (old h.idle.alive)).mpr h.idle
  · exact (parentOf_fork_of_ne (old h.init.alive)).mpr h.init
  · rw [bansOf_fork alive, if_neg (old h.idle.alive)]
    exact h.idleBans
  · intro q
    rw [bansOf_fork alive]
    split_ifs
    · exact h.bits p
    · exact h.bits q

theorem exit (h : KernelState tasks) (ancestor : Ancestor tasks p a) (other : a ≠ p) (possible : p ≠ 0 ∧ p ≠ 1) :
    KernelState (exit p a tasks) := by
  constructor
  · exact h.rooted.exit ancestor other
  · intro r root
    obtain ⟨-, ⟨child, rfl⟩ | ⟨root, -⟩⟩ := parentOf_exit.mp root
    · -- a child of `p` above `p` would be above itself
      exact h.top r (h.rooted.acyclic (.head child ancestor))
    · exact h.top r root
  · exact parentOf_exit.mpr ⟨possible.1.symm, .inr ⟨h.idle, possible.1.symm⟩⟩
  · exact parentOf_exit.mpr ⟨possible.2.symm, .inr ⟨h.init, possible.1.symm⟩⟩
  · rw [bansOf_exit, if_neg possible.1.symm]
    exact h.idleBans
  · intro q
    rw [bansOf_exit]
    split_ifs
    · decide
    · exact h.bits q

theorem setBan (h : KernelState tasks) (root : Bool) (g k m : Int) (alive : (tasks p).isSome) (possible : p ≠ 0) :
    KernelState (sysSetBan p root g k m tasks).2 := by
  have parents : ParentOf (sysSetBan p root g k m tasks).2 = ParentOf tasks := parentOf_congr (sysSetBan_parents root g k m)
  constructor
  · exact h.rooted.step (.setBan root g k m alive)
  · rw [parents]
    exact h.top
  · rw [parents]
    exact h.idle
  · rw [parents]
    exact h.init
  · by_cases done : (sysSetBan p root g k m tasks).1 = 0
    · rw [sysSetBan_granted alive done, if_neg possible.symm]
      exact h.idleBans
    · rw [sysSetBan_refused done]
      exact h.idleBans
  · intro q
    by_cases done : (sysSetBan p root g k m tasks).1 = 0
    · rw [sysSetBan_granted alive done]
      split_ifs
      · exact givenBans_bits g k m
      · exact h.bits q
    · rw [sysSetBan_refused done]
      exact h.bits q

theorem flip (h : KernelState tasks) (height : Int) (ban : Char) (alive : (tasks p).isSome) :
    KernelState (sysFlipBanBranch p height ban tasks).2 := by
  obtain ⟨l, line⟩ := h.rooted.exists_line alive
  obtain ⟨after, -⟩ := sysFlipBanBranch_eq line height ban
  have parents : ParentOf (sysFlipBanBranch p height ban tasks).2 = ParentOf tasks :=
    parentOf_congr (sysFlipBanBranch_parents height ban)
  constructor
  · exact h.rooted.step (.flip height ban alive)
  · rw [parents]
    exact h.top
  · rw [parents]
    exact h.idle
  · rw [parents]
    exact h.init
  · -- the idle task is its own parent, and so on no line
    have off : 0 ∉ reached l height ban (bansOf tasks p) := by
      intro mem
      exact ((line.mem_iff (parentOf_functional tasks)).mp (mem_of_reached mem)).2 h.idle
    rw [after, bansOf_flipped off]
    exact h.idleBans
  · intro q
    rw [after]
    by_cases mem : q ∈ reached l height ban (bansOf tasks p)
    · rw [bansOf_flipped_mem mem (alive_of_mem line (mem_of_reached mem))]
      exact flip_bits ban (h.bits q)
    · rw [bansOf_flipped mem]
      exact h.bits q

theorem step (h : KernelState tasks) (step : SystemStep tasks tasks') : KernelState tasks' := by
  obtain ⟨act, possible, step⟩ := step
  cases step with
  | fork alive fresh => exact h.fork alive fresh
  | exit alive ancestor other => exact h.exit ancestor other possible
  | setBan root g k m alive => exact h.setBan root g k m alive possible
  | getBan ban alive => exact h
  | checkBan pid ban alive => exact h
  | flip height ban alive => exact h.flip height ban alive

/-- Everybody else is below the idle task. -/
theorem kernelTree (h : KernelState tasks) : KernelTree tasks where
  idle := h.idle
  init := h.init
  descends p alive notIdle _ := by
    obtain ⟨r, reach, root⟩ := h.rooted p alive
    obtain rfl := h.top r root
    rcases ReflTransGen.cases_head_iff.mp reach with same | ⟨q, parent, reach⟩
    · exact absurd same notIdle
    · exact .inr (.head' parent reach)

end KernelState

/-- **The tasks of a running system**, after any run from the start: the tree is a `KernelTree` in which every parent is a process
and only the idle task is above itself, no byte has a bit besides the three bans, and nothing bans the idle task. -/
theorem kernelState_reachable {tasks : Tasks Nat} (run : ReflTransGen SystemStep boot tasks) :
    KernelTree tasks ∧ Linked tasks ∧ (∀ p, Ancestor tasks p p → p = 0) ∧
      (∀ p, bansOf tasks p &&& 0xF8 = 0) ∧ bansOf tasks 0 = 0 := by
  have state : KernelState tasks := Runs.keeps (fun _ _ h step => h.step step) run .of_boot
  refine ⟨state.kernelTree, state.rooted.linked, ?_, state.bits, state.idleBans⟩
  intro p above
  exact state.top p (state.rooted.acyclic above)

/-- `init` forks, the child bans `init` from `pipe`, and exits. -/
theorem kernelState_reachable_sample : ∃ tasks, ReflTransGen SystemStep boot tasks ∧ bansOf tasks 1 = 0x02 ∧
    KernelTree tasks ∧ Linked tasks ∧ (∀ p, Ancestor tasks p p → p = 0) ∧
      (∀ p, bansOf tasks p &&& 0xF8 = 0) ∧ bansOf tasks 0 = 0 := by
  have run : ReflTransGen SystemStep boot _ :=
    (ReflTransGen.single ⟨.fork 1 2, trivial, .fork rfl rfl⟩).trans <|
      (ReflTransGen.single ⟨.flip 2 1 'p', trivial, .flip 1 'p' rfl⟩).trans <|
        .single ⟨.exit 2 1, ⟨by decide, by decide⟩, .exit rfl (.single (by unfold ParentOf; decide)) (by decide)⟩
  exact ⟨_, run, by decide, kernelState_reachable run⟩

end OsProjects.Kernel
