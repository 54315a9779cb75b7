import OsProjects.Kernel.Tree

/-!
# What the bans are for

`sys.c`, `pipe.c`, `signal.c`: the three system calls look at the byte of their caller before
anything else. So a process that bans itself while it has no children confines whatever it
forks later, for as long as nobody below it is root.
-/

namespace OsProjects.Kernel

variable {ι σ : Type*} [DecidableEq ι] {tasks tasks' : Tasks ι} {mask : BitVec 8} {p q : ι} {family family' : Set ι}

/-- The first line that `pipe2` and `kill` are given: `body` is what they did before, in the rest of the kernel. -/
def gated (mask : BitVec 8) (body : σ → Int × σ) (current : ι) (tasks : Tasks ι) (s : σ) : Int × σ :=
  if bansOf tasks current &&& mask ≠ 0 then (-eperm, s) else body s

/-- `getpid`. -/
def sysGetpid (taskTgidVnr : ι → Int) (current : ι) (tasks : Tasks ι) : Int :=
  if bansOf tasks current &&& 0x01 ≠ 0 then -eperm else taskTgidVnr current

/-- `pipe2`. -/
def sysPipe2 (body : ι → Int → σ → Int × σ) (flags : Int) (current : ι) : Tasks ι → σ → Int × σ :=
  gated 0x02 (body current flags) current

/-- `pipe`. -/
def sysPipe (body : ι → Int → σ → Int × σ) (current : ι) : Tasks ι → σ → Int × σ := sysPipe2 body 0 current

/-- `kill`. -/
def sysKill (body : ι → Int → Int → σ → Int × σ) (pid sig : Int) (current : ι) : Tasks ι → σ → Int × σ :=
  gated 0x04 (body current pid sig) current

omit [DecidableEq ι] in
theorem gated_banned (banned : Banned tasks mask p) (body : σ → Int × σ) (s : σ) : gated mask body p tasks s = (-eperm, s) := by
  unfold gated
  rw [if_pos banned.bansOf]

/-- The arguments of `sys_set_ban`, with the character and the bit of each. -/
def settings (banGetpid banPipe banKill : Int) : List (Char × BitVec 8 × Int) :=
  [('g', 0x01, banGetpid), ('p', 0x02, banPipe), ('k', 0x04, banKill)]

/-- The calls that a process is refused, and what `sys_get_ban`, `sys_check_ban` and `sys_flip_ban_branch` tell it. -/
structure Confined (tasks : Tasks ι) (banGetpid banPipe banKill : Int) (p : ι) : Prop where
  getpid : banGetpid ≠ 0 → ∀ taskTgidVnr, sysGetpid taskTgidVnr p tasks = -eperm
  pipe : banPipe ≠ 0 → ∀ {σ : Type} (body : ι → Int → σ → Int × σ) (s : σ),
    sysPipe body p tasks s = (-eperm, s) ∧ ∀ flags, sysPipe2 body flags p tasks s = (-eperm, s)
  kill : banKill ≠ 0 → ∀ {σ : Type} (body : ι → Int → Int → σ → Int × σ) (pid sig : Int) (s : σ),
    sysKill body pid sig p tasks s = (-eperm, s)
  told : ∀ ban mask x, (ban, mask, x) ∈ settings banGetpid banPipe banKill → x ≠ 0 →
    sysGetBan p ban tasks = 1 ∧ (∀ q, (tasks q).isSome → sysCheckBan p q ban tasks = -eperm) ∧
      ∀ height, 0 < height → sysFlipBanBranch p height ban tasks = (-eperm, tasks)

/-- The bit of each ban that is given is its own, and it is set. -/
theorem givenBans_bit {g k m x : Int} {ban : Char} (setting : (ban, mask, x) ∈ settings g k m) (set : x ≠ 0) :
    banCharToMask ban = some mask ∧ givenBans g k m &&& mask ≠ 0 := by
  simp only [settings, List.mem_cons, Prod.mk.injEq, List.not_mem_nil, or_false] at setting
  rcases setting with ⟨rfl, rfl, rfl⟩ | ⟨rfl, rfl, rfl⟩ | ⟨rfl, rfl, rfl⟩ <;>
    refine ⟨rfl, ?_⟩ <;> simp only [givenBans, set, ne_eq, not_false_eq_true, if_true] <;> split_ifs <;> decide

omit [DecidableEq ι] in
theorem sysGetBan_banned {ban : Char} (known : banCharToMask ban = some mask) (banned : Banned tasks mask p) :
    sysGetBan p ban tasks = 1 := by
  unfold sysGetBan
  rw [known]
  exact if_pos banned.bansOf

omit [DecidableEq ι] in
theorem sysCheckBan_banned {ban : Char} (known : banCharToMask ban = some mask) (banned : Banned tasks mask p)
    (alive : (tasks q).isSome) : sysCheckBan p q ban tasks = -eperm := by
  obtain ⟨t, found⟩ := Option.isSome_iff_exists.mp alive
  unfold sysCheckBan
  rw [known, found]
  exact if_pos banned.bansOf

theorem sysFlipBanBranch_banned {ban : Char} (known : banCharToMask ban = some mask) (banned : Banned tasks mask p)
    {height : Int} (positive : 0 < height) : sysFlipBanBranch p height ban tasks = (-eperm, tasks) := by
  apply sysFlipBanBranch_refused
  unfold refusal
  rw [if_neg (by omega), known]
  exact if_pos banned.bansOf

/-- The family and its offspring keep their ban in any run. -/
theorem Family.run (h : Family tasks mask family) {ban : Char} (known : banCharToMask ban = some mask)
    (run : Run tasks family tasks' family') : Family tasks' mask family' := by
  induction run with
  | refl => exact h
  | step _ step honest ih => exact ih.step known step honest

/-- A process without children that has set a ban is a family. -/
theorem sysSetBan_family {root : Bool} {g k m : Int} (linked : Linked tasks) (alive : (tasks p).isSome)
    (childless : ∀ c, ¬ParentOf tasks c p) (done : (sysSetBan p root g k m tasks).1 = 0) (given : givenBans g k m &&& mask ≠ 0) :
    Family (sysSetBan p root g k m tasks).2 mask {p} where
  linked c q parent := by
    rw [parentOf_congr (sysSetBan_parents root g k m)] at parent
    rw [isSome_sysSetBan]
    exact linked c q parent
  closed c q parent mem := by
    obtain rfl := Set.mem_singleton_iff.mp mem
    rw [parentOf_congr (sysSetBan_parents root g k m)] at parent
    exact absurd parent (childless c)
  banned q mem := by
    obtain rfl := Set.mem_singleton_iff.mp mem
    apply Banned.of_bansOf
    rwa [sysSetBan_granted alive done, if_pos rfl]

/-- **A process that bans itself confines its descendants.** After a successful `sys_set_ban` of a process that has no children yet,
in any run in which neither it nor anybody forked below it makes another successful one, they all are refused the calls that it banned,
and find themselves banned. -/
theorem descendants_confined {root : Bool} {g k m : Int} (linked : Linked tasks) (alive : (tasks p).isSome)
    (childless : ∀ c, ¬ParentOf tasks c p) (done : (sysSetBan p root g k m tasks).1 = 0)
    (run : Run (sysSetBan p root g k m tasks).2 {p} tasks' family') : ∀ q ∈ family', Confined tasks' g k m q := by
  have banned : ∀ {ban mask x}, (ban, mask, x) ∈ settings g k m → x ≠ 0 →
      banCharToMask ban = some mask ∧ ∀ q ∈ family', Banned tasks' mask q := by
    intro ban mask x setting set
    obtain ⟨known, given⟩ := givenBans_bit setting set
    exact ⟨known, ((sysSetBan_family linked alive childless done given).run known run).banned⟩
  intro q mem
  constructor
  · intro set taskTgidVnr
    obtain ⟨-, all⟩ := banned (.head _) set
    unfold sysGetpid
    rw [if_pos (all q mem).bansOf]
  · intro set σ body s
    obtain ⟨-, all⟩ := banned (.tail _ (.head _)) set
    exact ⟨gated_banned (all q mem) _ s, fun flags => gated_banned (all q mem) _ s⟩
  · intro set σ body pid sig s
    obtain ⟨-, all⟩ := banned (.tail _ (.tail _ (.head _))) set
    exact gated_banned (all q mem) _ s
  · intro ban mask x setting set
    obtain ⟨known, all⟩ := banned setting set
    exact ⟨sysGetBan_banned known (all q mem), fun r alive => sysCheckBan_banned known (all q mem) alive,
      fun height positive => sysFlipBanBranch_banned known (all q mem) positive⟩

/-- A child of `init` bans itself from `kill` and forks; the grandchild is refused. -/
theorem descendants_confined_sample : ∃ (tasks' : Tasks Nat) (family' : Set Nat), 4 ∈ family' ∧
    Run (sysSetBan 2 true 0 0 5 sampleTree).2 {2} tasks' family' ∧ ∀ q ∈ family', Confined tasks' 0 0 5 q := by
  have start : Run (sysSetBan 2 true 0 0 5 sampleTree).2 {2} (sysSetBan 2 true 0 0 5 sampleTree).2 {2} := .refl
  have run := start.step (.fork (p := 2) (c := 4) rfl rfl) fun _ _ _ _ _ e => nomatch e
  refine ⟨_, _, .inr ⟨rfl, rfl⟩, run, descendants_confined sampleTree_rooted.linked rfl ?_ rfl run⟩
  intro c parent
  exact absurd (sampleTree_ancestor (.single parent)) (by decide)

end OsProjects.Kernel
