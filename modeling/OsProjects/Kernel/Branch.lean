import Mathlib.Data.List.Count
import OsProjects.Kernel.BanRuns
import OsProjects.Lib.Ascent

/-!
# Flipping a branch

What `sys_flip_ban_branch` does in a process tree: it flips the bans of the first ancestors of
its caller below the root, and only these. Two calls of one process undo each other, and
calls of processes in different branches can be made in either order.
-/

namespace OsProjects.Kernel

open Ascent Relation

variable {ι : Type*} [DecidableEq ι] {tasks tasks' : Tasks ι} {mask other : BitVec 8} {p q r u v : ι} {l visited : List ι}

/-- Following `real_parent` from any process leads to one that is its own parent. -/
def Rooted (tasks : Tasks ι) : Prop :=
  ∀ p, (tasks p).isSome → ∃ r, ReflTransGen (ParentOf tasks) p r ∧ ParentOf tasks r r

omit [DecidableEq ι] in
theorem parentOf_functional (tasks : Tasks ι) : ∀ a b c, ParentOf tasks a b → ParentOf tasks a c → b = c := by
  intro a b c parent parent'
  exact Option.some_inj.mp (parent.symm.trans parent')

omit [DecidableEq ι] in
theorem Rooted.exists_line (rooted : Rooted tasks) (alive : (tasks p).isSome) : ∃ l, Line (ParentOf tasks) p l := by
  obtain ⟨r, reach, root⟩ := rooted p alive
  exact Ascent.exists_line reach root

/-- The bans of some processes, flipped. -/
def flipped (mask : BitVec 8) (visited : List ι) (tasks : Tasks ι) : Tasks ι := fun q =>
  if q ∈ visited then (tasks q).map fun t => { t with syscallBans := t.syscallBans ^^^ mask } else tasks q

/-- Why a call is refused, if it is. -/
def refusal (height : Int) (ban : Char) (bans : BitVec 8) : Option Int :=
  if height ≤ 0 then some einval
  else
    match banCharToMask ban with
    | none => some einval
    | some mask => if bans &&& mask ≠ 0 then some eperm else none

/-! ## The loop -/

omit [DecidableEq ι] in
theorem parentOf_congr (same : ∀ q, (tasks' q).bind Task.realParent = (tasks q).bind Task.realParent) :
    ParentOf tasks' = ParentOf tasks := by
  funext c p
  simp only [ParentOf, same]

@[simp] theorem flipped_nil (mask : BitVec 8) (tasks : Tasks ι) : flipped mask [] tasks = tasks := by
  funext q
  simp [flipped]

theorem flipped_cons (fresh : q ∉ visited) (found : tasks q = some t) :
    flipped mask visited (Function.update tasks q (some { t with syscallBans := t.syscallBans ^^^ mask })) =
      flipped mask (q :: visited) tasks := by
  funext r
  unfold flipped
  by_cases e : r = q
  · subst e
    simp [fresh, found]
  · simp [e]

omit [DecidableEq ι] in
/-- Whoever has a line is a process. -/
theorem found_of_line (line : Line (ParentOf tasks) p l) : ∃ t, tasks p = some t := by
  have parent : ∃ q, ParentOf tasks p q := by
    cases line with
    | top step _ => exact ⟨_, step⟩
    | step step _ _ => exact ⟨_, step⟩
  obtain ⟨q, parent⟩ := parent
  obtain ⟨t, found, -⟩ := Option.bind_eq_some_iff.mp parent
  exact ⟨t, found⟩

/-- **The loop** flips the first processes on its way up, and counts those that are banned then. -/
theorem flipLoop_eq (line : Line (ParentOf tasks) p l) (mask : BitVec 8) (k : Nat) (count : Int) :
    flipLoop mask k ((tasks p).bind Task.realParent) tasks count =
      (count + (l.take k).countP fun q => (bansOf tasks q ^^^ mask) &&& mask ≠ 0, flipped mask (l.take k) tasks) := by
  induction k generalizing tasks p l count with
  | zero => simp [flipLoop]
  | succ k ih =>
    cases line with
    | @top _ r step fixed =>
      rw [show (tasks p).bind Task.realParent = some r from step]
      obtain ⟨proc, found, root⟩ := Option.bind_eq_some_iff.mp fixed
      simp [flipLoop, found, root]
    | @step _ q l step moves rest =>
      rw [show (tasks p).bind Task.realParent = some q from step]
      obtain ⟨proc, found⟩ := found_of_line rest
      have notRoot : proc.realParent ≠ some q := by
        intro root
        apply moves
        simp [ParentOf, found, root]
      have fresh : q ∉ l := rest.notMem (parentOf_functional tasks)
      -- the rest of the way is the same in the tree after the flip
      obtain ⟨after, eq⟩ : ∃ after, after = Function.update tasks q (some { proc with syscallBans := proc.syscallBans ^^^ mask }) :=
        ⟨_, rfl⟩
      have parents : ∀ r, (after r).bind Task.realParent = (tasks r).bind Task.realParent := by
        rw [eq]
        exact bind_update found _
      have rest' : Line (ParentOf after) q l := by
        rw [parentOf_congr parents]
        exact rest
      have next : (after q).bind Task.realParent = proc.realParent := by simp [parents, found]
      have bans : ∀ r ∈ l.take k, bansOf after r = bansOf tasks r := by
        intro r mem
        have other : r ≠ q := fun e => fresh (e ▸ List.mem_of_mem_take mem)
        simp [bansOf, eq, other]
      have counts : (l.take k).countP (fun r => (bansOf after r ^^^ mask) &&& mask ≠ 0) =
          (l.take k).countP fun r => (bansOf tasks r ^^^ mask) &&& mask ≠ 0 := by
        apply List.countP_congr
        intro r mem
        rw [bans r mem]
      have own : bansOf tasks q = proc.syscallBans := by simp [bansOf, found]
      have turn := fun count => ih rest' count
      simp only [next, counts] at turn
      rw [flipLoop]
      simp only [found, if_neg notRoot]
      rw [← eq, turn, eq, flipped_cons (fun mem => fresh (List.mem_of_mem_take mem)) found, List.take_succ_cons,
        List.countP_cons, own]
      by_cases banned : (proc.syscallBans ^^^ mask) &&& mask ≠ 0
      · rw [if_pos banned, if_pos (decide_eq_true banned)]
        rw [Int.natCast_add, Int.natCast_one, Int.add_assoc, Int.add_comm 1]
      · rw [if_neg banned, if_neg (by simpa using banned)]
        simp

/-! ## A call -/

/-- The characters of the bans and their bits. -/
def banBits : List (Char × BitVec 8) := [('g', 0x01), ('p', 0x02), ('k', 0x04)]

theorem banCharToMask_iff {ban : Char} : banCharToMask ban = some mask ↔ (ban, mask) ∈ banBits := by
  simp only [banCharToMask, banBits, List.mem_cons, Prod.mk.injEq, List.not_mem_nil, or_false]
  by_cases g : ban = 'g'
  · simp [g, eq_comm]
  · by_cases p : ban = 'p'
    · simp [p, eq_comm]
    · by_cases k : ban = 'k'
      · simp [k, eq_comm]
      · simp [g, p, k]

theorem banCharToMask_none {ban : Char} : banCharToMask ban = none ↔ ban ∉ banBits.map Prod.fst := by
  simp only [banCharToMask, banBits, List.map_cons, List.map_nil, List.mem_cons, List.not_mem_nil, or_false, not_or]
  by_cases g : ban = 'g'
  · simp [g]
  · by_cases p : ban = 'p'
    · simp [p]
    · by_cases k : ban = 'k'
      · simp [k]
      · simp [g, p, k]

/-- The flipped bit is set if it was not. -/
theorem flip_sets {ban : Char} (known : (ban, mask) ∈ banBits) (b : BitVec 8) : (b ^^^ mask) &&& mask ≠ 0 ↔ b &&& mask = 0 := by
  have bits : ∀ bit ∈ banBits.map Prod.snd, ∀ b : BitVec 8, (b ^^^ bit) &&& bit ≠ 0 ↔ b &&& bit = 0 := by decide
  exact bits mask (List.mem_map_of_mem known) b

theorem sysFlipBanBranch_refused {height : Int} {ban : Char} {e : Int} (refused : refusal height ban (bansOf tasks p) = some e) :
    sysFlipBanBranch p height ban tasks = (-e, tasks) := by
  unfold refusal at refused
  unfold sysFlipBanBranch
  split_ifs at refused ⊢ with low
  · simpa using refused
  · cases masked : banCharToMask ban with
    | none =>
      rw [masked] at refused
      simpa using refused
    | some mask =>
      rw [masked] at refused
      simp only at refused ⊢
      split_ifs at refused ⊢ with banned
      simpa using refused

/-- **A call that is not refused** flips the first processes of the line. -/
theorem sysFlipBanBranch_admitted (line : Line (ParentOf tasks) p l) {height : Int} {ban : Char} (known : (ban, mask) ∈ banBits)
    (admitted : refusal height ban (bansOf tasks p) = none) :
    sysFlipBanBranch p height ban tasks =
      (((l.take height.toNat).countP (bansOf tasks · &&& mask = 0) : Int), flipped mask (l.take height.toNat) tasks) := by
  have masked := banCharToMask_iff.mpr known
  unfold refusal at admitted
  split_ifs at admitted with low
  rw [masked] at admitted
  simp only at admitted
  split_ifs at admitted with banned
  unfold sysFlipBanBranch
  rw [if_neg low, masked]
  simp only [if_neg banned, flipLoop_eq line, Int.zero_add, flip_sets known]

/-! ## Flipping twice -/

theorem flipped_of_notMem (out : q ∉ visited) : flipped mask visited tasks q = tasks q := if_neg out

theorem flipped_of_mem (mem : q ∈ visited) : flipped mask visited tasks q =
    (tasks q).map fun t => { t with syscallBans := t.syscallBans ^^^ mask } := if_pos mem

/-- Flipping leaves the tree alone. -/
theorem parentOf_flipped (mask : BitVec 8) (visited : List ι) (tasks : Tasks ι) :
    ParentOf (flipped mask visited tasks) = ParentOf tasks := by
  apply parentOf_congr
  intro q
  by_cases mem : q ∈ visited
  · rw [flipped_of_mem mem]
    cases tasks q <;> rfl
  · rw [flipped_of_notMem mem]

theorem bansOf_flipped (out : q ∉ visited) : bansOf (flipped mask visited tasks) q = bansOf tasks q := by
  simp [bansOf, flipped_of_notMem out]

theorem bansOf_flipped_mem (mem : q ∈ visited) (alive : (tasks q).isSome) :
    bansOf (flipped mask visited tasks) q = bansOf tasks q ^^^ mask := by
  obtain ⟨t, found⟩ := Option.isSome_iff_exists.mp alive
  simp [bansOf, flipped_of_mem mem, found]

theorem flipped_flipped (mask : BitVec 8) (visited : List ι) (tasks : Tasks ι) :
    flipped mask visited (flipped mask visited tasks) = tasks := by
  funext q
  by_cases mem : q ∈ visited
  · rw [flipped_of_mem mem, flipped_of_mem mem]
    cases tasks q with
    | none => rfl
    | some t =>
      simp only [Option.map_some, BitVec.xor_assoc, BitVec.xor_self, BitVec.xor_zero]
  · rw [flipped_of_notMem mem, flipped_of_notMem mem]

/-- Flips of any processes commute. -/
theorem flipped_comm (mask other : BitVec 8) (visited visited' : List ι) (tasks : Tasks ι) :
    flipped mask visited (flipped other visited' tasks) = flipped other visited' (flipped mask visited tasks) := by
  funext q
  by_cases mem : q ∈ visited
  · by_cases mem' : q ∈ visited'
    · simp only [flipped_of_mem mem, flipped_of_mem mem', Option.map_map]
      congr 1
      funext t
      simp [BitVec.xor_assoc, BitVec.xor_comm mask]
    · simp only [flipped_of_mem mem, flipped_of_notMem mem']
  · by_cases mem' : q ∈ visited'
    · simp only [flipped_of_notMem mem, flipped_of_mem mem']
    · simp only [flipped_of_notMem mem, flipped_of_notMem mem']

/-- What a call that is not refused does, and what the same call does after it. -/
structure FlipsBranch (p : ι) (height : Int) (ban : Char) (mask : BitVec 8) (visited : List ι) (tasks : Tasks ι) : Prop where
  bans : ∀ q ∈ visited, ∃ t, tasks q = some t ∧
    (sysFlipBanBranch p height ban tasks).2 q = some { t with syscallBans := t.syscallBans ^^^ mask }
  others : ∀ q, q ∉ visited → (sysFlipBanBranch p height ban tasks).2 q = tasks q
  result : (sysFlipBanBranch p height ban tasks).1 = (visited.countP (bansOf tasks · &&& mask = 0) : Int)
  restores : (sysFlipBanBranch p height ban (sysFlipBanBranch p height ban tasks).2).2 = tasks
  succeeds : 0 ≤ (sysFlipBanBranch p height ban (sysFlipBanBranch p height ban tasks).2).1
  sum : (sysFlipBanBranch p height ban tasks).1 +
    (sysFlipBanBranch p height ban (sysFlipBanBranch p height ban tasks).2).1 = visited.length

omit [DecidableEq ι] in
theorem alive_of_mem (line : Line (ParentOf tasks) p l) (mem : q ∈ l) : (tasks q).isSome := by
  obtain ⟨m, rest, rfl⟩ := List.append_of_mem mem
  obtain ⟨t, found⟩ := found_of_line line.suffix
  rw [found]
  rfl

theorem flipsBranch (line : Line (ParentOf tasks) p l) {height : Int} {ban : Char} (known : (ban, mask) ∈ banBits)
    (admitted : refusal height ban (bansOf tasks p) = none) : FlipsBranch p height ban mask (l.take height.toNat) tasks := by
  have call := sysFlipBanBranch_admitted line known admitted
  have alive : ∀ q ∈ l.take height.toNat, (tasks q).isSome := fun q mem => alive_of_mem line (List.mem_of_mem_take mem)
  -- the caller is not on its own line, so the second call is admitted too
  have own : bansOf (flipped mask (l.take height.toNat) tasks) p = bansOf tasks p :=
    bansOf_flipped fun mem => line.notMem (parentOf_functional tasks) (List.mem_of_mem_take mem)
  have line' : Line (ParentOf (flipped mask (l.take height.toNat) tasks)) p l := by
    rw [parentOf_flipped]
    exact line
  have again := sysFlipBanBranch_admitted line' known (by rw [own]; exact admitted)
  have counts : (l.take height.toNat).countP (bansOf (flipped mask (l.take height.toNat) tasks) · &&& mask = 0) =
      (l.take height.toNat).countP fun q => ¬(decide (bansOf tasks q &&& mask = 0) = true) := by
    apply List.countP_congr
    intro q mem
    rw [bansOf_flipped_mem mem (alive q mem), decide_eq_true_iff, decide_eq_true_iff, decide_eq_true_iff]
    exact (not_iff_comm.mp (flip_sets known _)).symm
  constructor
  · intro q mem
    obtain ⟨t, found⟩ := Option.isSome_iff_exists.mp (alive q mem)
    refine ⟨t, found, ?_⟩
    simp [call, flipped_of_mem mem, found]
  · intro q out
    rw [call]
    exact flipped_of_notMem out
  · rw [call]
  · rw [call, again]
    exact flipped_flipped _ _ _
  · rw [call, again]
    exact Int.natCast_nonneg _
  · rw [call, again]
    have size := List.length_eq_countP_add_countP (bansOf tasks · &&& mask = 0) (l := l.take height.toNat)
    simp only [counts]
    omega

/-- **`sys_flip_ban_branch`.** A bad height or character is an error, and so is a ban of the caller. Otherwise the call flips the
ban of the first `height` ancestors below the root and of nobody else, and a second call undoes it. -/
theorem sysFlipBanBranch_spec (rooted : Rooted tasks) (alive : (tasks p).isSome) (height : Int) (ban : Char) :
    (height ≤ 0 ∨ ban ≠ 'g' ∧ ban ≠ 'p' ∧ ban ≠ 'k' → sysFlipBanBranch p height ban tasks = (-einval, tasks)) ∧
    ∀ mask, 0 < height → (ban, mask) ∈ banBits →
      (bansOf tasks p &&& mask ≠ 0 → sysFlipBanBranch p height ban tasks = (-eperm, tasks)) ∧
      (bansOf tasks p &&& mask = 0 → ∃ ancestors : List ι,
        (p :: ancestors).IsChain (ParentOf tasks) ∧ ancestors.Nodup ∧ p ∉ ancestors ∧
        (∀ a, a ∈ ancestors ↔ Ancestor tasks p a ∧ ¬ParentOf tasks a a) ∧
        FlipsBranch p height ban mask (ancestors.take height.toNat) tasks) := by
  constructor
  · intro invalid
    apply sysFlipBanBranch_refused
    unfold refusal
    by_cases low : height ≤ 0
    · simp [low]
    · have unknown : banCharToMask ban = none := by
        rw [banCharToMask_none]
        simpa [banBits] using invalid.resolve_left low
      simp [low, unknown]
  · intro mask positive known
    have masked := banCharToMask_iff.mpr known
    have high : ¬height ≤ 0 := by omega
    constructor
    · intro banned
      apply sysFlipBanBranch_refused
      simpa [refusal, high, masked] using banned
    · intro free
      have admitted : refusal height ban (bansOf tasks p) = none := by simp [refusal, high, masked, free]
      obtain ⟨l, line⟩ := rooted.exists_line alive
      have functional := parentOf_functional tasks
      refine ⟨l, line.chain, line.nodup functional, line.notMem functional, fun a => ?_, flipsBranch line known admitted⟩
      exact line.mem_iff functional

/-- The idle task, `init`, and two children of `init`, none of them banned. -/
def sampleTree : Tasks Nat
  | 0 => some ⟨0, some 0⟩
  | 1 => some ⟨0, some 0⟩
  | 2 => some ⟨0, some 1⟩
  | 3 => some ⟨0, some 1⟩
  | _ => none

theorem sampleTree_reach {p : Nat} (alive : (sampleTree p).isSome) : ReflTransGen (ParentOf sampleTree) p 0 := by
  have init : ReflTransGen (ParentOf sampleTree) 1 0 := .single rfl
  match p with
  | 0 => exact .refl
  | 1 => exact init
  | 2 => exact .head rfl init
  | 3 => exact .head rfl init

theorem sampleTree_rooted : Rooted sampleTree := fun _ alive => ⟨0, sampleTree_reach alive, rfl⟩

theorem sysFlipBanBranch_spec_sample :
    ((5 : Int) ≤ 0 ∨ 'p' ≠ 'g' ∧ 'p' ≠ 'p' ∧ 'p' ≠ 'k' → sysFlipBanBranch 2 5 'p' sampleTree = (-einval, sampleTree)) ∧
    ∀ mask, (0 : Int) < 5 → ('p', mask) ∈ banBits →
      (bansOf sampleTree 2 &&& mask ≠ 0 → sysFlipBanBranch 2 5 'p' sampleTree = (-eperm, sampleTree)) ∧
      (bansOf sampleTree 2 &&& mask = 0 → ∃ ancestors : List Nat,
        (2 :: ancestors).IsChain (ParentOf sampleTree) ∧ ancestors.Nodup ∧ 2 ∉ ancestors ∧
        (∀ a, a ∈ ancestors ↔ Ancestor sampleTree 2 a ∧ ¬ParentOf sampleTree a a) ∧
        FlipsBranch 2 5 'p' mask (ancestors.take 5) sampleTree) :=
  sysFlipBanBranch_spec sampleTree_rooted rfl 5 'p'

/-! ## Two branches -/

/-- The error that a call returns, if it is one. -/
def errorOf (result : Int) : Option Int := if result < 0 then some result else none

/-- The processes that a call flips. -/
def reached (l : List ι) (height : Int) (ban : Char) (bans : BitVec 8) : List ι :=
  if (refusal height ban bans).isSome then [] else l.take height.toNat

omit [DecidableEq ι] in
theorem mem_of_reached {height : Int} {ban : Char} {bans : BitVec 8} (mem : q ∈ reached l height ban bans) : q ∈ l := by
  unfold reached at mem
  split_ifs at mem
  · exact absurd mem List.not_mem_nil
  · exact List.mem_of_mem_take mem

theorem refusal_cases (height : Int) (ban : Char) (bans : BitVec 8) :
    (∃ e, 0 < e ∧ refusal height ban bans = some e) ∨ ∃ mask, (ban, mask) ∈ banBits ∧ refusal height ban bans = none := by
  unfold refusal
  split_ifs with low
  · exact .inl ⟨einval, by decide, rfl⟩
  · cases masked : banCharToMask ban with
    | none => exact .inl ⟨einval, by decide, rfl⟩
    | some mask =>
      simp only
      split_ifs with banned
      · exact .inl ⟨eperm, by decide, rfl⟩
      · exact .inr ⟨mask, banCharToMask_iff.mp masked, rfl⟩

/-- A call by what it flips and its error. -/
theorem sysFlipBanBranch_eq (line : Line (ParentOf tasks) p l) (height : Int) (ban : Char) :
    (sysFlipBanBranch p height ban tasks).2 =
      flipped ((banCharToMask ban).getD 0) (reached l height ban (bansOf tasks p)) tasks ∧
    errorOf (sysFlipBanBranch p height ban tasks).1 = (refusal height ban (bansOf tasks p)).map Neg.neg := by
  rcases refusal_cases height ban (bansOf tasks p) with ⟨e, positive, refused⟩ | ⟨mask, known, admitted⟩
  · rw [sysFlipBanBranch_refused refused]
    simp [reached, refused, errorOf, positive]
  · have masked := banCharToMask_iff.mpr known
    rw [sysFlipBanBranch_admitted line known admitted]
    simp [reached, admitted, errorOf, masked]

/-- **Flips in different branches commute.** -/
theorem flips_commute (rooted : Rooted tasks) (alive : (tasks u).isSome) (alive' : (tasks v).isSome)
    (notAbove : ¬Ancestor tasks v u) (notBelow : ¬Ancestor tasks u v) (height height' : Int) (ban ban' : Char) :
    (sysFlipBanBranch v height' ban' (sysFlipBanBranch u height ban tasks).2).2 =
      (sysFlipBanBranch u height ban (sysFlipBanBranch v height' ban' tasks).2).2 ∧
    errorOf (sysFlipBanBranch u height ban tasks).1 =
      errorOf (sysFlipBanBranch u height ban (sysFlipBanBranch v height' ban' tasks).2).1 ∧
    errorOf (sysFlipBanBranch v height' ban' (sysFlipBanBranch u height ban tasks).2).1 =
      errorOf (sysFlipBanBranch v height' ban' tasks).1 := by
  have functional := parentOf_functional tasks
  obtain ⟨l, line⟩ := rooted.exists_line alive
  obtain ⟨m, line'⟩ := rooted.exists_line alive'
  -- neither call reaches the other's caller
  have own : u ∉ reached m height' ban' (bansOf tasks v) := fun mem => notAbove ((line'.mem_iff functional).mp (mem_of_reached mem)).1
  have own' : v ∉ reached l height ban (bansOf tasks u) := fun mem => notBelow ((line.mem_iff functional).mp (mem_of_reached mem)).1
  obtain ⟨first, error⟩ := sysFlipBanBranch_eq line height ban
  obtain ⟨first', error'⟩ := sysFlipBanBranch_eq line' height' ban'
  rw [← parentOf_flipped ((banCharToMask ban').getD 0) (reached m height' ban' (bansOf tasks v))] at line
  rw [← parentOf_flipped ((banCharToMask ban).getD 0) (reached l height ban (bansOf tasks u))] at line'
  obtain ⟨second, refused⟩ := sysFlipBanBranch_eq line height ban
  obtain ⟨second', refused'⟩ := sysFlipBanBranch_eq line' height' ban'
  rw [bansOf_flipped own] at second refused
  rw [bansOf_flipped own'] at second' refused'
  rw [first, first', second, second', error, error', refused, refused']
  exact ⟨flipped_comm _ _ _ _ _, rfl, rfl⟩

/-- Only the idle task and `init` have children. -/
theorem sampleTree_ancestor {c a : Nat} (ancestor : Ancestor sampleTree c a) : a ≤ 1 := by
  have parents : ∀ {b}, ParentOf sampleTree b a → a ≤ 1 := by
    intro b parent
    match b with
    | 0 | 1 | 2 | 3 =>
      have := Option.some_inj.mp parent
      omega
  cases ancestor with
  | single parent => exact parents parent
  | tail _ parent => exact parents parent

theorem flips_commute_sample :
    (sysFlipBanBranch 3 1 'k' (sysFlipBanBranch 2 4 'g' sampleTree).2).2 =
      (sysFlipBanBranch 2 4 'g' (sysFlipBanBranch 3 1 'k' sampleTree).2).2 ∧
    errorOf (sysFlipBanBranch 2 4 'g' sampleTree).1 =
      errorOf (sysFlipBanBranch 2 4 'g' (sysFlipBanBranch 3 1 'k' sampleTree).2).1 ∧
    errorOf (sysFlipBanBranch 3 1 'k' (sysFlipBanBranch 2 4 'g' sampleTree).2).1 =
      errorOf (sysFlipBanBranch 3 1 'k' sampleTree).1 :=
  flips_commute sampleTree_rooted rfl rfl (fun above => absurd (sampleTree_ancestor above) (by decide))
    (fun above => absurd (sampleTree_ancestor above) (by decide)) 4 1 'g' 'k'

/-! ## The top of the tree -/

/-- The tree of a kernel: the idle task is its own parent and that of `init`, and everybody else descends from one of them. -/
structure KernelTree (tasks : Tasks Nat) : Prop where
  idle : ParentOf tasks 0 0
  init : ParentOf tasks 1 0
  descends : ∀ p, (tasks p).isSome → p ≠ 0 → p ≠ 1 → Ancestor tasks p 1 ∨ Ancestor tasks p 0

theorem KernelTree.rooted {tasks : Tasks Nat} (tree : KernelTree tasks) : Rooted tasks := by
  have init : ReflTransGen (ParentOf tasks) 1 0 := .single tree.init
  intro p alive
  refine ⟨0, ?_, tree.idle⟩
  by_cases idle : p = 0
  · rw [idle]
  · by_cases first : p = 1
    · rw [first]
      exact init
    · rcases tree.descends p alive idle first with above | above
      · exact above.to_reflTransGen.trans init
      · exact above.to_reflTransGen

/-- The ancestor so many generations up. -/
def generation (tasks : Tasks ι) : Nat → ι → Option ι
  | 0, p => some p
  | n + 1, p => ((tasks p).bind Task.realParent).bind (generation tasks n)

omit [DecidableEq ι] in
theorem generation_root (root : ParentOf tasks r r) (n : Nat) : generation tasks n r = some r := by
  induction n with
  | zero => rfl
  | succ n ih =>
    unfold generation
    rw [show (tasks r).bind Task.realParent = some r from root, Option.bind_some, ih]

omit [DecidableEq ι] in
/-- The generations below the root are the points of the line. -/
theorem getElem_line (line : Line (ParentOf tasks) p l) (n : Nat) :
    l[n]? = some q ↔ generation tasks (n + 1) p = some q ∧ ¬ParentOf tasks q q := by
  induction n generalizing p l with
  | zero =>
    cases line with
    | @top _ r step fixed =>
      rw [generation, show (tasks p).bind Task.realParent = some r from step]
      simp only [generation, Option.bind_some, Option.some_inj]
      constructor
      · intro none
        simp at none
      · rintro ⟨rfl, moves⟩
        exact absurd fixed moves
    | @step _ a l step moves rest =>
      rw [generation, show (tasks p).bind Task.realParent = some a from step]
      simp only [generation, Option.bind_some, List.getElem?_cons_zero, Option.some_inj]
      constructor
      · rintro rfl
        exact ⟨rfl, moves⟩
      · exact fun found => found.1
  | succ n ih =>
    cases line with
    | @top _ r step fixed =>
      rw [generation, show (tasks p).bind Task.realParent = some r from step, Option.bind_some, generation_root fixed]
      constructor
      · intro none
        simp at none
      · rintro ⟨found, moves⟩
        obtain rfl := Option.some_inj.mp found
        exact absurd fixed moves
    | @step _ a l step moves rest =>
      rw [generation, show (tasks p).bind Task.realParent = some a from step, Option.bind_some, List.getElem?_cons_succ]
      exact ih rest

/-- `init` is among the first processes of a line when it is one of the first ancestors. -/
theorem init_mem_take_iff {tasks : Tasks Nat} {l : List Nat} {p : Nat} (tree : KernelTree tasks)
    (line : Line (ParentOf tasks) p l) (height : Int) :
    1 ∈ l.take height.toNat ↔ ∃ n : Nat, 0 < n ∧ n ≤ height ∧ generation tasks n p = some 1 := by
  have leads : ¬ParentOf tasks 1 1 := by
    intro root
    exact absurd (parentOf_functional tasks _ _ _ root tree.init) (by decide)
  rw [List.mem_iff_getElem?]
  constructor
  · rintro ⟨n, found⟩
    rw [List.getElem?_take] at found
    split_ifs at found with inside
    exact ⟨n + 1, by omega, by omega, ((getElem_line line n).mp found).1⟩
  · rintro ⟨n, positive, within, above⟩
    obtain ⟨n, rfl⟩ : ∃ m, n = m + 1 := ⟨n - 1, by omega⟩
    refine ⟨n, ?_⟩
    rw [List.getElem?_take, if_pos (by omega), getElem_line line]
    exact ⟨above, leads⟩

/-- **When a call leaves `init` alone**: it is refused, or `init` is not among the first `height` ancestors of the caller. -/
theorem init_untouched_iff {tasks : Tasks Nat} {p : Nat} (tree : KernelTree tasks) (alive : (tasks p).isSome) (height : Int)
    (ban : Char) :
    bansOf (sysFlipBanBranch p height ban tasks).2 1 = bansOf tasks 1 ↔
      (refusal height ban (bansOf tasks p)).isSome ∨ ¬∃ n : Nat, 0 < n ∧ n ≤ height ∧ generation tasks n p = some 1 := by
  obtain ⟨l, line⟩ := tree.rooted.exists_line alive
  rcases refusal_cases height ban (bansOf tasks p) with ⟨e, -, refused⟩ | ⟨mask, known, admitted⟩
  · rw [sysFlipBanBranch_refused refused]
    simp [refused]
  · rw [sysFlipBanBranch_admitted line known admitted, ← init_mem_take_iff tree line]
    simp only [admitted, Option.isSome_none, Bool.false_eq_true, false_or]
    constructor
    · intro same mem
      rw [bansOf_flipped_mem mem (alive_of_mem line (List.mem_of_mem_take mem))] at same
      have sets := flip_sets known (bansOf tasks 1)
      rw [same] at sets
      exact not_iff_self sets
    · intro out
      exact bansOf_flipped out

theorem sampleTree_kernel : KernelTree sampleTree where
  idle := rfl
  init := rfl
  descends p alive notIdle notInit := by
    match p with
    | 2 => exact .inl (.single rfl)
    | 3 => exact .inl (.single rfl)

theorem init_untouched_iff_sample :
    bansOf (sysFlipBanBranch 2 1 'g' sampleTree).2 1 = bansOf sampleTree 1 ↔
      (refusal 1 'g' (bansOf sampleTree 2)).isSome ∨ ¬∃ n : Nat, 0 < n ∧ n ≤ (1 : Int) ∧ generation sampleTree n 2 = some 1 :=
  init_untouched_iff sampleTree_kernel rfl 1 'g'

/-- **`init` is flipped** by a call of its child. -/
theorem child_flips_init : ¬∀ (tasks : Tasks Nat) (p : Nat) (height : Int) (ban : Char), KernelTree tasks → (tasks p).isSome →
    bansOf (sysFlipBanBranch p height ban tasks).2 1 = bansOf tasks 1 := by
  intro claim
  have untouched := claim sampleTree 2 1 'g' sampleTree_kernel rfl
  have banned : bansOf (sysFlipBanBranch 2 1 'g' sampleTree).2 1 = 1 := by decide
  have before : bansOf sampleTree 1 = 0 := by decide
  rw [banned, before] at untouched
  exact absurd untouched (by decide)

end OsProjects.Kernel
