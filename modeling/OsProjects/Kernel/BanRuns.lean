import Mathlib.Data.Set.Insert
import OsProjects.Kernel.Bans

/-!
# Bans that cannot be escaped

`sys_flip_ban_branch` works upwards, and a caller that has the ban itself is refused. So a
family of banned processes that contains all descendants of its members is out of reach: who
could flip one of its members is in it, and is refused.
-/

namespace OsProjects.Kernel

variable {ι : Type*} [DecidableEq ι] {tasks tasks' : Tasks ι} {mask other : BitVec 8} {p q r c a : ι} {family : Set ι}

/-! ## The loop -/

omit [DecidableEq ι] in
/-- Parents determine ancestors. -/
theorem Ancestor.congr (same : ∀ q, (tasks' q).bind Task.realParent = (tasks q).bind Task.realParent)
    (h : Ancestor tasks' p q) : Ancestor tasks p q := by
  have le : ParentOf tasks' ≤ ParentOf tasks := fun x y parent => (same x).symm.trans parent
  exact Relation.TransGen.mono le _ _ h

theorem bind_update (found : tasks p = some t) (bans : BitVec 8) (q : ι) :
    (Function.update tasks p (some { t with syscallBans := bans }) q).bind Task.realParent =
      (tasks q).bind Task.realParent := by
  by_cases e : q = p
  · subst e
    rw [Function.update_self, found]
    rfl
  · rw [Function.update_of_ne e]

/-- The loop leaves the tree alone. -/
theorem flipLoop_parents (mask : BitVec 8) (k : Nat) (start : Option ι) (tasks : Tasks ι) (count : Int) (q : ι) :
    ((flipLoop mask k start tasks count).2 q).bind Task.realParent = (tasks q).bind Task.realParent := by
  induction k generalizing start tasks count with
  | zero => rfl
  | succ k ih =>
    cases start with
    | none => rfl
    | some p =>
      unfold flipLoop
      cases found : tasks p with
      | none => rfl
      | some proc =>
        simp only
        split_ifs
        · rfl
        · rw [ih, bind_update found]
        · rw [ih, bind_update found]

theorem flipLoop_isSome {k : Nat} {start : Option ι} {count : Int} (alive : (tasks q).isSome) :
    ((flipLoop mask k start tasks count).2 q).isSome := by
  induction k generalizing start tasks count with
  | zero => exact alive
  | succ k ih =>
    cases start with
    | none => exact alive
    | some p =>
      unfold flipLoop
      cases found : tasks p with
      | none => exact alive
      | some proc =>
        have alive' : ∀ bans, (Function.update tasks p (some { proc with syscallBans := bans }) q).isSome := by
          intro bans
          by_cases e : q = p
          · subst e
            rw [Function.update_self]
            rfl
          · rw [Function.update_of_ne e]
            exact alive
        simp only
        split_ifs
        · exact alive
        · exact ih (alive' _)
        · exact ih (alive' _)

/-- **The loop only touches the processes on its way up.** -/
theorem flipLoop_frame (k : Nat) {start : Option ι} (count : Int) (off : ∀ p, start = some p → p ≠ r ∧ ¬Ancestor tasks p r) :
    (flipLoop mask k start tasks count).2 r = tasks r := by
  induction k generalizing start tasks count with
  | zero => rfl
  | succ k ih =>
    cases start with
    | none => rfl
    | some p =>
      obtain ⟨ne, notAbove⟩ := off p rfl
      unfold flipLoop
      cases found : tasks p with
      | none => rfl
      | some proc =>
        have next : ∀ bans q, proc.realParent = some q →
            q ≠ r ∧ ¬Ancestor (Function.update tasks p (some { proc with syscallBans := bans })) q r := by
          intro bans q parent
          have step : ParentOf tasks p q := by
            unfold ParentOf
            rw [found]
            exact parent
          constructor
          · rintro rfl
            exact notAbove (.single step)
          · intro above
            exact notAbove (.head step (above.congr (bind_update found bans)))
        have skip : ∀ bans, Function.update tasks p (some { proc with syscallBans := bans }) r = tasks r :=
          fun bans => Function.update_of_ne ne.symm _ _
        simp only
        split_ifs
        · rfl
        · rw [ih _ (next _), skip]
        · rw [ih _ (next _), skip]

/-- **The loop only touches its own bit.** -/
theorem flipLoop_bits (k : Nat) {start : Option ι} (count : Int) (apart : ∀ b : BitVec 8, (b ^^^ mask) &&& other = b &&& other)
    (r : ι) : bansOf (flipLoop mask k start tasks count).2 r &&& other = bansOf tasks r &&& other := by
  induction k generalizing start tasks count with
  | zero => rfl
  | succ k ih =>
    cases start with
    | none => rfl
    | some p =>
      unfold flipLoop
      cases found : tasks p with
      | none => rfl
      | some proc =>
        have same : bansOf (Function.update tasks p (some { proc with syscallBans := proc.syscallBans ^^^ mask })) r &&& other =
            bansOf tasks r &&& other := by
          unfold bansOf
          by_cases e : r = p
          · subst e
            rw [Function.update_self, found]
            exact apart _
          · rw [Function.update_of_ne e]
        simp only
        split_ifs
        · rfl
        · rw [ih, same]
        · rw [ih, same]

/-- Different characters have bits of their own. -/
theorem masks_apart {ban ban' : Char} (h : banCharToMask ban = some mask) (h' : banCharToMask ban' = some other)
    (ne : mask ≠ other) (b : BitVec 8) : (b ^^^ mask) &&& other = b &&& other := by
  have bits : ∀ m ∈ [(1 : BitVec 8), 2, 4], ∀ m' ∈ [(1 : BitVec 8), 2, 4], m ≠ m' → m &&& m' = 0 := by decide
  have cases : ∀ {c m}, banCharToMask c = some m → m ∈ [(1 : BitVec 8), 2, 4] := by
    intro c m found
    unfold banCharToMask at found
    split_ifs at found <;> obtain rfl := Option.some_inj.mp found <;> decide
  have none := bits mask (cases h) other (cases h') ne
  ext i low
  have clear : (mask &&& other)[i] = false := by
    rw [none]
    exact BitVec.getElem_zero low
  rw [BitVec.getElem_and] at clear
  rw [BitVec.getElem_and, BitVec.getElem_and, BitVec.getElem_xor]
  cases bit : mask[i] <;> simp_all

/-! ## Families -/

/-- The process is there and has the ban. -/
def Banned (tasks : Tasks ι) (mask : BitVec 8) (p : ι) : Prop := ∃ t, tasks p = some t ∧ t.syscallBans &&& mask ≠ 0

/-- Every parent is a process. -/
def Linked (tasks : Tasks ι) : Prop := ∀ c p, ParentOf tasks c p → (tasks p).isSome

/-- A set of banned processes with all their descendants. -/
structure Family (tasks : Tasks ι) (mask : BitVec 8) (family : Set ι) : Prop where
  linked : Linked tasks
  closed : ∀ c p, ParentOf tasks c p → p ∈ family → c ∈ family
  banned : ∀ p ∈ family, Banned tasks mask p

/-- What is left of a family and its offspring after a step. -/
def Act.offspring (family : Set ι) : Act ι → Set ι
  | .fork p c => { q | q ∈ family ∨ q = c ∧ p ∈ family }
  | .exit p _ => { q | q ∈ family ∧ q ≠ p }
  | _ => family

omit [DecidableEq ι] in
theorem Family.descendants (h : Family tasks mask family) (ancestor : Ancestor tasks c a) (mem : a ∈ family) : c ∈ family := by
  induction ancestor using Relation.TransGen.head_induction_on with
  | single parent => exact h.closed _ _ parent mem
  | head parent _ ih => exact h.closed _ _ parent ih

omit [DecidableEq ι] in
theorem Banned.bansOf (h : Banned tasks mask p) : bansOf tasks p &&& mask ≠ 0 := by
  obtain ⟨t, found, bit⟩ := h
  unfold Kernel.bansOf
  rw [found]
  exact bit

omit [DecidableEq ι] in
theorem Banned.of_bansOf (h : Kernel.bansOf tasks p &&& mask ≠ 0) : Banned tasks mask p := by
  unfold Kernel.bansOf at h
  cases found : tasks p with
  | none =>
    rw [found] at h
    exact absurd (BitVec.zero_and) h
  | some t =>
    rw [found] at h
    exact ⟨t, found, h⟩

namespace Family

omit [DecidableEq ι] in
/-- The tree stays and the family keeps its ban. -/
theorem congr (h : Family tasks mask family) (parents : ∀ q, (tasks' q).bind Task.realParent = (tasks q).bind Task.realParent)
    (alive : ∀ q, (tasks q).isSome → (tasks' q).isSome) (banned : ∀ p ∈ family, Banned tasks' mask p) :
    Family tasks' mask family where
  linked c p parent := alive p (h.linked c p ((parents c).symm.trans parent))
  closed c p parent := h.closed c p ((parents c).symm.trans parent)
  banned := banned

/-- **`fork`.** -/
theorem fork (h : Family tasks mask family) (fresh : tasks c = none) (alive : (tasks p).isSome) :
    Family (fork p c tasks) mask ((Act.fork p c).offspring family) := by
  obtain ⟨t, found⟩ := Option.isSome_iff_exists.mp alive
  have child : Kernel.fork p c tasks c = some { t with realParent := some p } := by
    unfold Kernel.fork
    rw [Function.update_self, found]
    rfl
  have others : ∀ q, q ≠ c → Kernel.fork p c tasks q = tasks q := fun q ne => Function.update_of_ne ne _ _
  have parents : ∀ x y, ParentOf (Kernel.fork p c tasks) x y → x = c ∧ y = p ∨ ParentOf tasks x y := by
    intro x y parent
    unfold ParentOf at parent ⊢
    by_cases e : x = c
    · subst e
      rw [child] at parent
      exact .inl ⟨rfl, (Option.some_inj.mp parent).symm⟩
    · rw [others x e] at parent
      exact .inr parent
  have old : ∀ y, (tasks y).isSome → y ≠ c := by
    rintro y some rfl
    rw [fresh] at some
    exact nomatch some
  constructor
  · intro x y parent
    have some : (tasks y).isSome := by
      rcases parents x y parent with ⟨-, rfl⟩ | parent
      · exact alive
      · exact h.linked x y parent
    rw [others y (old y some)]
    exact some
  · intro x y parent mem
    rcases parents x y parent with ⟨rfl, rfl⟩ | parent
    · rcases mem with mem | ⟨_, mem⟩
      · exact .inr ⟨rfl, mem⟩
      · exact .inr ⟨rfl, mem⟩
    · rcases mem with mem | ⟨new, -⟩
      · exact .inl (h.closed x y parent mem)
      · exact absurd new (old y (h.linked x y parent))
  · intro q mem
    rcases mem with mem | ⟨rfl, mem⟩
    · obtain ⟨t', found', bit⟩ := h.banned q mem
      exact ⟨t', by rw [others q (old q (by rw [found']; rfl)), found'], bit⟩
    · obtain ⟨t', found', bit⟩ := h.banned p mem
      obtain rfl := Option.some_inj.mp (found.symm.trans found')
      exact ⟨_, child, bit⟩

/-- **The exit** of a process: its children stay where they were, in the family or out of it. -/
theorem exit (h : Family tasks mask family) (ancestor : Ancestor tasks p a) (other : a ≠ p) :
    Family (exit p a tasks) mask ((Act.exit p a).offspring family) := by
  have parents : ∀ x y, ParentOf (Kernel.exit p a tasks) x y →
      x ≠ p ∧ (ParentOf tasks x p ∧ y = a ∨ ParentOf tasks x y ∧ y ≠ p) := by
    intro x y parent
    unfold ParentOf Kernel.exit at parent
    by_cases gone : x = p
    · rw [if_pos gone] at parent
      exact nomatch parent
    rw [if_neg gone] at parent
    refine ⟨gone, ?_⟩
    unfold ParentOf
    cases found : tasks x with
    | none =>
      rw [found] at parent
      exact nomatch parent
    | some t =>
      rw [found] at parent
      simp only [Option.map_some, Option.bind_some] at parent ⊢
      split_ifs at parent with orphan
      · exact .inl ⟨orphan, (Option.some_inj.mp parent).symm⟩
      · refine .inr ⟨parent, ?_⟩
        rintro rfl
        exact orphan parent
  have alive : ∀ y, y ≠ p → (tasks y).isSome → (Kernel.exit p a tasks y).isSome := by
    intro y ne some
    unfold Kernel.exit
    rw [if_neg ne, Option.isSome_map]
    exact some
  constructor
  · intro x y parent
    rcases (parents x y parent).2 with ⟨_, rfl⟩ | ⟨parent, ne⟩
    · apply alive y other
      cases ancestor with
      | single parent => exact h.linked _ _ parent
      | tail _ parent => exact h.linked _ _ parent
    · exact alive y ne (h.linked x y parent)
  · intro x y parent mem
    obtain ⟨notGone, place⟩ := parents x y parent
    refine ⟨?_, notGone⟩
    rcases place with ⟨orphan, rfl⟩ | ⟨parent, -⟩
    · exact h.closed x p orphan (h.descendants ancestor mem.1)
    · exact h.closed x y parent mem.1
  · intro q mem
    obtain ⟨t, found, bit⟩ := h.banned q mem.1
    have left : Kernel.exit p a tasks q = some (if t.realParent = some p then { t with realParent := some a } else t) := by
      unfold Kernel.exit
      rw [if_neg mem.2, found]
      rfl
    refine ⟨_, left, ?_⟩
    split_ifs <;> exact bit

/-- **`sys_set_ban`** of a process outside the family, or in vain. -/
theorem setBan (h : Family tasks mask family) {root : Bool} {g q k : Int}
    (inVain : p ∈ family → (sysSetBan p root g q k tasks).1 ≠ 0) : Family (sysSetBan p root g q k tasks).2 mask family := by
  unfold sysSetBan at inVain ⊢
  split_ifs at inVain ⊢ with invalid refused
  · exact h
  · exact h
  · have outside : p ∉ family := fun mem => inVain mem rfl
    refine h.congr (fun r => ?_) (fun r some => ?_) fun r mem => ?_
    · by_cases e : r = p
      · subst e
        simp only [Function.update_self]
        cases tasks r <;> rfl
      · simp only [Function.update_of_ne e]
    · by_cases e : r = p
      · subst e
        simpa only [Function.update_self, Option.isSome_map] using some
      · simpa only [Function.update_of_ne e] using some
    · have ne : r ≠ p := by
        rintro rfl
        exact outside mem
      obtain ⟨t, found, bit⟩ := h.banned r mem
      exact ⟨t, by simpa only [Function.update_of_ne ne] using found, bit⟩

/-- **`sys_flip_ban_branch`** of any process. -/
theorem flip (h : Family tasks mask family) {ban : Char} (known : banCharToMask ban = some mask) (height : Int) (ban' : Char) :
    Family (sysFlipBanBranch p height ban' tasks).2 mask family := by
  unfold sysFlipBanBranch
  split_ifs with low
  · exact h
  · cases masked : banCharToMask ban' with
    | none => exact h
    | some mask' =>
      simp only
      split_ifs with refused
      · exact h
      · have keeps : ∀ r ∈ family, bansOf (flipLoop mask' height.toNat ((tasks p).bind Task.realParent) tasks 0).2 r &&& mask =
            bansOf tasks r &&& mask := by
          intro r mem
          by_cases same : mask' = mask
          · -- who reaches a member is a descendant, and was refused
            subst same
            unfold Kernel.bansOf
            rw [flipLoop_frame]
            intro x parent
            have above : ∀ y, Ancestor tasks p y → y ≠ r := by
              rintro y ancestor rfl
              exact refused (h.banned p (h.descendants ancestor mem)).bansOf
            exact ⟨above x (.single parent), fun ancestor => above r (.head parent ancestor) rfl⟩
          · exact flipLoop_bits _ _ (masks_apart masked known same) r
        refine h.congr (flipLoop_parents _ _ _ _ _) (fun q some => ?_) fun r mem => ?_
        · exact flipLoop_isSome some
        · apply Banned.of_bansOf
          rw [keeps r mem]
          exact (h.banned r mem).bansOf

/-- **Every step** in which no member lifts its own bans. -/
theorem step (h : Family tasks mask family) {ban : Char} (known : banCharToMask ban = some mask) {act : Act ι}
    (step : Step tasks act tasks')
    (honest : ∀ p root g q k, act = .setBan p root g q k → p ∈ family → (sysSetBan p root g q k tasks).1 ≠ 0) :
    Family tasks' mask (act.offspring family) := by
  cases step with
  | fork alive fresh => exact h.fork fresh alive
  | exit alive ancestor other => exact h.exit ancestor other
  | setBan root g q k alive => exact h.setBan (honest _ root g q k rfl)
  | getBan ban alive => exact h
  | checkBan pid ban alive => exact h
  | flip height ban' alive => exact h.flip known height ban'

end Family

/-! ## Runs -/

/-- A run in which no member of the family or its offspring makes a successful `sys_set_ban`.
It ends with the surviving members and everything forked from them. -/
inductive Run (tasks : Tasks ι) (family : Set ι) : Tasks ι → Set ι → Prop where
  | refl : Run tasks family tasks family
  | step {tasks' tasks'' : Tasks ι} {family' : Set ι} {act : Act ι} (run : Run tasks family tasks' family')
      (step : Step tasks' act tasks'')
      (honest : ∀ p root g q k, act = .setBan p root g q k → p ∈ family' → (sysSetBan p root g q k tasks').1 ≠ 0) :
      Run tasks family tasks'' (act.offspring family')

/-- **Bans cannot be escaped from inside.** -/
theorem bans_not_escaped {ban : Char} (known : banCharToMask ban = some mask) (linked : Linked tasks)
    (closed : ∀ c a, Ancestor tasks c a → a ∈ family → c ∈ family) (banned : ∀ p ∈ family, Banned tasks mask p)
    {family' : Set ι} (run : Run tasks family tasks' family') : ∀ p ∈ family', Banned tasks' mask p := by
  have start : Family tasks mask family := ⟨linked, fun c p parent => closed c p (.single parent), banned⟩
  have final : Family tasks' mask family' := by
    induction run with
    | refl => exact start
    | step run step honest ih => exact ih.step known step honest
  exact final.banned

/-- A banned process and its child, under a root that is not banned: the child tries to lift
the ban of its parent, and the parent exits. -/
theorem bans_not_escaped_child : ∃ (tasks tasks' : Tasks (Fin 4)) (family' : Set (Fin 4)),
    Run tasks {1} tasks' family' ∧ 2 ∈ family' ∧ ∀ p ∈ family', Banned tasks' 0x04 p := by
  let tasks : Tasks (Fin 4) := fun p => if p = 0 then some ⟨0, some 0⟩ else if p = 1 then some ⟨4, some 0⟩ else none
  have parents : ∀ c p, ParentOf tasks c p → p = 0 := by
    unfold ParentOf
    decide
  have top : ∀ c a, Ancestor tasks c a → a = 0 := by
    intro c a ancestor
    cases ancestor with
    | single parent => exact parents _ _ parent
    | tail _ parent => exact parents _ _ parent
  have run₀ : Run tasks {1} tasks {1} := .refl
  have run₁ := run₀.step (.fork (p := 1) (c := 2) rfl rfl) fun _ _ _ _ _ e => nomatch e
  have run₂ := run₁.step (.flip (p := 2) 1 'k' rfl) fun _ _ _ _ _ e => nomatch e
  have run₃ := run₂.step (.exit (p := 1) (a := 0) (by decide) (.single (by unfold ParentOf; decide)) (by decide))
    fun _ _ _ _ _ e => nomatch e
  refine ⟨tasks, _, _, run₃, ?_, bans_not_escaped (rfl : banCharToMask 'k' = some 0x04) ?_ ?_ ?_ run₃⟩
  · exact ⟨.inr ⟨rfl, rfl⟩, by decide⟩
  · intro c p parent
    rw [parents c p parent]
    rfl
  · intro c a ancestor mem
    rw [top c a ancestor] at mem
    exact absurd mem (by decide)
  · intro p mem
    obtain rfl : p = 1 := mem
    exact ⟨_, rfl, by decide⟩

end OsProjects.Kernel
