import Mathlib.Algebra.Ring.Parity
import OsProjects.Kernel.Tree

/-!
# The bans of a process by its history

A ban of a process changes for two reasons: the process sets its bans anew, or a process
below flips the ban. Between two settings the ban is the one at first, inverted by every
call that was let through and reached the process. Who else comes, goes or calls in between
does not matter.
-/

namespace OsProjects.Kernel

open Ascent Relation

variable {ι : Type*} [DecidableEq ι] {tasks tasks' tasks'' : Tasks ι} {act : Act ι} {mask : BitVec 8} {p q : ι} {l : List ι}
  {history : List (Tasks ι × Act ι)}

/-- A run with what was done in it, each act with the tasks before it. -/
inductive Trace (tasks : Tasks ι) : List (Tasks ι × Act ι) → Tasks ι → Prop where
  | nil : Trace tasks [] tasks
  | snoc {history : List (Tasks ι × Act ι)} {tasks' tasks'' : Tasks ι} {act : Act ι} (trace : Trace tasks history tasks')
      (step : Step tasks' act tasks'') : Trace tasks (history ++ [(tasks', act)]) tasks''

/-- `q` is one of the first `height` ancestors of `p`, and not the root. -/
def within (tasks : Tasks ι) (p : ι) (height : Int) (q : ι) : Prop :=
  (∃ n < height.toNat, generation tasks (n + 1) p = some q) ∧ (tasks q).bind Task.realParent ≠ some q

instance (tasks : Tasks ι) (p : ι) (height : Int) (q : ι) : Decidable (within tasks p height q) :=
  inferInstanceAs (Decidable (_ ∧ _))

/-- The act is a call that is let through and flips this ban of `q`. -/
def inverts (mask : BitVec 8) (q : ι) : Tasks ι × Act ι → Bool
  | (tasks, .flip p height ban) =>
    banCharToMask ban = some mask ∧ refusal height ban (bansOf tasks p) = none ∧ within tasks p height q
  | _ => false

/-- The act is neither the exit of `q` nor a successful `sys_set_ban` of `q`. -/
def Spares (q : ι) : Tasks ι × Act ι → Prop
  | (_, .exit p _) => p ≠ q
  | (tasks, .setBan p root g k m) => p = q → (sysSetBan p root g k m tasks).1 ≠ 0
  | _ => True

omit [DecidableEq ι] in
/-- The first processes of a line are the first ancestors. -/
theorem mem_take_line (line : Line (ParentOf tasks) p l) (k : Nat) :
    q ∈ l.take k ↔ (∃ n < k, generation tasks (n + 1) p = some q) ∧ ¬ParentOf tasks q q := by
  rw [List.mem_iff_getElem?]
  constructor
  · rintro ⟨n, found⟩
    rw [List.getElem?_take] at found
    split_ifs at found with inside
    obtain ⟨above, leads⟩ := (getElem_line line n).mp found
    exact ⟨⟨n, inside, above⟩, leads⟩
  · rintro ⟨⟨n, inside, above⟩, leads⟩
    refine ⟨n, ?_⟩
    rw [List.getElem?_take, if_pos inside]
    exact (getElem_line line n).mpr ⟨above, leads⟩

omit [DecidableEq ι] in
theorem mem_reached_iff (line : Line (ParentOf tasks) p l) {height : Int} {ban : Char} :
    q ∈ reached l height ban (bansOf tasks p) ↔ refusal height ban (bansOf tasks p) = none ∧ within tasks p height q := by
  unfold reached within
  rw [← Option.not_isSome_iff_eq_none]
  split_ifs with refused
  · simp [refused]
  · rw [mem_take_line line]
    simp only [refused, Bool.false_eq_true, not_false_eq_true, true_and]
    rfl

/-- **One act**: it inverts the ban of `q` or leaves it as it is. -/
theorem ban_step (rooted : Rooted tasks) {ban : Char} (known : (ban, mask) ∈ banBits) (alive : (tasks q).isSome)
    (step : Step tasks act tasks') (spares : Spares q (tasks, act)) :
    (tasks' q).isSome ∧
      (bansOf tasks' q &&& mask ≠ 0 ↔ Xor (bansOf tasks q &&& mask ≠ 0) (inverts mask q (tasks, act) = true)) := by
  have same : ∀ b : BitVec 8, b &&& mask ≠ 0 ↔ Xor (b &&& mask ≠ 0) (false = true) := by simp [Xor]
  cases step with
  | @fork p c parent fresh =>
    have old : q ≠ c := by
      rintro rfl
      rw [fresh] at alive
      cases alive
    refine ⟨?_, ?_⟩
    · unfold fork
      rwa [Function.update_of_ne old]
    · rw [bansOf_fork parent, if_neg old]
      exact same _
  | @exit p a _ _ _ =>
    have stays : q ≠ p := fun e => spares e.symm
    refine ⟨?_, ?_⟩
    · unfold exit
      rwa [if_neg stays, Option.isSome_map]
    · rw [bansOf_exit, if_neg stays]
      exact same _
  | @setBan p root g k m caller =>
    refine ⟨by rwa [isSome_sysSetBan], ?_⟩
    by_cases done : (sysSetBan p root g k m tasks).1 = 0
    · have other : q ≠ p := fun e => spares e.symm done
      rw [sysSetBan_granted caller done, if_neg other]
      exact same _
    · rw [sysSetBan_refused done]
      exact same _
  | getBan ban' _ => exact ⟨alive, same _⟩
  | checkBan pid ban' _ => exact ⟨alive, same _⟩
  | @flip p height ban' caller =>
    obtain ⟨l, line⟩ := rooted.exists_line caller
    obtain ⟨after, -⟩ := sysFlipBanBranch_eq line height ban'
    refine ⟨by rwa [after, isSome_flipped], ?_⟩
    have masked := banCharToMask_iff.mpr known
    rw [after]
    simp only [inverts, decide_eq_true_eq, ← mem_reached_iff line]
    by_cases mem : q ∈ reached l height ban' (bansOf tasks p)
    · rw [bansOf_flipped_mem mem alive]
      by_cases own : banCharToMask ban' = some mask
      · rw [own, Option.getD_some]
        simp only [flip_sets known, mem, and_self, Xor, not_true, and_false, true_and, false_or, ne_eq, not_not]
      · -- the call is about another ban
        have apart : (bansOf tasks q ^^^ (banCharToMask ban').getD 0) &&& mask = bansOf tasks q &&& mask := by
          cases masked' : banCharToMask ban' with
          | none => simp
          | some other =>
            apply masks_apart masked' masked
            rintro rfl
            exact own masked'
        rw [apart]
        simp [own, Xor]
    · rw [bansOf_flipped mem]
      simp [mem, Xor]

/-- **The ban of a process after any run** in which it neither exits nor sets its bans: the ban at first, inverted once for every call
that was let through and had the process among its first `height` ancestors. -/
theorem ban_parity {ban : Char} (known : (ban, mask) ∈ banBits) (rooted : Rooted tasks) (alive : (tasks q).isSome)
    (trace : Trace tasks history tasks') (spares : ∀ done ∈ history, Spares q done) :
    bansOf tasks' q &&& mask ≠ 0 ↔ Xor (bansOf tasks q &&& mask ≠ 0) (Odd (history.countP (inverts mask q))) := by
  suffices h : Rooted tasks' ∧ (tasks' q).isSome ∧
      (bansOf tasks' q &&& mask ≠ 0 ↔ Xor (bansOf tasks q &&& mask ≠ 0) (Odd (history.countP (inverts mask q)))) from h.2.2
  induction trace with
  | nil => exact ⟨rooted, alive, by simp [Xor]⟩
  | @snoc history tasks' tasks'' act trace step ih =>
    obtain ⟨rooted', alive', before⟩ := ih fun done mem => spares done (List.mem_append_left _ mem)
    obtain ⟨alive'', now⟩ := ban_step rooted' known alive' step (spares _ (List.mem_append_right _ (List.mem_singleton_self _)))
    refine ⟨rooted'.step step, alive'', ?_⟩
    rw [now, before, List.countP_append, List.countP_singleton]
    cases inverts mask q (tasks', act) with
    | false => simp [Xor]
    | true =>
      rw [if_pos rfl, Nat.odd_add_one]
      simp only [Xor]
      tauto

/-- Two children flip the same ban of `init`; one of them exits in between. -/
theorem ban_parity_sample : ∃ history tasks', Trace sampleTree history tasks' ∧ history.countP (inverts 0x02 1) = 2 ∧
    (bansOf tasks' 1 &&& 0x02 ≠ 0 ↔ Xor (bansOf sampleTree 1 &&& 0x02 ≠ 0) (Odd (history.countP (inverts 0x02 1)))) := by
  have first : Trace sampleTree _ _ := .snoc .nil (.flip (p := 2) 5 'p' rfl)
  have second := first.snoc (.exit (p := 2) (a := 1) rfl (.single (by unfold ParentOf; decide)) (by decide))
  have third := second.snoc (.flip (p := 3) 1 'p' rfl)
  refine ⟨_, _, third, by decide, ban_parity (by decide : ('p', (0x02 : BitVec 8)) ∈ banBits) sampleTree_rooted rfl third ?_⟩
  intro done mem
  simp only [List.nil_append, List.cons_append, List.mem_cons, List.not_mem_nil, or_false] at mem
  rcases mem with rfl | rfl | rfl
  · trivial
  · exact (by decide : (2 : Nat) ≠ 1)
  · trivial

end OsProjects.Kernel
