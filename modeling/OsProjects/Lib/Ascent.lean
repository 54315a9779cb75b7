import Mathlib.Data.List.Chain
import Mathlib.Data.List.Nodup
import Mathlib.Logic.Relation

/-!
# Going up to a fixed point

A relation that leads from a point to at most one other, as parents do, and the points passed
on the way to the first one that leads to itself. Such a way does not come back to a point, so
it has exactly the points above its start, and none twice.
-/

namespace OsProjects.Ascent

open Relation

variable {α : Type*} {up : α → α → Prop} {p q a : α} {l m : List α}

/-- The points above `p` in order, without the fixed point that they lead to. -/
inductive Line (up : α → α → Prop) : α → List α → Prop where
  | top {p r : α} (step : up p r) (fixed : up r r) : Line up p []
  | step {p q : α} {l : List α} (step : up p q) (moves : ¬up q q) (rest : Line up q l) : Line up p (q :: l)

/-- Where a fixed point can be reached there is a line. -/
theorem exists_line {r : α} (reach : ReflTransGen up p r) (fixed : up r r) : ∃ l, Line up p l := by
  induction reach using ReflTransGen.head_induction_on with
  | refl => exact ⟨[], .top fixed fixed⟩
  | @head p q step _ ih =>
    by_cases moves : up q q
    · exact ⟨[], .top step moves⟩
    · obtain ⟨l, line⟩ := ih
      exact ⟨q :: l, .step step moves line⟩

/-- From a fixed point there is no way up. -/
theorem eq_of_fixed {r : α} (functional : ∀ a b c, up a b → up a c → b = c) (fixed : up r r) (reach : ReflTransGen up r a) : a = r := by
  induction reach with
  | refl => rfl
  | tail _ step ih =>
    rw [ih] at step
    exact functional _ _ _ step fixed

namespace Line

theorem chain (line : Line up p l) : (p :: l).IsChain up := by
  induction line with
  | top => simp
  | step step _ _ ih => exact List.isChain_cons_cons.mpr ⟨step, ih⟩

/-- The rest of a line is the line of the point where it starts. -/
theorem suffix (line : Line up p (m ++ a :: l)) : Line up a l := by
  induction m generalizing p with
  | nil =>
    cases line with
    | step _ _ rest => exact rest
  | cons q m ih =>
    cases line with
    | step _ _ rest => exact ih rest

variable (functional : ∀ a b c, up a b → up a c → b = c)
include functional

theorem unique (line : Line up p l) (line' : Line up p m) : l = m := by
  induction line generalizing m with
  | top step fixed =>
    cases line' with
    | top => rfl
    | step step' moves _ =>
      obtain rfl := functional _ _ _ step step'
      exact absurd fixed moves
  | step step moves _ ih =>
    cases line' with
    | top step' fixed =>
      obtain rfl := functional _ _ _ step step'
      exact absurd fixed moves
    | step step' _ rest =>
      obtain rfl := functional _ _ _ step step'
      rw [ih rest]

/-- A line does not come back to its start. -/
theorem notMem (line : Line up p l) : p ∉ l := by
  intro mem
  obtain ⟨m, rest, rfl⟩ := List.append_of_mem mem
  have again := line.unique functional line.suffix
  have size := congrArg List.length again
  simp at size
  omega

theorem nodup (line : Line up p l) : l.Nodup := by
  induction line with
  | top => exact List.nodup_nil
  | step _ _ rest ih => exact List.nodup_cons.mpr ⟨rest.notMem functional, ih⟩

/-- **The points on a line** are those above its start that lead on. -/
theorem mem_iff (line : Line up p l) : a ∈ l ↔ TransGen up p a ∧ ¬up a a := by
  induction line with
  | @top p r step fixed =>
    simp only [List.not_mem_nil, false_iff, not_and, not_not]
    intro above
    have only : ∀ b, TransGen up p b → b = r := by
      intro b above
      induction above with
      | single step' => exact functional _ _ _ step' step
      | tail _ step' ih =>
        rw [ih] at step'
        exact functional _ _ _ step' fixed
    rw [only a above]
    exact fixed
  | @step p q l step moves rest ih =>
    rw [List.mem_cons, ih]
    constructor
    · rintro (rfl | ⟨above, leads⟩)
      · exact ⟨.single step, moves⟩
      · exact ⟨.head step above, leads⟩
    · intro ⟨above, leads⟩
      rcases TransGen.head'_iff.mp above with ⟨b, step', above⟩
      obtain rfl := functional _ _ _ step step'
      rcases ReflTransGen.cases_head_iff.mp above with rfl | ⟨c, step'', above⟩
      · exact .inl rfl
      · exact .inr ⟨TransGen.head' step'' above, leads⟩

end Line

end OsProjects.Ascent
