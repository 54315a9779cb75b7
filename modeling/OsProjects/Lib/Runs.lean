import Mathlib.Logic.Relation

/-!
# Runs

Sequences of steps of a relation: what every step keeps, and runs that come to an end.
-/

namespace OsProjects.Runs

open Relation

variable {α : Type*} {r : α → α → Prop} {I : α → Prop} {a b : α}

/-- What every step keeps holds at the end of a run. -/
theorem keeps (step : ∀ a b, I a → r a b → I b) (run : ReflTransGen r a b) (start : I a) : I b := by
  induction run with
  | refl => exact start
  | tail _ last ih => exact step _ _ ih last

/-- Steps that keep `I` and lower a measure come to an end. -/
theorem acc_of_decreasing {m : α → Nat} (step : ∀ a b, I a → r a b → I b ∧ m b < m a) (start : I a) :
    Acc (flip r) a := by
  induction left : m a using Nat.strongRecOn generalizing a with
  | ind n ih =>
    subst left
    apply Acc.intro
    intro b next
    obtain ⟨kept, less⟩ := step a b start next
    exact ih (m b) less kept rfl

/-- A run that has to end reaches a place from which there is no step. -/
theorem exists_end (ends : Acc (flip r) a) : ∃ b, ReflTransGen r a b ∧ ∀ c, ¬r b c := by
  induction ends with
  | intro a _ ih =>
    by_cases more : ∃ b, r a b
    · obtain ⟨b, next⟩ := more
      obtain ⟨c, run, last⟩ := ih b next
      exact ⟨c, .head next run, last⟩
    · exact ⟨a, .refl, not_exists.mp more⟩

end OsProjects.Runs
