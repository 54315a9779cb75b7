import Mathlib.Data.Fintype.Card
import Mathlib.Logic.Function.Basic

/-!
# Threads and condition variables

Finitely many threads with a local state each, as a function `th : ι → α`. `number` counts
the threads in a given role, and the lemmas say how the counts move when one thread
takes a step. A condition variable is given by `wake`: what waking a thread that is
blocked on it does to its local state, `none` for every other thread.
-/

namespace OsProjects.Threads

variable {ι α ρ : Type*}

/-! ## Condition variables -/

/-- `signal`: one blocked thread is woken, if there is one. -/
inductive Signal [DecidableEq ι] (wake : α → Option α) (th : ι → α) : (ι → α) → Prop where
  | wakes (i : ι) {a : α} (blocked : wake (th i) = some a) : Signal wake th (Function.update th i a)
  | nobody (none : ∀ i, wake (th i) = none) : Signal wake th th

/-- `broadcast`: every blocked thread is woken. -/
def broadcast (wake : α → Option α) (th : ι → α) : ι → α := fun i => (wake (th i)).getD (th i)

/-! ## Counting -/

variable [Fintype ι] [DecidableEq ρ] {role : α → ρ} {th th' : ι → α} {i : ι} {r r' : ρ}

/-- The number of threads in role `r`. -/
def number (role : α → ρ) (th : ι → α) (r : ρ) : Nat := (Finset.univ.filter fun i => role (th i) = r).card

theorem number_pos_iff : 0 < number role th r ↔ ∃ i, role (th i) = r := by
  simp only [number, Finset.card_pos, Finset.Nonempty, Finset.mem_filter, Finset.mem_univ, true_and]

theorem number_pos (h : role (th i) = r) : 0 < number role th r := number_pos_iff.mpr ⟨i, h⟩

/-- At most one thread in a role: two that are in it are one. -/
theorem eq_of_number_le_one (le : number role th r ≤ 1) {j : ι} (hi : role (th i) = r) (hj : role (th j) = r) :
    i = j := by
  apply Finset.card_le_one.mp le
  · exact Finset.mem_filter.mpr ⟨Finset.mem_univ i, hi⟩
  · exact Finset.mem_filter.mpr ⟨Finset.mem_univ j, hj⟩

theorem number_broadcast {wake : α → Option α} (keeps : ∀ a b, wake a = some b → (role b = r ↔ role a = r)) :
    number role (broadcast wake th) r = number role th r := by
  unfold number
  apply congrArg
  apply Finset.filter_congr
  intro i _
  unfold broadcast
  cases woken : wake (th i) with
  | none => rfl
  | some b => exact keeps _ _ woken

variable [DecidableEq ι]

/-- **A step of one thread** takes it out of its old role and into its new one. -/
theorem number_update (role : α → ρ) (th : ι → α) (i : ι) (a : α) (r : ρ) :
    number role (Function.update th i a) r + (if role (th i) = r then 1 else 0) =
      number role th r + if role a = r then 1 else 0 := by
  have others : ∀ f : ι → α, (∀ j, j ≠ i → f j = th j) →
      number role f r = ((Finset.univ.erase i).filter fun j => role (th j) = r).card +
        if role (f i) = r then 1 else 0 := by
    intro f same
    unfold number
    rw [← Finset.insert_erase (Finset.mem_univ i), Finset.filter_insert, Finset.erase_insert (Finset.notMem_erase i _)]
    have rest : ((Finset.univ.erase i).filter fun j => role (f j) = r) =
        (Finset.univ.erase i).filter fun j => role (th j) = r := by
      apply Finset.filter_congr
      intro j hj
      rw [same j (Finset.ne_of_mem_erase hj)]
    rw [rest]
    split_ifs with e
    · rw [Finset.card_insert_of_notMem fun h => Finset.notMem_erase i _ (Finset.mem_of_mem_filter i h)]
    · rfl
  have before := others th fun _ _ => rfl
  have after := others (Function.update th i a) fun j ne => Function.update_of_ne ne a th
  rw [Function.update_self] at after
  omega

end OsProjects.Threads
