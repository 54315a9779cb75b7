import Mathlib.Logic.Function.Basic
import Mathlib.Tactic.Common

/-!
# File descriptors

The table of a process says what its descriptors stand for. `close` and `dup2` change it,
`fork` copies it. Whether somebody still has an end of a pipe is a question about all the
tables there are; `stages` are the tables that a process goes through while it makes
a list of calls.
-/

namespace OsProjects.Descriptors

variable {φ : Type*}

/-- The open descriptors of a process. -/
abbrev Table (φ : Type*) := Nat → Option φ

/-- No descriptor is open. -/
def Table.empty : Table φ := fun _ => none

/-- Some descriptor stands for the file. -/
def Table.Holds (t : Table φ) (file : φ) : Prop := ∃ fd, t fd = some file

inductive Call where
  | close (fd : Nat)
  | dup2 (old new : Nat)

/-- The table after a call that succeeds. -/
def Call.apply (t : Table φ) : Call → Table φ
  | .close fd => Function.update t fd none
  | .dup2 old new => Function.update t new (t old)

/-- The tables before, between and after the calls, with the calls still to make. -/
def stages (t : Table φ) : List Call → List (Table φ × List Call)
  | [] => [(t, [])]
  | c :: calls => (t, c :: calls) :: stages (c.apply t) calls

variable {t t' : Table φ} {file : φ} {fd : Nat} {c : Call} {calls todo : List Call}

theorem not_holds_empty : ¬(Table.empty : Table φ).Holds file := by
  intro held
  obtain ⟨fd, found⟩ := held
  cases found

theorem mem_stages_self : (t, calls) ∈ stages t calls := by
  cases calls with
  | nil => exact List.mem_singleton_self _
  | cons c calls => exact List.mem_cons_self

/-- A call takes a process to its next stage. -/
theorem mem_stages_apply (mem : (t', c :: todo) ∈ stages t calls) : (c.apply t', todo) ∈ stages t calls := by
  induction calls generalizing t with
  | nil => cases List.mem_singleton.mp mem
  | cons d calls ih =>
    unfold stages at mem ⊢
    rcases List.mem_cons.mp mem with here | later
    · cases here
      exact List.mem_cons_of_mem _ mem_stages_self
    · exact List.mem_cons_of_mem _ (ih later)

/-! ## Moving an end of a pipe -/

/-- Closing the end at `x` and moving the one at `y` to `d`, where a command looks for it. -/
def moveEnd (x y d : Nat) : List Call := [.close x, .dup2 y d, .close y]

section MoveEnd

variable {x y d : Nat}

theorem update_keeps (xy : x ≠ y) (found : t y = some file) : Function.update t x none y = some file := by
  rw [Function.update_of_ne xy.symm]
  exact found

/-- The end that is moved is there at every stage. -/
theorem moveEnd_holds (xy : x ≠ y) (dy : d ≠ y) (found : t y = some file) (mem : (t', todo) ∈ stages t (moveEnd x y d)) :
    t'.Holds file := by
  have kept := update_keeps xy found
  simp only [moveEnd, stages, Call.apply, List.mem_cons, Prod.mk.injEq, List.not_mem_nil, or_false] at mem
  rcases mem with ⟨rfl, -⟩ | ⟨rfl, -⟩ | ⟨rfl, -⟩ | ⟨rfl, -⟩
  · exact ⟨y, found⟩
  · exact ⟨y, kept⟩
  · exact ⟨d, (Function.update_self _ _ _).trans kept⟩
  · refine ⟨d, ?_⟩
    rw [Function.update_of_ne dy, Function.update_self]
    exact kept

/-- In the end `d` has the end that was moved, and the other one is gone. -/
theorem moveEnd_ready {other : φ} (xy : x ≠ y) (dy : d ≠ y) (found : t y = some file) (only : ∀ k, t k = some other → k = x)
    (differs : file ≠ other) (mem : (t', []) ∈ stages t (moveEnd x y d)) : t' d = some file ∧ ¬t'.Holds other := by
  have kept := update_keeps xy found
  simp only [moveEnd, stages, Call.apply, List.mem_cons, Prod.mk.injEq, List.not_mem_nil, reduceCtorEq, and_false,
    false_or, or_false, and_true] at mem
  subst mem
  constructor
  · rw [Function.update_of_ne dy, Function.update_self]
    exact kept
  · intro held
    obtain ⟨k, here⟩ := held
    by_cases ky : k = y
    · rw [ky, Function.update_self] at here
      cases here
    · rw [Function.update_of_ne ky] at here
      by_cases kd : k = d
      · rw [kd, Function.update_self, kept] at here
        exact differs (Option.some_inj.mp here)
      · rw [Function.update_of_ne kd] at here
        by_cases kx : k = x
        · rw [kx, Function.update_self] at here
          cases here
        · rw [Function.update_of_ne kx] at here
          exact kx (only k here)

end MoveEnd

end OsProjects.Descriptors
