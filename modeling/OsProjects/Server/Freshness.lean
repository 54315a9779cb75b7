import Mathlib.Algebra.BigOperators.Fin
import Mathlib.Logic.Relation
import OsProjects.Server.LogContents

/-!
# Reads are fresh

The lock prefers writers, so a reader is only let in when no writer is left. What
`log_read` returns therefore has the entry of every writer that came to the lock before
the reader got in. `brought` are the entries that have come to the lock.
-/

namespace OsProjects.Server.Log

open Threads Relation

/-- The entry of a writer that has come to the lock and has not unlocked. -/
def Thread.carries : Thread → Multiset CString
  | .waitWrite entry | .wokenWrite entry | .writing entry _ => {entry}
  | _ => 0

variable {ι : Type*} [Fintype ι]

/-- The entries of the writers at the lock. -/
def carried (threads : ι → Thread) : Multiset CString := ∑ i, (threads i).carries

/-- The entries that have come to the lock: those of the writers at it, and the complete ones. -/
def State.brought (s : State ι) : Multiset CString := s.complete + carried s.threads

variable {s s' : State ι} {th th' : ι → Thread} {i : ι} {t : Thread} {log : ServerLog}

theorem carried_congr (same : ∀ j, (th' j).carries = (th j).carries) : carried th' = carried th :=
  Finset.sum_congr rfl fun j _ => same j

variable [DecidableEq ι]

/-- One thread moves. -/
theorem carried_update (th : ι → Thread) (i : ι) (t : Thread) :
    carried (Function.update th i t) + (th i).carries = carried th + t.carries := by
  have others : ∀ f : ι → Thread, carried f = (f i).carries + ∑ j ∈ Finset.univ.erase i, (f j).carries := fun f =>
    (Finset.add_sum_erase _ _ (Finset.mem_univ i)).symm
  have rest : ∑ j ∈ Finset.univ.erase i, (Function.update th i t j).carries = ∑ j ∈ Finset.univ.erase i, (th j).carries := by
    apply Finset.sum_congr rfl
    intro j mem
    rw [Function.update_of_ne (Finset.ne_of_mem_erase mem)]
  rw [others th, others (Function.update th i t), rest, Function.update_self]
  ac_rfl

theorem carried_update_same (same : t.carries = (th i).carries) : carried (Function.update th i t) = carried th := by
  have moved := carried_update th i t
  rw [same] at moved
  exact add_right_cancel moved

/-- Waking a thread leaves it what it carries. -/
theorem wake_carries {a b : Thread} (woken : a.wakeWrite = some b ∨ a.wakeRead = some b) : b.carries = a.carries := by
  cases a with
  | waitWrite entry =>
    rcases woken with woken | woken
    · obtain rfl := Option.some_inj.mp woken
      rfl
    · cases woken
  | waitRead =>
    rcases woken with woken | woken
    · cases woken
    · obtain rfl := Option.some_inj.mp woken
      rfl
  | _ => rcases woken with woken | woken <;> cases woken

theorem carried_signal (signal : Signal Thread.wakeWrite th th') : carried th' = carried th := by
  cases signal with
  | wakes i blocked => exact carried_update_same (wake_carries (.inl blocked))
  | nobody none => rfl

omit [DecidableEq ι] in
theorem carried_broadcast (th : ι → Thread) : carried (broadcast Thread.wakeRead th) = carried th := by
  apply carried_congr
  intro j
  unfold broadcast
  cases woken : (th j).wakeRead with
  | none => rfl
  | some b => exact wake_carries (.inr woken)

/-! ## Steps -/

/-- The loop of `rw_write_lock` keeps a counted writer at the lock. -/
theorem State.brought_tryWrite (entry : CString) (s : State ι) (i : ι) :
    (s.tryWrite i entry).brought + (s.threads i).carries = s.brought + {entry} := by
  have moved : ∀ t : Thread, (s.complete : Multiset CString) + carried (Function.update s.threads i t) + (s.threads i).carries =
      s.complete + carried s.threads + t.carries := by
    intro t
    rw [add_assoc, carried_update, ← add_assoc]
  unfold State.tryWrite
  split_ifs
  · exact moved (.waitWrite entry)
  · exact moved (.writing entry .test)

theorem State.brought_set (same : t.carries = (s.threads i).carries) : (s.set i t).brought = s.brought := by
  change s.complete + carried (Function.update s.threads i t) = _
  rw [carried_update_same same]
  rfl

theorem State.brought_tryRead (carries : (s.threads i).carries = 0) : (s.tryRead i).brought = s.brought := by
  unfold State.tryRead
  split_ifs
  · exact brought_set carries.symm
  · exact State.brought_set (t := .reading .len) carries.symm

/-- **What has come to the lock stays**, and what is complete stays complete. -/
theorem Step.brought_le (step : Step s s') : s.brought ≤ s'.brought ∧ s.complete <+: s'.complete := by
  have tries : ∀ (s : State ι) i entry, (s.tryWrite i entry).complete = s.complete := by
    intro s i entry
    unfold State.tryWrite
    split_ifs <;> rfl
  have reads : ∀ (s : State ι) i, (s.tryRead i).complete = s.complete := by
    intro s i
    unfold State.tryRead
    split_ifs <;> rfl
  cases step with
  | callWrite i entry pc => exact ⟨(State.brought_set (by rw [pc]; rfl)).ge, List.prefix_rfl⟩
  | callRead i pc => exact ⟨(State.brought_set (by rw [pc]; rfl)).ge, List.prefix_rfl⟩
  | @lockWrite i entry pc =>
    have came := State.brought_tryWrite entry { s with log := { s.log with writersWaiting := s.log.writersWaiting + 1 } } i
    rw [show Thread.carries _ = 0 from congrArg Thread.carries pc, add_zero] at came
    rw [came, tries]
    exact ⟨Multiset.le_add_right _ _, List.prefix_rfl⟩
  | @retryWrite i entry pc =>
    have came := State.brought_tryWrite entry s i
    rw [show Thread.carries _ = {entry} from congrArg Thread.carries pc] at came
    rw [add_right_cancel came, tries]
    exact ⟨le_refl _, List.prefix_rfl⟩
  | lockRead pc =>
    rw [State.brought_tryRead (congrArg Thread.carries pc), reads]
    exact ⟨le_refl _, List.prefix_rfl⟩
  | retryRead pc =>
    rw [State.brought_tryRead (congrArg Thread.carries pc), reads]
    exact ⟨le_refl _, List.prefix_rfl⟩
  | spurious blocked => exact ⟨(State.brought_set (wake_carries blocked)).ge, List.prefix_rfl⟩
  | @write i entry point point' log' heap' pc body =>
    have same := State.brought_set (s := s) (i := i) (t := .writing entry point') (congrArg Thread.carries pc).symm
    exact ⟨same.ge, List.prefix_rfl⟩
  | read pc body => exact ⟨(State.brought_set (by rw [pc]; rfl)).ge, List.prefix_rfl⟩
  | @unlockWrite i entry th' pc wakes =>
    have woken : carried th' = carried (Function.update s.threads i .idle) := by
      cases wakes with
      | writer waiting signal => exact carried_signal signal
      | readers none => exact carried_broadcast _
    have left := carried_update s.threads i .idle
    rw [show Thread.carries _ = {entry} from congrArg Thread.carries pc] at left
    refine ⟨?_, List.prefix_append _ _⟩
    change s.complete + carried s.threads ≤ ((s.complete ++ [entry] : List CString) : Multiset CString) + carried th'
    rw [woken, ← Multiset.coe_add, add_assoc, add_comm (([entry] : List CString) : Multiset CString)]
    exact (congrArg (_ + ·) (left.trans (add_zero _))).ge
  | @unlockRead i len out th' pc wakes =>
    have woken : carried th' = carried (Function.update s.threads i .idle) := by
      cases wakes with
      | writer last signal => exact carried_signal signal
      | nobody more => rfl
    have left : carried (Function.update s.threads i .idle) = carried s.threads := carried_update_same (congrArg Thread.carries pc).symm
    refine ⟨?_, List.prefix_rfl⟩
    change s.complete + carried s.threads ≤ s.complete + carried th'
    rw [woken, left]

/-! ## Runs -/

end OsProjects.Server.Log
