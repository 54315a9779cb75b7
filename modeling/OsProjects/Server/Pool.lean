import OsProjects.Lib.Threads
import OsProjects.Server.Queue

/-!
# The master and its workers

`queue_push` and `queue_pop` with their waits. The master is the only thread that waits on
`not_full`, the workers wait on `not_empty`. A critical section is one step, up to the wait
in its loop; a woken thread has to take the mutex and to test its condition again, and any
thread may have been in before it. `PoolInv` counts the wake-ups under way against the
items in the queue.
-/

namespace OsProjects.Server

open Threads

/-- Where the master is, with the connection it accepted. -/
inductive Master where
  | accepting
  | pushing (item : QueueItem)
  | waiting (item : QueueItem)
  | woken (item : QueueItem)

/-- Where a worker is. It is `outside` before its first `queue_pop` and while it handles a request. -/
inductive Worker where
  | outside
  | popping
  | waiting
  | woken
  deriving DecidableEq

/-- Waking on `not_full`. -/
def Master.wake : Master → Option Master
  | .waiting item => some (.woken item)
  | _ => none

/-- Waking on `not_empty`. -/
def Worker.wake : Worker → Option Worker
  | .waiting => some .woken
  | _ => none

/-- `Pthread_cond_signal(&q->not_full)`: the master is woken if it waits. -/
def Master.signalled (m : Master) : Master := m.wake.getD m

structure Pool (ι : Type*) extends Dispatch ι where
  master : Master
  workers : ι → Worker

variable {ι : Type*} [DecidableEq ι]

/-- `queue_push` with the mutex held, up to its wait or its end. -/
inductive Pool.Push (s : Pool ι) (item : QueueItem) : Pool ι → Prop where
  | waits (full : queuePush item.connfd item.arrival s.queue = none) : Push s item { s with master := .waiting item }
  | pushes {q' : ReqQueue} {workers' : ι → Worker} (run : queuePush item.connfd item.arrival s.queue = some q')
      (signal : Signal Worker.wake s.workers workers') :
      Push s item ⟨{ s.toDispatch with queue := q', pushed := s.pushed ++ [item] }, .accepting, workers'⟩

/-- `queue_pop` with the mutex held, up to its wait or its end. -/
inductive Pool.Pop (s : Pool ι) (i : ι) : Pool ι → Prop where
  | waits (empty : queuePop s.queue = none) : Pop s i { s with workers := Function.update s.workers i .waiting }
  | pops {q' : ReqQueue} {item : QueueItem} (run : queuePop s.queue = some (item, q')) :
      Pop s i ⟨{ s.toDispatch with queue := q', popped := s.popped ++ [(i, item)] }, s.master.signalled,
        Function.update s.workers i .outside⟩

/-- One step of one thread. -/
inductive Pool.Step : Pool ι → Pool ι → Prop where
  | accept {s : Pool ι} (item : QueueItem) (pc : s.master = .accepting) : Step s { s with master := .pushing item }
  | push {s s' : Pool ι} {item : QueueItem} (pc : s.master = .pushing item) (body : Push s item s') : Step s s'
  | retryPush {s s' : Pool ι} {item : QueueItem} (pc : s.master = .woken item) (body : Push s item s') : Step s s'
  | callPop {s : Pool ι} (i : ι) (pc : s.workers i = .outside) :
      Step s { s with workers := Function.update s.workers i .popping }
  | pop {s s' : Pool ι} {i : ι} (pc : s.workers i = .popping) (body : Pop s i s') : Step s s'
  | retryPop {s s' : Pool ι} {i : ι} (pc : s.workers i = .woken) (body : Pop s i s') : Step s s'
  /-- A wake-up of the master without a signal. -/
  | spuriousMaster {s : Pool ι} {m : Master} (blocked : s.master.wake = some m) : Step s { s with master := m }
  /-- A wake-up of a worker without a signal. -/
  | spuriousWorker {s : Pool ι} {i : ι} {w : Worker} (blocked : (s.workers i).wake = some w) :
      Step s { s with workers := Function.update s.workers i w }

/-- The states reached after `queue_init`. -/
inductive Pool.Reachable (cap : Nat) : Pool ι → Prop where
  | start (items : Nat → QueueItem) : Reachable cap ⟨⟨queueInit items cap, [], []⟩, .accepting, fun _ => .outside⟩
  | step {s s' : Pool ι} (reach : Reachable cap s) (step : Step s s') : Reachable cap s'

/-! ## The queue alone -/

variable {s s' : Pool ι} {item : QueueItem} {i : ι} {cap : Nat}

/-- A step of the pool is a step of the queue or leaves the queue alone. -/
theorem Pool.Step.dispatch (step : Pool.Step s s') :
    Dispatch.Step s.toDispatch s'.toDispatch ∨ s'.toDispatch = s.toDispatch := by
  have push : ∀ {item}, Pool.Push s item s' → Dispatch.Step s.toDispatch s'.toDispatch ∨ s'.toDispatch = s.toDispatch := by
    intro item body
    cases body with
    | waits full => exact .inr rfl
    | pushes run signal => exact .inl (.push item.connfd item.arrival run)
  have pop : ∀ {i}, Pool.Pop s i s' → Dispatch.Step s.toDispatch s'.toDispatch ∨ s'.toDispatch = s.toDispatch := by
    intro i body
    cases body with
    | waits empty => exact .inr rfl
    | pops run => exact .inl (.pop i run)
  cases step with
  | push pc body => exact push body
  | retryPush pc body => exact push body
  | pop pc body => exact pop body
  | retryPop pc body => exact pop body
  | _ => exact .inr rfl

theorem Pool.Reachable.dispatch (reach : Pool.Reachable cap s) : Dispatch.Reachable cap s.toDispatch := by
  induction reach with
  | start items => exact .start items
  | step _ step ih =>
    rcases step.dispatch with queue | same
    · exact ih.step queue
    · rw [same]
      exact ih

/-! ## Wake-ups -/

variable [Fintype ι]

/-- The number of workers at a place. -/
def Pool.number (s : Pool ι) (w : Worker) : Nat := Threads.number id s.workers w

/-- Where a worker waits, every item has a woken worker; where the master waits, the queue is full. -/
structure PoolInv (s : Pool ι) : Prop where
  pending : 0 < s.number .waiting → s.queue.count ≤ s.number .woken
  full : ∀ item, s.master = .waiting item → s.queue.count = s.queue.cap

theorem queuePush_count {q q' : ReqQueue} {connfd : Int} {arr : Timeval} (run : queuePush connfd arr q = some q') :
    q'.count = q.count + 1 ∧ q'.cap = q.cap := by
  unfold queuePush at run
  split_ifs at run with full
  obtain rfl := Option.some_inj.mp run
  exact ⟨rfl, rfl⟩

theorem queuePush_none {q : ReqQueue} {connfd : Int} {arr : Timeval} (run : queuePush connfd arr q = none) :
    q.count = q.cap := by
  unfold queuePush at run
  split_ifs at run with full
  exact full

theorem queuePop_count {q q' : ReqQueue} {item : QueueItem} (run : queuePop q = some (item, q')) :
    q'.count + 1 = q.count ∧ q'.cap = q.cap := by
  unfold queuePop at run
  split_ifs at run with empty
  obtain ⟨rfl, rfl⟩ := Prod.mk.inj (Option.some_inj.mp run)
  exact ⟨Nat.succ_pred_eq_of_ne_zero empty, rfl⟩

theorem queuePop_none {q : ReqQueue} (run : queuePop q = none) : q.count = 0 := by
  unfold queuePop at run
  split_ifs at run with empty
  exact empty

theorem Master.signalled_ne_waiting (m : Master) (item : QueueItem) : m.signalled ≠ .waiting item := by
  cases m <;> exact fun e => nomatch e

theorem Worker.wake_eq {w w' : Worker} (woken : w.wake = some w') : w = .waiting ∧ w' = .woken := by
  cases w with
  | waiting => exact ⟨rfl, (Option.some_inj.mp woken).symm⟩
  | _ => exact nomatch woken

/-- The counts that matter after one worker moved from `w` to `w'`. -/
theorem number_moved (workers : ι → Worker) (i : ι) {w : Worker} (pc : workers i = w) (w' : Worker) (r : Worker) :
    Threads.number id (Function.update workers i w') r + (if w = r then 1 else 0) =
      Threads.number id workers r + if w' = r then 1 else 0 := by
  subst pc
  exact number_update id workers i w' r

/-- A signal on `not_empty`: if a worker waits afterwards, one was woken. -/
theorem number_signalled {workers workers' : ι → Worker} (signal : Signal Worker.wake workers workers') :
    0 < Threads.number id workers' .waiting → 0 < Threads.number id workers .waiting ∧
      Threads.number id workers' .woken = Threads.number id workers .woken + 1 := by
  intro waits
  cases signal with
  | @wakes i w blocked =>
    obtain ⟨old, rfl⟩ := Worker.wake_eq blocked
    have waiting := number_moved workers i old .woken .waiting
    have woken := number_moved workers i old .woken .woken
    simp only [reduceCtorEq, if_true, if_false] at waiting woken
    omega
  | nobody none =>
    obtain ⟨i, pc⟩ := number_pos_iff.mp waits
    have awake := none i
    rw [show workers i = .waiting from pc] at awake
    cases awake

namespace PoolInv

omit [DecidableEq ι] in
/-- Only the master moves, and not to its wait. -/
theorem setMaster (inv : PoolInv s) {m : Master} (awake : ∀ item, m ≠ .waiting item) : PoolInv { s with master := m } :=
  ⟨inv.pending, fun item pc => absurd pc (awake item)⟩

/-- **`queue_push`.** -/
theorem push (inv : PoolInv s) (body : Pool.Push s item s') : PoolInv s' := by
  cases body with
  | waits full => exact ⟨inv.pending, fun _ _ => queuePush_none full⟩
  | pushes run signal =>
    refine ⟨?_, fun _ pc => nomatch pc⟩
    intro waits
    obtain ⟨waited, woken⟩ := number_signalled signal waits
    have pending := inv.pending waited
    change _ ≤ Threads.number id _ Worker.woken
    rw [woken, (queuePush_count run).1]
    exact Nat.add_le_add_right pending 1

/-- **`queue_pop`**, by a newcomer or by a woken worker. -/
theorem pop (inv : PoolInv s) {w : Worker} (pc : s.workers i = w) (came : w = .popping ∨ w = .woken)
    (body : Pool.Pop s i s') : PoolInv s' := by
  cases body with
  | waits empty =>
    refine ⟨?_, inv.full⟩
    intro _
    change s.queue.count ≤ _
    rw [queuePop_none empty]
    exact Nat.zero_le _
  | pops run =>
    obtain ⟨count, -⟩ := queuePop_count run
    refine ⟨?_, fun item pc => absurd pc (s.master.signalled_ne_waiting item)⟩
    intro waits
    have waiting := number_moved s.workers i pc .outside .waiting
    have woken := number_moved s.workers i pc .outside .woken
    have pending := inv.pending
    unfold Pool.number at pending waits ⊢
    simp only at waits ⊢
    rcases came with rfl | rfl <;>
    · simp only [reduceCtorEq, if_true, if_false] at waiting woken
      omega

/-- A worker moves outside the critical sections. -/
theorem setWorker (inv : PoolInv s) {w w' : Worker} (pc : s.workers i = w)
    (move : w = .outside ∧ w' = .popping ∨ w = .waiting ∧ w' = .woken) :
    PoolInv { s with workers := Function.update s.workers i w' } := by
  refine ⟨?_, inv.full⟩
  intro waits
  have waiting := number_moved s.workers i pc w' .waiting
  have woken := number_moved s.workers i pc w' .woken
  have pending := inv.pending
  unfold Pool.number at pending waits ⊢
  simp only at waits ⊢
  rcases move with ⟨rfl, rfl⟩ | ⟨rfl, rfl⟩ <;>
  · simp only [reduceCtorEq, if_true, if_false] at waiting woken
    omega

/-- **Every step keeps the count of wake-ups.** -/
theorem step (inv : PoolInv s) (step : Pool.Step s s') : PoolInv s' := by
  cases step with
  | accept item pc => exact inv.setMaster fun _ e => nomatch e
  | push pc body => exact inv.push body
  | retryPush pc body => exact inv.push body
  | callPop i pc => exact inv.setWorker pc (.inl ⟨rfl, rfl⟩)
  | pop pc body => exact inv.pop pc (.inl rfl) body
  | retryPop pc body => exact inv.pop pc (.inr rfl) body
  | @spuriousMaster m blocked =>
    apply inv.setMaster
    intro item
    have signalled : s.master.signalled = m := by
      unfold Master.signalled
      rw [blocked]
      rfl
    rw [← signalled]
    exact s.master.signalled_ne_waiting item
  | spuriousWorker blocked =>
    obtain ⟨old, rfl⟩ := Worker.wake_eq blocked
    exact inv.setWorker old (.inr ⟨rfl, rfl⟩)

end PoolInv

theorem Pool.Reachable.inv (reach : Pool.Reachable cap s) : PoolInv s := by
  induction reach with
  | start items => exact ⟨fun _ => Nat.zero_le _, fun _ pc => nomatch pc⟩
  | step _ step ih => exact ih.step step

/-- **No wake-up is lost.** While a worker waits, there are woken workers for all items in the
queue; while the master waits, the queue is full. So a connection never waits with all
workers blocked, and the master never with a free slot. -/
theorem queue_loses_no_wakeup [Nonempty ι] (pos : 0 < cap) (reach : Pool.Reachable cap s) :
    ((∃ i, s.workers i = .waiting) → s.queue.count ≤ Threads.number id s.workers .woken) ∧
    (∀ item, s.master = .waiting item → s.queue.count = cap) ∧
    ¬(0 < s.queue.count ∧ ∀ i, s.workers i = .waiting) ∧
    ¬((∃ item, s.master = .waiting item) ∧ s.queue.count < cap) := by
  have inv := reach.inv
  have pending : (∃ i, s.workers i = .waiting) → s.queue.count ≤ Threads.number id s.workers .woken :=
    fun waits => inv.pending (number_pos_iff.mpr waits)
  have full : ∀ item, s.master = .waiting item → s.queue.count = cap := by
    intro item pc
    rw [inv.full item pc]
    exact (reach.dispatch.inv pos).valid.capacity
  refine ⟨pending, full, ?_, ?_⟩
  · intro ⟨queued, all⟩
    obtain ⟨i⟩ := ‹Nonempty ι›
    have woken := pending ⟨i, all i⟩
    obtain ⟨j, pc⟩ := number_pos_iff.mp (lt_of_lt_of_le queued woken)
    exact nomatch (all j).symm.trans pc
  · intro ⟨⟨item, pc⟩, free⟩
    exact absurd (full item pc) (Nat.ne_of_lt free)

/-- A worker waits and is woken for a connection, which a newcomer takes; the next connection
finds it still woken. -/
theorem queue_loses_no_wakeup_stolen : ∃ s : Pool (Fin 2), Pool.Reachable 1 s ∧ s.workers 0 = .woken ∧
    s.queue.count = 1 ∧ s.popped.length = 1 ∧ ¬(0 < s.queue.count ∧ ∀ i, s.workers i = .waiting) := by
  have reach₀ : Pool.Reachable 1
      (⟨⟨queueInit (fun _ => ⟨0, 0, 0⟩) 1, [], []⟩, .accepting, fun _ => .outside⟩ : Pool (Fin 2)) := .start _
  have reach₁ := reach₀.step (.callPop 0 rfl)
  have reach₂ := reach₁.step (.pop (i := 0) rfl (.waits rfl))
  have reach₃ := reach₂.step (.accept ⟨4, 1, 0⟩ rfl)
  have reach₄ := reach₃.step (.push rfl (.pushes rfl (.wakes 0 rfl)))
  have reach₅ := reach₄.step (.callPop 1 rfl)
  have reach₆ := reach₅.step (.pop (i := 1) rfl (.pops rfl))
  have reach₇ := reach₆.step (.accept ⟨5, 2, 0⟩ rfl)
  have reach₈ := reach₇.step (.push rfl (.pushes rfl (.nobody (by decide))))
  exact ⟨_, reach₈, rfl, rfl, rfl, (queue_loses_no_wakeup Nat.one_pos reach₈).2.2.1⟩

end OsProjects.Server
