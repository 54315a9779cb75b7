import OsProjects.Lib.RingBuffer

/-!
# The request queue of the web server

The master accepts connections and pushes them, the workers pop them. The queue is a
ring buffer under a mutex: a critical section is one step, and it runs only when the
loop around its wait is left. The steps of a run keep a record of what was pushed and of
what each worker was handed.
-/

namespace OsProjects.Server

open RingBuffer

/-- `struct timeval`. -/
structure Timeval where
  sec : Int
  usec : Int
  deriving DecidableEq

/-- `queue_item_t`. -/
structure QueueItem where
  connfd : Int
  arrival : Timeval
  deriving DecidableEq

/-- `req_queue_t` without its mutex and conditions. The numbers stay between zero and
`cap`, so they are not negative and do not overflow. -/
structure ReqQueue where
  items : Nat → QueueItem
  cap : Nat
  head : Nat
  tail : Nat
  count : Nat

/-- `queue_init`. The slots hold whatever `Malloc` left there. -/
def queueInit (items : Nat → QueueItem) (cap : Nat) : ReqQueue := ⟨items, cap, 0, 0, 0⟩

/-- The critical section of `queue_push`; `none` where it waits. -/
def queuePush (connfd : Int) (arr : Timeval) (q : ReqQueue) : Option ReqQueue :=
  if q.count = q.cap then none
  else
    some { q with
      items := Function.update q.items q.tail ⟨connfd, arr⟩
      tail := (q.tail + 1) % q.cap
      count := q.count + 1 }

/-- The critical section of `queue_pop`; `none` where it waits. -/
def queuePop (q : ReqQueue) : Option (QueueItem × ReqQueue) :=
  if q.count = 0 then none
  else some (q.items q.head, { q with head := (q.head + 1) % q.cap, count := q.count - 1 })

/-- What is in the queue, oldest first: the `count` slots from `head` on. -/
def ReqQueue.waiting (q : ReqQueue) : List QueueItem := window q.items q.cap q.head q.count

/-! ## The invariant -/

structure ReqQueue.Valid (q : ReqQueue) (cap : Nat) : Prop where
  capacity : q.cap = cap
  count : q.count ≤ cap
  head : q.head < cap
  tail : q.tail = (q.head + q.count) % cap

variable {q q' : ReqQueue} {cap : Nat} {item : QueueItem} {connfd : Int} {arr : Timeval}

theorem queueInit_valid (pos : 0 < cap) (items : Nat → QueueItem) :
    (queueInit items cap).Valid cap ∧ (queueInit items cap).waiting = [] :=
  ⟨⟨rfl, Nat.zero_le _, pos, (Nat.zero_mod cap).symm⟩, rfl⟩

namespace ReqQueue.Valid

theorem tail_lt (h : q.Valid cap) : q.tail < cap := h.tail ▸ Nat.mod_lt _ (Nat.zero_lt_of_lt h.head)

/-- **`queue_push`** appends the item. -/
theorem queuePush (h : q.Valid cap) (run : queuePush connfd arr q = some q') :
    q'.Valid cap ∧ q'.waiting = q.waiting ++ [⟨connfd, arr⟩] := by
  obtain rfl := h.capacity
  unfold Server.queuePush at run
  split_ifs at run with full
  obtain rfl := Option.some_inj.mp run
  have room : q.count < q.cap := lt_of_le_of_ne h.count full
  refine ⟨⟨rfl, room, h.head, ?_⟩, ?_⟩
  · simp only [h.tail, tail_append]
  · simp only [waiting, h.tail, window_append room]

/-- **`queue_pop`** takes the oldest item. -/
theorem queuePop (h : q.Valid cap) (run : queuePop q = some (item, q')) :
    q'.Valid cap ∧ q.waiting = item :: q'.waiting := by
  obtain rfl := h.capacity
  unfold Server.queuePop at run
  split_ifs at run with empty
  obtain ⟨rfl, rfl⟩ := Prod.mk.inj (Option.some_inj.mp run)
  obtain ⟨n, count⟩ := Nat.exists_eq_add_one_of_ne_zero empty
  have bound := h.count
  refine ⟨⟨rfl, ?_, Nat.mod_lt _ (Nat.zero_lt_of_lt h.head), ?_⟩, ?_⟩
  · simp only
    omega
  · simp only [h.tail, count, Nat.add_sub_cancel]
    exact tail_drop
  · simp only [waiting, count, Nat.add_sub_cancel, window_cons, Nat.mod_eq_of_lt h.head]

end ReqQueue.Valid

/-! ## Runs -/

variable {ι : Type*}

/-- The queue with what was pushed and what was handed to which worker. -/
structure Dispatch (ι : Type*) where
  queue : ReqQueue
  pushed : List QueueItem
  popped : List (ι × QueueItem)

/-- A critical section of the master or of a worker. -/
inductive Dispatch.Step : Dispatch ι → Dispatch ι → Prop where
  | push {s : Dispatch ι} {q' : ReqQueue} (connfd : Int) (arr : Timeval)
      (run : queuePush connfd arr s.queue = some q') :
      Step s { s with queue := q', pushed := s.pushed ++ [⟨connfd, arr⟩] }
  | pop {s : Dispatch ι} {q' : ReqQueue} {item : QueueItem} (worker : ι) (run : queuePop s.queue = some (item, q')) :
      Step s { s with queue := q', popped := s.popped ++ [(worker, item)] }

/-- The states reached from an empty queue. -/
inductive Dispatch.Reachable (cap : Nat) : Dispatch ι → Prop where
  | start (items : Nat → QueueItem) : Reachable cap ⟨queueInit items cap, [], []⟩
  | step {s s' : Dispatch ι} (reach : Reachable cap s) (step : Step s s') : Reachable cap s'

/-- Every item pushed was handed out or waits. -/
structure Dispatch.Inv (s : Dispatch ι) (cap : Nat) : Prop where
  valid : s.queue.Valid cap
  items : s.pushed = s.popped.map Prod.snd ++ s.queue.waiting

variable {s s' : Dispatch ι}

theorem Dispatch.Inv.step (inv : s.Inv cap) (step : Dispatch.Step s s') : s'.Inv cap := by
  cases step with
  | push connfd arr run =>
    obtain ⟨valid, waiting⟩ := inv.valid.queuePush run
    refine ⟨valid, ?_⟩
    simp only [inv.items, waiting, List.append_assoc]
  | pop worker run =>
    obtain ⟨valid, waiting⟩ := inv.valid.queuePop run
    refine ⟨valid, ?_⟩
    simp only [inv.items, waiting, List.map_append, List.map_cons, List.map_nil, List.append_assoc, List.cons_append,
      List.nil_append]

theorem Dispatch.Reachable.inv (pos : 0 < cap) (reach : Dispatch.Reachable cap s) : s.Inv cap := by
  induction reach with
  | start items =>
    obtain ⟨valid, waiting⟩ := queueInit_valid pos items
    exact ⟨valid, waiting.symm⟩
  | step _ step ih => exact ih.step step

/-- **The request queue is a bounded FIFO.** In every reachable state the indices are
valid, the slots from `head` hold the items pushed but not popped, in order, and the
items popped are the first ones pushed: the `k`-th accepted connection is the `k`-th
one handed to a worker. -/
theorem queue_fifo (pos : 0 < cap) (reach : Dispatch.Reachable cap s) :
    s.queue.cap = cap ∧ s.queue.count ≤ cap ∧ s.queue.head < cap ∧ s.queue.tail < cap ∧
      s.queue.tail = (s.queue.head + s.queue.count) % cap ∧
      window s.queue.items cap s.queue.head s.queue.count = s.pushed.drop s.popped.length ∧
      s.popped.map Prod.snd <+: s.pushed ∧
      ∀ k (h : k < s.popped.length), s.pushed[k]? = some (s.popped.get ⟨k, h⟩).2 := by
  have inv := reach.inv pos
  have first : s.popped.map Prod.snd <+: s.pushed := ⟨_, inv.items.symm⟩
  refine ⟨inv.valid.capacity, inv.valid.count, inv.valid.head, inv.valid.tail_lt, inv.valid.tail, ?_, first, fun k h => ?_⟩
  · rw [inv.items, List.drop_left' (List.length_map _), ReqQueue.waiting, inv.valid.capacity]
  · have len : k < (s.popped.map Prod.snd).length := by rwa [List.length_map]
    rw [inv.items, List.getElem?_append_left len]
    simp [h]

/-- A ring of one slot: a second connection waits until the first was popped. -/
theorem queue_fifo_wraps : ∃ s : Dispatch (Fin 2), Dispatch.Reachable 1 s ∧ s.pushed.length = 2 ∧
    s.popped.map Prod.snd <+: s.pushed := by
  have reach₀ : Dispatch.Reachable 1 (⟨queueInit (fun _ => ⟨0, 0, 0⟩) 1, [], []⟩ : Dispatch (Fin 2)) := .start _
  have reach₁ := reach₀.step (.push 4 ⟨1, 0⟩ rfl)
  have reach₂ := reach₁.step (.pop 1 rfl)
  have reach₃ := reach₂.step (.push 5 ⟨2, 0⟩ rfl)
  exact ⟨_, reach₃, rfl, (queue_fifo Nat.one_pos reach₃).2.2.2.2.2.2.1⟩

end OsProjects.Server
