import Mathlib.Algebra.Order.BigOperators.Group.Finset
import OsProjects.Server.LogTimes
import OsProjects.Server.Pool

/-!
# The server as a whole

`main` and `worker` together: the master accepts connections and pushes them, a worker pops
one, takes its dispatch time, handles the request and closes the connection. The pool and
the handlers run side by side, coupled by the connection that a worker has in its hands.
No connection is lost or handled twice, and the times that a response shows are in order.
-/

namespace OsProjects.Server

open CText

/-- The times that `handle_request` may show are in order, and not in the future. -/
structure TimeStats.Ordered (tm : TimeStats) (now : Timeval) : Prop where
  dispatch : tm.taskArrival.le tm.taskDispatch
  enter : tm.taskDispatch.le tm.logEnter
  exit : tm.logEnter.le tm.logExit
  past : tm.logExit.le now

def Response.bytes : Response → Bytes
  | .ok bytes => bytes
  | .error _ bytes => bytes

/-- The response has its statistics after its first headers, with this arrival and times in order. -/
def Response.Timely (now : Timeval) (r : Response) (arrival : Timeval) : Prop :=
  ∃ header ts tm body, r.bytes = header ++ appendStats [] ts tm ++ body ∧ tm.taskArrival = arrival ∧ tm.Ordered now

/-- The arrival of the connection between the dispatch of a request and its end. -/
def Handler.current (tm : TimeStats) : Handler → List Timeval
  | .outside => []
  | _ => [tm.taskArrival]

/-- What is known of the times: between its two calls of `gettimeofday` the log has set only the first. -/
def Handler.Timed (tm : TimeStats) (now : Timeval) : Handler → Prop
  | .outside => True
  | .writing _ .enter | .reading .enter =>
    tm.taskArrival.le tm.taskDispatch ∧ tm.taskDispatch.le tm.logEnter ∧ tm.logEnter.le now
  | _ => tm.Ordered now

/-- A worker has answered the requests that it began in their order, each at most once, with times in order. -/
structure WorkerState.Answers (begun : List QueueItem) (now : Timeval) (w : WorkerState) : Prop where
  shown : ∃ arrivals, List.Sublist (arrivals ++ w.handler.current w.times) (begun.map QueueItem.arrival) ∧
    List.Forall₂ (Response.Timely now) w.sent arrivals
  times : w.handler.Timed w.times now

variable {n : Nat} {s s' : Site n} {i : Fin n} {w : WorkerState} {now now' : Timeval} {tm : TimeStats} {h : Handler}

theorem TimeStats.Ordered.later (h : tm.Ordered now) (le : now.le now') : tm.Ordered now' :=
  { h with past := Timeval.le_trans h.past le }

theorem Handler.Timed.later (timed : h.Timed tm now) (le : now.le now') : h.Timed tm now' := by
  have entered : ∀ {a b c : Timeval}, a.le b ∧ b.le c ∧ c.le now → a.le b ∧ b.le c ∧ c.le now' :=
    fun ⟨first, second, third⟩ => ⟨first, second, Timeval.le_trans third le⟩
  cases h with
  | outside => trivial
  | writing action stamp =>
    cases stamp with
    | enter => exact entered timed
    | none => exact TimeStats.Ordered.later timed le
    | exit => exact TimeStats.Ordered.later timed le
  | reading stamp =>
    cases stamp with
    | enter => exact entered timed
    | none => exact TimeStats.Ordered.later timed le
    | exit => exact TimeStats.Ordered.later timed le
  | _ => exact TimeStats.Ordered.later timed le

theorem Response.Timely.later {r : Response} {arrival : Timeval} (timely : r.Timely now arrival) (le : now.le now') :
    r.Timely now' arrival := by
  obtain ⟨header, ts, tm, body, bytes, same, ordered⟩ := timely
  exact ⟨header, ts, tm, body, bytes, same, ordered.later le⟩

namespace WorkerState.Answers

variable {begun : List QueueItem}

/-- Time passes. -/
theorem later (answers : w.Answers begun now) (le : now.le now') : w.Answers begun now' := by
  obtain ⟨⟨arrivals, order, timely⟩, times⟩ := answers
  exact ⟨⟨arrivals, order, timely.imp fun _ _ timely => timely.later le⟩, times.later le⟩

/-- The worker goes on with its request. -/
theorem goTo (answers : w.Answers begun now) {h : Handler} {stats : ThreadsStats} {times : TimeStats}
    (current : (h.current times).Sublist (w.handler.current w.times)) (timed : h.Timed times now) :
    Answers begun now { w with handler := h, stats := stats, times := times } := by
  obtain ⟨⟨arrivals, order, timely⟩, -⟩ := answers
  exact ⟨⟨arrivals, (List.Sublist.append_left current arrivals).trans order, timely⟩, timed⟩

/-- A response ends the request. -/
theorem respond (answers : w.Answers begun now) {r : Response} (busy : w.handler.current w.times = [w.times.taskArrival])
    (timely : r.Timely now w.times.taskArrival) : Answers begun now { w with handler := .outside, sent := w.sent ++ [r] } := by
  obtain ⟨⟨arrivals, order, shown⟩, -⟩ := answers
  rw [busy] at order
  refine ⟨⟨arrivals ++ [w.times.taskArrival], ?_, ?_⟩, trivial⟩
  · simp only [Handler.current, List.append_nil]
    exact order
  · exact List.rel_append shown (.cons timely .nil)

/-- A connection that arrived before is dispatched. -/
theorem dispatch (answers : w.Answers begun now) (pc : w.handler = .outside) {item : QueueItem} (le : item.arrival.le now) :
    Answers (begun ++ [item]) now
      { w with handler := .received, times := ⟨item.arrival, now, now, now⟩, requests := w.requests + 1 } := by
  obtain ⟨⟨arrivals, order, timely⟩, -⟩ := answers
  rw [pc] at order
  refine ⟨⟨arrivals, ?_, timely⟩, le, Timeval.le_refl _, Timeval.le_refl _, Timeval.le_refl _⟩
  simp only [Handler.current, List.append_nil] at order
  rw [List.map_append]
  exact order.append (List.Sublist.refl _)

end WorkerState.Answers

/-! ## The handlers -/

/-- Every worker answers its requests in their order, with times in order. -/
def Site.Answers (begun : Fin n → List QueueItem) (s : Site n) : Prop := ∀ i, (s.workers i).Answers (begun i) s.now

namespace Site.Answers

variable {begun begun' : Fin n → List QueueItem}

/-- One worker moves. -/
theorem set (answers : s.Answers begun) {l : Log.State (Fin n)} {entered : List Timeval} (worker : w.Answers (begun' i) s.now)
    (others : ∀ j, j ≠ i → begun' j = begun j) : Site.Answers begun' { s.set i w with log := l, entered := entered } := by
  intro j
  change (Function.update s.workers i w j).Answers (begun' j) s.now
  by_cases e : j = i
  · subst e
    rw [Function.update_self]
    exact worker
  · rw [Function.update_of_ne e, others j e]
    exact answers j

/-- **A step inside the log.** -/
theorem log (answers : s.Answers begun) (called : s.Called) {l : Log.State (Fin n)} (calls : Log.CallsAfter s.log l)
    (permitted : ∀ i, l.threads i ≠ s.log.threads i → (s.workers i).handler.permits (s.log.threads i)) :
    Site.Answers begun { s with
      log := l
      workers := fun i => { s.workers i with handler := (s.workers i).handler.next (s.log.threads i) (l.threads i) } } := by
  -- who leaves the log has taken both times
  have moved : ∀ {i}, s.log.threads i ≠ .idle → l.threads i = .idle → l.threads i ≠ s.log.threads i :=
    fun busy idle same => busy (same.symm.trans idle)
  cases calls with
  | same stay _ =>
    intro j
    simp only [Handler.next_of_stays (stay j)]
    exact answers j
  | wrote i entry before after others _ =>
    intro j
    by_cases e : j = i
    · subst e
      obtain ⟨action, stamp, tm, pc, -⟩ := (called j).writing (congrArg Log.Thread.call before)
      have stamped := permitted j (moved (by rw [before]; intro e; cases e) after)
      rw [pc, before] at stamped
      obtain rfl : stamp = .exit := stamped
      have times := (answers j).times
      rw [pc] at times
      simp only [before, after, pc, Handler.next]
      exact (answers j).goTo (by rw [pc]; exact .refl _) times
    · simp only [Handler.next_of_stays (others j e)]
      exact answers j
  | read i len out before after others _ =>
    intro j
    by_cases e : j = i
    · subst e
      obtain ⟨stamp, pc⟩ := (called j).reading (congrArg Log.Thread.call before)
      have stamped := permitted j (moved (by rw [before]; intro e; cases e) after)
      rw [pc, before] at stamped
      obtain rfl : stamp = .exit := stamped
      have times := (answers j).times
      rw [pc] at times
      simp only [before, after, pc, Handler.next]
      exact (answers j).goTo (by rw [pc]; exact .refl _) times
    · simp only [Handler.next_of_stays (others j e)]
      exact answers j

/-- The worker at this place goes on. -/
theorem move (answers : s.Answers begun) {l : Log.State (Fin n)} {entered : List Timeval} {h h' : Handler} {stats : ThreadsStats}
    (pc : (s.workers i).handler = h) (current : (h'.current tm).Sublist (h.current (s.workers i).times))
    (timed : h.Timed (s.workers i).times s.now → h'.Timed tm s.now) :
    Site.Answers begun { s.set i { s.workers i with handler := h', stats := stats, times := tm } with log := l, entered := entered } := by
  have times := (answers i).times
  rw [pc] at times
  exact answers.set ((answers i).goTo (by rwa [pc]) (timed times)) fun _ _ => rfl

/-- The worker at this place answers. -/
theorem answer (answers : s.Answers begun) {h : Handler} {r : Response} (pc : (s.workers i).handler = h)
    (busy : h.current (s.workers i).times = [(s.workers i).times.taskArrival])
    (timed : h.Timed (s.workers i).times s.now → (s.workers i).times.Ordered s.now)
    (shows : ∃ header ts body, r.bytes = header ++ appendStats [] ts (s.workers i).times ++ body) : (s.respond i r).Answers begun := by
  have times := (answers i).times
  rw [pc] at times
  obtain ⟨header, ts, body, bytes⟩ := shows
  exact answers.set ((answers i).respond (by rw [pc, busy]) ⟨header, ts, _, body, bytes, rfl, timed times⟩) fun _ _ => rfl

/-- **Every step** in which no worker is given a connection. -/
theorem step (answers : s.Answers begun) (called : s.Called) (step : Site.Step s s')
    (inside : ∀ i, (s.workers i).handler = .outside → (s'.workers i).handler = .outside) : s'.Answers begun := by
  cases step with
  | tick now later => exact fun j => (answers j).later later
  | @dispatch i arrival pc =>
    have same := inside i pc
    rw [show (s.set i _).workers i = _ from Function.update_self _ _ _] at same
    cases same
  | hangUp pc => exact answers.move pc (List.nil_sublist _) fun _ => trivial
  | receive buf method uri version stat pc => exact answers.move pc (.refl _) id
  | sendError pc => exact answers.answer pc rfl id ⟨_, _, _, rfl⟩
  | countPost pc => exact answers.move pc (.refl _) id
  | countDynamic pc => exact answers.move pc (.refl _) id
  | countStatic pc => exact answers.move pc (.refl _) id
  | callWrite pc => exact answers.move pc (.refl _) id
  | callRead pc => exact answers.move pc (.refl _) id
  | log step within permitted => exact answers.log called (step.callsAfter within) permitted
  | enterWrite pc lock =>
    apply answers.move pc
    · exact .refl _
    · exact fun times => ⟨times.dispatch, Timeval.le_trans times.enter (Timeval.le_trans times.exit times.past), Timeval.le_refl _⟩
  | exitWrite pc done =>
    apply answers.move pc
    · exact .refl _
    · exact fun ⟨first, second, third⟩ => ⟨first, second, third, Timeval.le_refl _⟩
  | enterRead pc lock =>
    apply answers.move pc
    · exact .refl _
    · exact fun times => ⟨times.dispatch, Timeval.le_trans times.enter (Timeval.le_trans times.exit times.past), Timeval.le_refl _⟩
  | exitRead pc done =>
    apply answers.move pc
    · exact .refl _
    · exact fun ⟨first, second, third⟩ => ⟨first, second, third, Timeval.le_refl _⟩
  | serveStatic content pc => exact answers.answer pc rfl id ⟨_, _, _, rfl⟩
  | serveDynamic output pc => exact answers.answer pc rfl id ⟨_, _, _, rfl⟩
  | servePost pc => exact answers.answer pc rfl id ⟨_, _, _, rfl⟩

end Site.Answers

/-! ## The whole -/

/-- Where a worker is in its loop, with the connection it has popped. -/
inductive Loop where
  | free
  | holding (item : QueueItem)
  | handling (item : QueueItem)

/-- The connection in the hands of a worker. -/
def Loop.hand : Loop → List QueueItem
  | .free => []
  | .holding item | .handling item => [item]

/-- The connection in the hands of the master. -/
def Master.hand : Master → List QueueItem
  | .accepting => []
  | .pushing item | .waiting item | .woken item => [item]

/-- The pool and the handlers, with the connections accepted and those that each worker has closed. -/
structure Service (n : Nat) where
  pool : Pool (Fin n)
  site : Site n
  loop : Fin n → Loop
  accepted : List QueueItem
  closed : Fin n → List QueueItem

/-- One step of one thread. -/
inductive Service.Step : Service n → Service n → Prop where
  /-- `Accept` and the time of arrival. -/
  | accept {s : Service n} (connfd : Int) (pc : s.pool.master = .accepting) :
      Step s { s with
        pool := { s.pool with master := .pushing ⟨connfd, s.site.now⟩ }
        accepted := s.accepted ++ [⟨connfd, s.site.now⟩] }
  | push {s : Service n} {item : QueueItem} {pool : Pool (Fin n)} (pc : s.pool.master = .pushing item ∨ s.pool.master = .woken item)
      (body : Pool.Push s.pool item pool) : Step s { s with pool := pool }
  /-- The next turn of a worker's loop. -/
  | callPop {s : Service n} (i : Fin n) (free : s.loop i = .free) (pc : s.pool.workers i = .outside) :
      Step s { s with pool := { s.pool with workers := Function.update s.pool.workers i .popping } }
  | waitPop {s : Service n} {i : Fin n} (pc : s.pool.workers i = .popping ∨ s.pool.workers i = .woken)
      (empty : queuePop s.pool.queue = none) :
      Step s { s with pool := { s.pool with workers := Function.update s.pool.workers i .waiting } }
  | pop {s : Service n} {i : Fin n} {q' : ReqQueue} {item : QueueItem}
      (pc : s.pool.workers i = .popping ∨ s.pool.workers i = .woken) (run : queuePop s.pool.queue = some (item, q')) :
      Step s { s with
        pool := ⟨{ s.pool.toDispatch with queue := q', popped := s.pool.popped ++ [(i, item)] }, s.pool.master.signalled,
          Function.update s.pool.workers i .outside⟩
        loop := Function.update s.loop i (.holding item) }
  | spuriousMaster {s : Service n} {m : Master} (blocked : s.pool.master.wake = some m) :
      Step s { s with pool := { s.pool with master := m } }
  | spuriousWorker {s : Service n} {i : Fin n} {w : Worker} (blocked : (s.pool.workers i).wake = some w) :
      Step s { s with pool := { s.pool with workers := Function.update s.pool.workers i w } }
  /-- The time of dispatch and the call of `handle_request`. -/
  | dispatch {s : Service n} {i : Fin n} {item : QueueItem} (holds : s.loop i = .holding item) :
      Step s { s with
        site := s.site.set i { s.site.workers i with
          handler := .received
          times := ⟨item.arrival, s.site.now, s.site.now, s.site.now⟩
          requests := (s.site.workers i).requests + 1 }
        loop := Function.update s.loop i (.handling item) }
  /-- A step of a handler, of the log or of the clock. -/
  | handle {s : Service n} {site : Site n} (step : Site.Step s.site site)
      (inside : ∀ i, (s.site.workers i).handler = .outside → (site.workers i).handler = .outside) :
      Step s { s with site := site }
  /-- `handle_request` has returned: `Close`. -/
  | close {s : Service n} {i : Fin n} {item : QueueItem} (handles : s.loop i = .handling item)
      (done : (s.site.workers i).handler = .outside) :
      Step s { s with
        loop := Function.update s.loop i .free
        closed := Function.update s.closed i (s.closed i ++ [item]) }

/-- The states of a server with a queue of `cap` slots. -/
inductive Service.Reachable (cap : Nat) : Service n → Prop where
  | start (items : Nat → QueueItem) (now : Timeval) (data : Nat) (heap : Log.Heap) (times : Fin n → TimeStats) :
      Reachable cap ⟨⟨⟨queueInit items cap, [], []⟩, .accepting, fun _ => .outside⟩, .start now data heap times, fun _ => .free, [],
        fun _ => []⟩
  | step {s s' : Service n} (reach : Reachable cap s) (step : Step s s') : Reachable cap s'

/-- What worker `i` was handed. -/
def handedTo (i : Fin n) (popped : List (Fin n × QueueItem)) : List QueueItem := (popped.filter (·.1 = i)).map Prod.snd

/-- The connection for which `handle_request` was called. -/
def Loop.begun : Loop → List QueueItem
  | .handling item => [item]
  | _ => []

/-- The connections for which worker `i` has called `handle_request`. -/
def Service.begun (s : Service n) (i : Fin n) : List QueueItem := s.closed i ++ (s.loop i).begun

/-- How the parts fit together. -/
structure Service.Inv (cap : Nat) (s : Service n) : Prop where
  pool : Pool.Reachable cap s.pool
  site : Site.Reachable s.site
  accepted : s.accepted = s.pool.pushed ++ s.pool.master.hand
  handed : ∀ i, handedTo i s.pool.popped = s.closed i ++ (s.loop i).hand
  apart : ∀ i, s.loop i ≠ .free → s.pool.workers i = .outside
  quiet : ∀ i, (s.loop i).begun = [] → (s.site.workers i).handler = .outside
  answers : s.site.Answers s.begun
  arrivals : s.accepted.Pairwise fun a b => a.arrival.le b.arrival
  past : ∀ item ∈ s.accepted, item.arrival.le s.site.now

/-! ## Steps -/

theorem handedTo_append (i j : Fin n) (popped : List (Fin n × QueueItem)) (item : QueueItem) :
    handedTo i (popped ++ [(j, item)]) = handedTo i popped ++ if j = i then [item] else [] := by
  unfold handedTo
  rw [List.filter_append, List.map_append, List.filter_singleton]
  by_cases e : j = i <;> simp [e]

theorem Master.hand_wake {m m' : Master} (woken : m.wake = some m') : m'.hand = m.hand := by
  cases m with
  | waiting item =>
    obtain rfl := Option.some_inj.mp woken
    rfl
  | _ => cases woken

theorem Master.hand_signalled (m : Master) : m.signalled.hand = m.hand := by
  cases m <;> rfl

/-- The clock does not go back. -/
theorem Site.Step.now_le (step : Site.Step s s') : s.now.le s'.now := by
  cases step with
  | tick now later => exact later
  | _ => exact Timeval.le_refl _

namespace Service.Inv

variable {cap : Nat} {v v' : Service n}

/-- Only the pool moves, and nothing is popped. -/
theorem setPool (inv : v.Inv cap) {pool : Pool (Fin n)} (step : Pool.Step v.pool pool)
    (hand : pool.pushed ++ pool.master.hand = v.pool.pushed ++ v.pool.master.hand) (popped : pool.popped = v.pool.popped)
    (apart : ∀ i, v.loop i ≠ .free → pool.workers i = .outside) : Inv cap { v with pool := pool } where
  pool := inv.pool.step step
  site := inv.site
  accepted := inv.accepted.trans hand.symm
  handed i := by
    rw [popped]
    exact inv.handed i
  apart := apart
  quiet := inv.quiet
  answers := inv.answers
  arrivals := inv.arrivals
  past := inv.past

/-- A worker of the pool that is not in its loop's body moves. -/
theorem setWorker (inv : v.Inv cap) {i : Fin n} {w w' : Worker} (pc : v.pool.workers i = w) (free : w ≠ .outside ∨ v.loop i = .free)
    (j : Fin n) (busy : v.loop j ≠ .free) : Function.update v.pool.workers i w' j = .outside := by
  have other : j ≠ i := by
    rintro rfl
    rcases free with inside | free
    · exact inside (pc.symm.trans (inv.apart j busy))
    · exact busy free
  rw [Function.update_of_ne other]
  exact inv.apart j busy

theorem accept (inv : v.Inv cap) (connfd : Int) (pc : v.pool.master = .accepting) : Inv cap { v with
    pool := { v.pool with master := .pushing ⟨connfd, v.site.now⟩ }, accepted := v.accepted ++ [⟨connfd, v.site.now⟩] } where
  pool := inv.pool.step (.accept _ pc)
  site := inv.site
  accepted := by
    have accepted := inv.accepted
    rw [pc] at accepted
    simp only [accepted, Master.hand, List.append_nil]
  handed := inv.handed
  apart := inv.apart
  quiet := inv.quiet
  answers := inv.answers
  arrivals := by
    apply List.pairwise_append.mpr
    refine ⟨inv.arrivals, List.pairwise_singleton _ _, fun a mem b mem' => ?_⟩
    obtain rfl := List.mem_singleton.mp mem'
    exact inv.past a mem
  past item mem := by
    rcases List.mem_append.mp mem with mem | mem
    · exact inv.past item mem
    · obtain rfl := List.mem_singleton.mp mem
      exact Timeval.le_refl _

theorem push (inv : v.Inv cap) {item : QueueItem} {pool : Pool (Fin n)}
    (pc : v.pool.master = .pushing item ∨ v.pool.master = .woken item) (body : Pool.Push v.pool item pool) :
    Inv cap { v with pool := pool } := by
  have step : Pool.Step v.pool pool := by
    rcases pc with pc | pc
    · exact .push pc body
    · exact .retryPush pc body
  have hand : v.pool.master.hand = [item] := by
    rcases pc with pc | pc <;>
    · rw [pc]
      rfl
  cases body with
  | waits full =>
    apply inv.setPool step
    · rw [hand]
      rfl
    · rfl
    · exact inv.apart
  | pushes run signal =>
    apply inv.setPool step
    · rw [hand]
      exact List.append_nil _
    · rfl
    · intro i busy
      have out := inv.apart i busy
      cases signal with
      | nobody none => exact out
      | @wakes j w blocked =>
        obtain ⟨waited, -⟩ := Worker.wake_eq blocked
        exact inv.setWorker waited (.inl nofun) i busy

theorem pop (inv : v.Inv cap) {i : Fin n} {q' : ReqQueue} {item : QueueItem}
    (pc : v.pool.workers i = .popping ∨ v.pool.workers i = .woken) (run : queuePop v.pool.queue = some (item, q')) :
    Inv cap { v with
      pool := ⟨{ v.pool.toDispatch with queue := q', popped := v.pool.popped ++ [(i, item)] }, v.pool.master.signalled,
        Function.update v.pool.workers i .outside⟩
      loop := Function.update v.loop i (.holding item) } := by
  have free : v.loop i = .free := by
    by_contra busy
    rcases pc with pc | pc <;>
    · rw [inv.apart i busy] at pc
      cases pc
  have loop : ∀ j, j ≠ i → Function.update v.loop i (.holding item) j = v.loop j := fun j ne => Function.update_of_ne ne _ _
  constructor
  · rcases pc with pc | pc
    · exact inv.pool.step (.pop pc (.pops run))
    · exact inv.pool.step (.retryPop pc (.pops run))
  · exact inv.site
  · rw [inv.accepted, Master.hand_signalled]
  · intro j
    simp only
    rw [handedTo_append, inv.handed]
    by_cases e : j = i
    · subst e
      rw [Function.update_self, free, if_pos rfl]
      simp [Loop.hand]
    · rw [loop j e, if_neg (Ne.symm e), List.append_nil]
  · intro j busy
    by_cases e : j = i
    · subst e
      exact Function.update_self _ _ _
    · simp only [loop j e] at busy
      simp only [Function.update_of_ne e]
      exact inv.apart j busy
  · intro j begun
    by_cases e : j = i
    · subst e
      apply inv.quiet j
      rw [free]
      rfl
    · simp only [loop j e] at begun
      exact inv.quiet j begun
  · intro j
    have same : (v.loop j).begun = (Function.update v.loop i (.holding item) j).begun := by
      by_cases e : j = i
      · subst e
        rw [Function.update_self, free]
        rfl
      · rw [loop j e]
    have answers := inv.answers j
    unfold Service.begun at answers ⊢
    rwa [same] at answers
  · exact inv.arrivals
  · exact inv.past

/-- What a worker has in its hands was accepted. -/
theorem accepted_of_hand (inv : v.Inv cap) (pos : 0 < cap) {i : Fin n} {item : QueueItem} (mem : item ∈ (v.loop i).hand) :
    item ∈ v.accepted := by
  have given : item ∈ handedTo i v.pool.popped := by
    rw [inv.handed]
    exact List.mem_append_right _ mem
  have popped : item ∈ v.pool.popped.map Prod.snd := by
    obtain ⟨pair, inPopped, same⟩ := List.mem_map.mp given
    exact List.mem_map.mpr ⟨pair, (List.mem_filter.mp inPopped).1, same⟩
  rw [inv.accepted, (inv.pool.dispatch.inv pos).items]
  exact List.mem_append_left _ (List.mem_append_left _ popped)

/-- The time of dispatch: the connection arrived before. -/
theorem dispatch (inv : v.Inv cap) (pos : 0 < cap) {i : Fin n} {item : QueueItem} (holds : v.loop i = .holding item) :
    Inv cap { v with
      site := v.site.set i { v.site.workers i with
        handler := .received
        times := ⟨item.arrival, v.site.now, v.site.now, v.site.now⟩
        requests := (v.site.workers i).requests + 1 }
      loop := Function.update v.loop i (.handling item) } := by
  have pc : (v.site.workers i).handler = .outside := by
    apply inv.quiet
    rw [holds]
    rfl
  have accepted : item ∈ v.accepted := by
    apply inv.accepted_of_hand pos (i := i)
    rw [holds]
    exact List.mem_singleton_self item
  have others : ∀ j, j ≠ i → Function.update v.loop i (.handling item) j = v.loop j := fun j ne => Function.update_of_ne ne _ _
  have workers : ∀ {w} j, j ≠ i → (v.site.set i w).workers j = v.site.workers j := fun j ne => Function.update_of_ne ne _ _
  have worker := (inv.answers i).dispatch pc (inv.past item accepted)
  constructor
  · exact inv.pool
  · exact inv.site.step (.dispatch item.arrival pc)
  · exact inv.accepted
  · intro j
    simp only
    rw [inv.handed]
    by_cases e : j = i
    · subst e
      rw [Function.update_self, holds]
      rfl
    · rw [others j e]
  · intro j busy
    apply inv.apart j
    by_cases e : j = i
    · subst e
      rw [holds]
      nofun
    · simp only [others j e] at busy
      exact busy
  · intro j begun
    by_cases e : j = i
    · subst e
      simp only [Function.update_self] at begun
      cases begun
    · simp only [others j e] at begun
      simp only [workers j e]
      exact inv.quiet j begun
  · refine @Site.Answers.set n v.site i _ _ _ inv.answers v.site.log v.site.entered ?_ ?_
    · unfold Service.begun at worker ⊢
      simp only [holds, Loop.begun, List.append_nil, Function.update_self] at worker ⊢
      exact worker
    · intro j ne
      unfold Service.begun
      simp only [others j ne]
  · exact inv.arrivals
  · exact inv.past

/-- A step of a handler, of the log or of the clock. -/
theorem handle (inv : v.Inv cap) {site : Site n} (step : Site.Step v.site site)
    (inside : ∀ i, (v.site.workers i).handler = .outside → (site.workers i).handler = .outside) : Inv cap { v with site := site } where
  pool := inv.pool
  site := inv.site.step step
  accepted := inv.accepted
  handed := inv.handed
  apart := inv.apart
  quiet i begun := inside i (inv.quiet i begun)
  answers := inv.answers.step inv.site.called step inside
  arrivals := inv.arrivals
  past item mem := Timeval.le_trans (inv.past item mem) step.now_le

/-- `Close`. -/
theorem close (inv : v.Inv cap) {i : Fin n} {item : QueueItem} (handles : v.loop i = .handling item)
    (done : (v.site.workers i).handler = .outside) :
    Inv cap { v with
      loop := Function.update v.loop i .free
      closed := Function.update v.closed i (v.closed i ++ [item]) } := by
  constructor
  · exact inv.pool
  · exact inv.site
  · exact inv.accepted
  · intro j
    simp only
    rw [inv.handed]
    by_cases e : j = i
    · subst e
      rw [Function.update_self, Function.update_self, handles]
      exact (List.append_nil _).symm
    · rw [Function.update_of_ne e, Function.update_of_ne e]
  · intro j busy
    by_cases e : j = i
    · subst e
      simp only [Function.update_self] at busy
      exact absurd rfl busy
    · simp only [Function.update_of_ne e] at busy
      exact inv.apart j busy
  · intro j begun
    by_cases e : j = i
    · subst e
      exact done
    · simp only [Function.update_of_ne e] at begun
      exact inv.quiet j begun
  · intro j
    have answers := inv.answers j
    unfold Service.begun at answers ⊢
    by_cases e : j = i
    · subst e
      rw [handles] at answers
      simp only [Function.update_self, Loop.begun, List.append_nil]
      exact answers
    · simp only [Function.update_of_ne e]
      exact answers
  · exact inv.arrivals
  · exact inv.past

/-- **Every step keeps the parts together.** -/
theorem step (inv : v.Inv cap) (pos : 0 < cap) (step : Service.Step v v') : v'.Inv cap := by
  cases step with
  | accept connfd pc => exact inv.accept connfd pc
  | push pc body => exact inv.push pc body
  | callPop i free pc => exact inv.setPool (.callPop i pc) rfl rfl (inv.setWorker pc (.inr free))
  | @waitPop i pc empty =>
    have pool : Pool.Step v.pool { v.pool with workers := Function.update v.pool.workers i .waiting } := by
      rcases pc with pc | pc
      · exact .pop pc (.waits empty)
      · exact .retryPop pc (.waits empty)
    apply inv.setPool pool
    · rfl
    · rfl
    · rcases pc with pc | pc
      · exact inv.setWorker pc (.inl nofun)
      · exact inv.setWorker pc (.inl nofun)
  | pop pc run => exact inv.pop pc run
  | spuriousMaster blocked =>
    apply inv.setPool (.spuriousMaster blocked)
    · simp only [Master.hand_wake blocked]
    · rfl
    · exact inv.apart
  | spuriousWorker blocked =>
    obtain ⟨waited, -⟩ := Worker.wake_eq blocked
    exact inv.setPool (.spuriousWorker blocked) rfl rfl (inv.setWorker waited (.inl nofun))
  | dispatch holds => exact inv.dispatch pos holds
  | handle step inside => exact inv.handle step inside
  | close handles done => exact inv.close handles done

end Service.Inv

theorem Service.Reachable.inv {cap : Nat} {v : Service n} (reach : v.Reachable cap) (pos : 0 < cap) : v.Inv cap := by
  induction reach with
  | start items now data heap times =>
    constructor
    · exact .start items
    · exact .start now data heap times
    · rfl
    · exact fun _ => rfl
    · exact fun _ busy => absurd rfl busy
    · exact fun _ _ => rfl
    · exact fun _ => ⟨⟨[], List.nil_sublist _, .nil⟩, trivial⟩
    · exact .nil
    · exact fun _ mem => absurd mem List.not_mem_nil
  | step _ step ih => exact ih.step pos step

/-! ## Every connection and every response -/

variable {cap : Nat} {v : Service n}

/-- What was popped was handed to one worker. -/
theorem popped_eq_sum (popped : List (Fin n × QueueItem)) :
    (popped.map Prod.snd : Multiset QueueItem) = ∑ i, (handedTo i popped : Multiset QueueItem) := by
  induction popped using List.reverseRecOn with
  | nil =>
    symm
    exact Finset.sum_eq_zero fun _ _ => rfl
  | append_singleton popped pair ih =>
    obtain ⟨j, item⟩ := pair
    have given : ∀ i : Fin n, (handedTo i (popped ++ [(j, item)]) : Multiset QueueItem) =
        handedTo i popped + if j = i then {item} else 0 := by
      intro i
      rw [handedTo_append, ← Multiset.coe_add]
      split_ifs <;> rfl
    simp only [given, Finset.sum_add_distrib, Finset.sum_ite_eq, Finset.mem_univ, if_true]
    rw [← ih, List.map_append, ← Multiset.coe_add]
    rfl

theorem Loop.hand_length (l : Loop) : l.hand.length ≤ 1 := by
  cases l <;> simp [Loop.hand]

theorem Master.hand_length (m : Master) : m.hand.length ≤ 1 := by
  cases m <;> simp [Master.hand]

/-- **No connection is lost, and none is handled twice.** Every accepted connection is at one place: closed by
a worker, in a worker's hands, in the queue or in the master's hands. They are handed out in the order of their
arrival, and no more are open than there are threads and slots. -/
theorem connections_conserved (pos : 0 < cap) (reach : v.Reachable cap) :
    (v.accepted : Multiset QueueItem) = ∑ i, (v.closed i + (v.loop i).hand : Multiset QueueItem) +
      v.pool.queue.waiting + v.pool.master.hand ∧
    v.accepted = v.pool.popped.map Prod.snd ++ v.pool.queue.waiting ++ v.pool.master.hand ∧
    (∀ i, handedTo i v.pool.popped = v.closed i ++ (v.loop i).hand) ∧
    v.accepted.length ≤ ∑ i, (v.closed i).length + (n + cap + 1) := by
  have inv := reach.inv pos
  have queue := inv.pool.dispatch.inv pos
  have order : v.accepted = v.pool.popped.map Prod.snd ++ v.pool.queue.waiting ++ v.pool.master.hand := by
    rw [inv.accepted, queue.items]
  have places : (v.accepted : Multiset QueueItem) = ∑ i, (v.closed i + (v.loop i).hand : Multiset QueueItem) +
      v.pool.queue.waiting + v.pool.master.hand := by
    have handed : ∀ i, (v.closed i + (v.loop i).hand : Multiset QueueItem) = handedTo i v.pool.popped := by
      intro i
      rw [inv.handed, Multiset.coe_add]
    simp only [handed]
    rw [← popped_eq_sum, order, ← Multiset.coe_add, ← Multiset.coe_add]
  refine ⟨places, order, inv.handed, ?_⟩
  have count := congrArg Multiset.card places
  simp only [Multiset.card_add, Multiset.card_sum, Multiset.coe_card, Finset.sum_add_distrib] at count
  have hands : ∑ i, (v.loop i).hand.length ≤ n := by
    calc ∑ i, (v.loop i).hand.length ≤ ∑ _i : Fin n, 1 := Finset.sum_le_sum fun i _ => (v.loop i).hand_length
      _ = n := by simp
  have slots : v.pool.queue.waiting.length ≤ cap := by
    unfold ReqQueue.waiting RingBuffer.window
    rw [List.length_map, List.length_range]
    exact queue.valid.count
  have master := v.pool.master.hand_length
  omega

/-- The only worker has refused the request of the first connection. -/
theorem Service.exists_refused : ∃ s : Service 1, s.Reachable 1 ∧ s.accepted.length = 1 ∧ (s.site.workers 0).sent.length = 1 := by
  have reach₀ : Service.Reachable 1 (n := 1) _ :=
    .start (fun _ => ⟨0, 0, 0⟩) ⟨0, 0⟩ 0 (fun _ _ => 0) fun _ => ⟨⟨0, 0⟩, ⟨0, 0⟩, ⟨0, 0⟩, ⟨0, 0⟩⟩
  have reach₁ := reach₀.step (.accept 4 rfl)
  have reach₂ := reach₁.step (.push (.inl rfl) (.pushes rfl (.nobody fun _ => rfl)))
  have reach₃ := reach₂.step (.callPop 0 rfl rfl)
  have reach₄ := reach₃.step (.pop (i := 0) (.inl rfl) rfl)
  have reach₅ := reach₄.step (.dispatch (i := 0) rfl)
  have reach₆ := reach₅.step (.handle (.receive (i := 0) (lit "PUT /a HTTP/1.0") [] [] [] (fun _ => none) rfl)
    (Fin.forall_fin_one.mpr fun outside => Handler.noConfusion outside))
  have reach₇ := reach₆.step (.handle (.sendError (i := 0) rfl) (Fin.forall_fin_one.mpr fun _ => rfl))
  exact ⟨_, reach₇, rfl, rfl⟩

/-- The one connection is in the worker's hands. -/
theorem connections_conserved_one : ∃ s : Service 1, s.Reachable 1 ∧ s.accepted.length = 1 ∧
    s.accepted.length ≤ ∑ i, (s.closed i).length + (1 + 1 + 1) := by
  obtain ⟨s, reach, one, -⟩ := Service.exists_refused
  exact ⟨s, reach, one, (connections_conserved Nat.one_pos reach).2.2.2⟩

/-- **The responses of a worker.** They belong, in order, to some of the connections handed to it, none to two;
each shows when its connection arrived, and times that are in order and not in the future. -/
theorem responses_in_order (pos : 0 < cap) (reach : v.Reachable cap) (i : Fin n) :
    (∃ arrivals, List.Sublist arrivals ((v.begun i).map QueueItem.arrival) ∧
      List.Forall₂ (Response.Timely v.site.now) (v.site.workers i).sent arrivals) ∧
    v.begun i <+: handedTo i v.pool.popped ∧ (handedTo i v.pool.popped).Pairwise fun a b => a.arrival.le b.arrival := by
  have inv := reach.inv pos
  have queue := inv.pool.dispatch.inv pos
  refine ⟨?_, ?_, ?_⟩
  · obtain ⟨arrivals, order, timely⟩ := (inv.answers i).shown
    exact ⟨arrivals, (List.sublist_append_left _ _).trans order, timely⟩
  · rw [inv.handed]
    unfold Service.begun
    apply List.prefix_append_right_inj _ |>.mpr
    cases v.loop i with
    | free => exact List.nil_prefix
    | holding item => exact List.nil_prefix
    | handling item => exact List.prefix_refl _
  · have sub : List.Sublist (handedTo i v.pool.popped) v.accepted := by
      rw [inv.accepted, queue.items, List.append_assoc]
      exact (List.filter_sublist.map _).trans (List.sublist_append_left _ _)
    exact inv.arrivals.sublist sub

/-- The one response shows the arrival of the one connection. -/
theorem responses_in_order_one : ∃ s : Service 1, s.Reachable 1 ∧ (s.site.workers 0).sent.length = 1 ∧
    ∃ arrivals, List.Sublist arrivals ((s.begun 0).map QueueItem.arrival) ∧
      List.Forall₂ (Response.Timely s.site.now) (s.site.workers 0).sent arrivals := by
  obtain ⟨s, reach, -, one⟩ := Service.exists_refused
  exact ⟨s, reach, one, (responses_in_order Nat.one_pos reach 0).1⟩

end OsProjects.Server
