import OsProjects.Server.Calls

/-!
# A worker alone in the log

A run of `log_write` from its call to its return, with nobody else in the log. Runs of the
whole site are put together from it.
-/

namespace OsProjects.Server

open CText

variable {n : Nat} {s : Site n} {i : Fin n} {w : WorkerState} {t : Log.Thread}

/-- The site with worker `i` and the log replaced. -/
def Site.put (s : Site n) (i : Fin n) (w : WorkerState) (l : Log.State (Fin n)) (entered : List Timeval) : Site n :=
  { s.set i w with log := l, entered := entered }

theorem Site.put_worker (s : Site n) (i : Fin n) (w : WorkerState) (l : Log.State (Fin n)) (entered : List Timeval) :
    (s.put i w l entered).workers i = w := Function.update_self _ _ _

theorem Site.put_put (s : Site n) (i : Fin n) (w w' : WorkerState) (l l' : Log.State (Fin n)) (e e' : List Timeval) :
    (s.put i w l e).put i w' l' e' = s.put i w' l' e' := by
  unfold Site.put Site.set
  simp only [Function.update_idem]

/-- A step of the worker's thread inside the log. -/
theorem Site.Step.inLog {l l' : Log.State (Fin n)} {entered : List Timeval} (step : Log.Step l l')
    (th : Fin n → Log.Thread) (t' : Log.Thread) (before : l.threads = Function.update th i t)
    (after : l'.threads = Function.update th i t') (busy : t ≠ .idle) (permitted : w.handler.permits t) :
    Site.Step (s.put i w l entered) (s.put i { w with handler := w.handler.next t t' } l' entered) := by
  have self : l.threads i = t := by rw [before, Function.update_self]
  have self' : l'.threads i = t' := by rw [after, Function.update_self]
  have others : ∀ j, j ≠ i → l'.threads j = l.threads j := by
    intro j ne
    rw [before, after, Function.update_of_ne ne, Function.update_of_ne ne]
  have inside : ∀ j, l.threads j = .idle → l'.threads j = .idle := by
    intro j idle
    by_cases e : j = i
    · subst e
      exact absurd (self.symm.trans idle) busy
    · rw [others j e]
      exact idle
  have move := Site.Step.log (s := s.put i w l entered) step inside ?_
  · have eq : (s.put i { w with handler := w.handler.next t t' } l' entered) = { s.put i w l entered with
        log := l'
        workers := fun j => { (s.put i w l entered).workers j with
          handler := ((s.put i w l entered).workers j).handler.next (l.threads j) (l'.threads j) } } := by
      unfold Site.put Site.set
      simp only
      congr 1
      funext j
      by_cases e : j = i
      · subst e
        simp only [Function.update_self, self, self']
      · simp only [Function.update_of_ne e, others j e]
        rw [Handler.next_of_stays (.refl _)]
    rw [eq]
    exact move
  · intro j moved
    by_cases e : j = i
    · subst e
      change (Function.update s.workers j w j).handler.permits (l.threads j)
      rw [Function.update_self, self]
      exact permitted
    · exact absurd (others j e) moved

/-- The counters of the lock with nobody in the log. -/
theorem Log.LockInv.idle {l : Log.State (Fin n)} (inv : Log.LockInv l.log l.count) (idle : l.threads = fun _ => .idle) :
    l.log.readersActive = 0 ∧ l.log.writersActive = 0 ∧ l.log.writersWaiting = 0 := by
  have none : ∀ r, r ≠ Log.Role.outside → l.count r = 0 := by
    intro r ne
    apply Nat.eq_zero_of_not_pos
    intro pos
    obtain ⟨j, role⟩ := Threads.number_pos_iff.mp pos
    rw [idle] at role
    exact ne role.symm
  refine ⟨?_, ?_, ?_⟩
  · rw [inv.readersActive, none .reader (by decide)]
    rfl
  · rw [inv.writersActive, none .writer (by decide)]
    rfl
  · rw [inv.writersWaiting, none .blockedWriter (by decide), none .wokenWriter (by decide)]
    rfl

/-- If a step is the one in which worker `i` takes its time of entry, it is one at the clock and
the dispatch time of `s`. -/
def Site.EntersAs (s : Site n) (i : Fin n) (a b : Site n) : Prop :=
  ∀ action, (a.workers i).handler = .writing action .none → (b.workers i).handler = .writing action .enter →
    a.now = s.now ∧ (a.workers i).times = (s.workers i).times

/-! ## The log with one writer -/

namespace Log.State

variable {l : Log.State (Fin n)} {entry : Log.CString} {len len' : Int} {heap heap' : Log.Heap}

/-- The log while the thread of worker `i` is at `t`, alone in its critical section. -/
def alone (l : Log.State (Fin n)) (i : Fin n) (entry : Log.CString) (t : Log.Thread) (len : Int) (heap : Log.Heap) :
    Log.State (Fin n) :=
  { l with
    log := { l.log with len := len, writersActive := 1 }
    heap := heap
    threads := Function.update l.threads i t
    acquired := l.acquired ++ [entry] }

theorem lock_alone (readers : l.log.readersActive = 0) (writers : l.log.writersActive = 0) :
    Log.Step (l.set i (.wantWrite entry)) (l.alone i entry (.writing entry .test) l.log.len l.heap) := by
  have step := Log.Step.lockWrite (s := l.set i (.wantWrite entry)) (l.set_self i _)
  unfold Log.State.tryWrite at step
  rw [if_neg (by simp [Log.State.set, readers, writers])] at step
  simpa only [alone, Log.State.set, Function.update_idem, Int.add_sub_cancel] using step

theorem write_alone {point point' : Log.WritePoint}
    (body : Log.WriteStep entry ({ l.log with len := len, writersActive := 1 }, heap) point
      ({ l.log with len := len', writersActive := 1 }, heap') point') :
    Log.Step (l.alone i entry (.writing entry point) len heap) (l.alone i entry (.writing entry point') len' heap') := by
  have step := Log.Step.write (s := l.alone i entry (.writing entry point) len heap) (Function.update_self i _ _) body
  have eq : { (l.alone i entry (.writing entry point) len heap).set i (.writing entry point') with
      log := { l.log with len := len', writersActive := 1 }, heap := heap' } =
      l.alone i entry (.writing entry point') len' heap' := by
    simp only [alone, Log.State.set, Function.update_idem]
  exact eq ▸ step

/-- Nobody waits, so the broadcast wakes nobody. -/
theorem broadcast_idle (idle : l.threads = fun _ => .idle) (t : Log.Thread) :
    Threads.broadcast Log.Thread.wakeRead (Function.update (Function.update l.threads i t) i .idle) = l.threads := by
  rw [Function.update_idem, idle]
  funext j
  simp [Threads.broadcast, Function.update_apply, Log.Thread.wakeRead]

theorem unlock_alone (waiting : l.log.writersWaiting = 0) (idle : l.threads = fun _ => .idle) :
    Log.Step (l.alone i entry (.writing entry .done) len heap) { l with
      log := { l.log with len := len, writersActive := 0 }
      heap := heap
      acquired := l.acquired ++ [entry]
      complete := l.complete ++ [entry] } := by
  have step := Log.Step.unlockWrite (s := l.alone i entry (.writing entry .done) len heap) (Function.update_self i _ _)
    (.readers (by simp [alone, waiting]))
  have woken := broadcast_idle (i := i) idle (.writing entry .done)
  exact (congrArg (fun th => Log.Step _ { l with
    log := { l.log with len := len, writersActive := 0 }
    heap := heap
    threads := th
    acquired := l.acquired ++ [entry]
    complete := l.complete ++ [entry] }) woken).mp step

end Log.State

/-! ## The call -/

/-- The worker between its two times in the log, and behind them. -/
def WorkerState.entered (w : WorkerState) (action : Action) (now : Timeval) : WorkerState :=
  { w with handler := .writing action .enter, times := { w.times with logEnter := now } }

def WorkerState.exited (w : WorkerState) (action : Action) (now : Timeval) : WorkerState :=
  { w with handler := .writing action .exit, times := { w.times with logEnter := now, logExit := now } }

/-- The body has no step from its end, so the time of entry is enough for it. -/
theorem Handler.permits_body {action : Action} {entry : Log.CString} {p p' : Log.ServerLog × Log.Heap}
    {point point' : Log.WritePoint} (body : Log.WriteStep entry p point p' point') :
    (Handler.writing action .enter).permits (.writing entry point) := by
  cases body <;> rfl

/-- Only a worker that has not taken its time of entry can take it. -/
theorem Site.entersAs_put {l : Log.State (Fin n)} {entered : List Timeval} {b : Site n}
    (ne : ∀ action, w.handler ≠ .writing action .none) : s.EntersAs i (s.put i w l entered) b := by
  intro action before
  rw [s.put_worker] at before
  exact absurd before (ne action)

section Alone

variable {R : Site n → Prop} (closed : ∀ {a b}, R a → Site.Step a b → s.EntersAs i a b → R b) {action : Action}
  {entry : Log.CString} {entered : List Timeval} {len len' : Int} {heap heap' : Log.Heap}

include closed

/-- From the call to the time of entry. -/
theorem Site.enter_alone (reach : R s) (readers : s.log.log.readersActive = 0) (writers : s.log.log.writersActive = 0)
    (pc : (s.workers i).handler = .counted action)
    (formatted : statsEntry (s.workers i).stats (s.workers i).times = entry) :
    R (s.put i ((s.workers i).entered action s.now) (s.log.alone i entry (.writing entry .test) s.log.log.len s.log.heap)
      (s.entered ++ [s.now])) := by
  have called : R (s.put i { s.workers i with handler := .writing action .none }
      (s.log.set i (.wantWrite entry)) s.entered) := by
    refine formatted ▸ closed reach (.callWrite pc) ?_
    intro action before
    cases pc.symm.trans before
  have locked : R (s.put i { s.workers i with handler := .writing action .none }
      (s.log.alone i entry (.writing entry .test) s.log.log.len s.log.heap) s.entered) := by
    refine closed called (.inLog (Log.State.lock_alone readers writers) _ _ rfl rfl Log.Thread.noConfusion trivial) ?_
    intro action _ after
    rw [s.put_worker] at after
    cases after
  have step := closed locked
    (.enterWrite (i := i) (congrArg _ (s.put_worker i _ _ _)) (Function.update_self i _ _))
    fun _ _ _ => ⟨rfl, by rw [s.put_worker]⟩
  rw [Site.put_worker] at step
  exact s.put_put i _ _ _ _ _ _ ▸ step

/-- A step of the body of `log_write`. -/
theorem Site.body_alone {point point' : Log.WritePoint}
    (reach : R (s.put i ((s.workers i).entered action s.now) (s.log.alone i entry (.writing entry point) len heap) entered))
    (body : Log.WriteStep entry ({ s.log.log with len := len, writersActive := 1 }, heap) point
      ({ s.log.log with len := len', writersActive := 1 }, heap') point') :
    R (s.put i ((s.workers i).entered action s.now) (s.log.alone i entry (.writing entry point') len' heap')
      entered) := by
  have busy : Log.Thread.writing entry point ≠ .idle := Log.Thread.noConfusion
  refine closed reach (.inLog (Log.State.write_alone body) s.log.threads _ rfl rfl busy (Handler.permits_body body))
    (Site.entersAs_put ?_)
  intro other e
  cases e

/-- The whole body: the copy, the new length and the final zero. -/
theorem Site.bodies_alone (fits : ¬s.log.log.capacity < Log.int32 (Log.int32 (s.log.log.len + Log.int32 entry.bytes.length) + 1))
    (reach : R (s.put i ((s.workers i).entered action s.now)
      (s.log.alone i entry (.writing entry .test) s.log.log.len s.log.heap) entered)) :
    ∃ heap, R (s.put i ((s.workers i).entered action s.now) (s.log.alone i entry (.writing entry .done)
      (Log.int32 (s.log.log.len + Log.int32 entry.bytes.length)) heap) entered) := by
  have copying : ∀ k ≤ entry.bytes.length, ∃ heap, R (s.put i ((s.workers i).entered action s.now)
      (s.log.alone i entry (.writing entry (.copy s.log.log.data s.log.log.len k)) s.log.log.len heap) entered) := by
    intro k le
    induction k with
    | zero => exact ⟨_, Site.body_alone closed reach (.fits fits)⟩
    | succ k ih =>
      obtain ⟨heap, reached⟩ := ih (Nat.le_of_succ_le le)
      have next : entry.bytes[k]? = some (entry.bytes.get ⟨k, le⟩) := List.getElem?_eq_getElem le
      exact ⟨_, Site.body_alone closed reached (.copyByte next)⟩
  obtain ⟨heap, copied⟩ := copying entry.bytes.length (le_refl _)
  have advancing := Site.body_alone closed copied .copied
  have terminating := Site.body_alone closed advancing .advance
  exact ⟨_, Site.body_alone closed terminating .terminate⟩

/-- From the end of the body to the return. -/
theorem Site.leave_alone (waiting : s.log.log.writersWaiting = 0) (writers : s.log.log.writersActive = 0)
    (idle : s.log.threads = fun _ => .idle)
    (reach : R (s.put i ((s.workers i).entered action s.now) (s.log.alone i entry (.writing entry .done) len heap) entered)) :
    R (s.put i
      { s.workers i with
        handler := .logged action
        times := { (s.workers i).times with logEnter := s.now, logExit := s.now } }
      { s.log with
        log := { s.log.log with len := len }
        heap := heap
        acquired := s.log.acquired ++ [entry]
        complete := s.log.complete ++ [entry] } entered) := by
  have exited : R (s.put i ((s.workers i).exited action s.now) (s.log.alone i entry (.writing entry .done) len heap)
      entered) := by
    have step := closed reach
      (.exitWrite (i := i) (congrArg _ (s.put_worker i _ _ _)) (Function.update_self i _ _))
      (Site.entersAs_put fun other e => by cases e)
    rw [Site.put_worker] at step
    exact s.put_put i _ _ _ _ _ _ ▸ step
  have quiet : s.log.threads = Function.update s.log.threads i .idle := by
    rw [idle]
    exact (Function.update_eq_self i _).symm
  have busy : Log.Thread.writing entry .done ≠ .idle := Log.Thread.noConfusion
  have left := closed exited
    (.inLog (Log.State.unlock_alone waiting idle) s.log.threads .idle rfl quiet busy rfl)
    (Site.entersAs_put fun other e => by cases e)
  have log : ({ s.log.log with len := len } : Log.ServerLog) = { s.log.log with len := len, writersActive := 0 } := by
    simp only [writers]
  rw [log]
  exact left

/-- **A `log_write` with nobody else in the log**, of an entry that fits, in runs of any kind. -/
theorem Site.writes_alone (reach : R s)
    (free : s.log.log.readersActive = 0 ∧ s.log.log.writersActive = 0 ∧ s.log.log.writersWaiting = 0)
    (pc : (s.workers i).handler = .counted action) (idle : s.log.threads = fun _ => .idle)
    (formatted : entry = statsEntry (s.workers i).stats (s.workers i).times)
    (advances : len = Log.int32 (s.log.log.len + Log.int32 entry.bytes.length))
    (fits : ¬s.log.log.capacity < Log.int32 (len + 1)) :
    ∃ heap, R (s.put i
      { s.workers i with
        handler := .logged action
        times := { (s.workers i).times with logEnter := s.now, logExit := s.now } }
      { s.log with
        log := { s.log.log with len := len }
        heap := heap
        acquired := s.log.acquired ++ [entry]
        complete := s.log.complete ++ [entry] }
      (s.entered ++ [s.now])) := by
  obtain ⟨readers, writers, waiting⟩ := free
  subst advances
  have entered := Site.enter_alone closed reach readers writers pc formatted.symm
  obtain ⟨heap, done⟩ := Site.bodies_alone closed fits entered
  exact ⟨heap, Site.leave_alone closed waiting writers idle done⟩

end Alone

/-- A lone `log_write` in any run. -/
theorem Site.Reachable.writes (reach : Site.Reachable s) {action : Action} (pc : (s.workers i).handler = .counted action)
    (idle : s.log.threads = fun _ => .idle) {entry : Log.CString}
    (formatted : entry = statsEntry (s.workers i).stats (s.workers i).times) {len : Int}
    (advances : len = Log.int32 (s.log.log.len + Log.int32 entry.bytes.length))
    (fits : ¬s.log.log.capacity < Log.int32 (len + 1)) :
    ∃ heap, Site.Reachable (s.put i
      { s.workers i with
        handler := .logged action
        times := { (s.workers i).times with logEnter := s.now, logExit := s.now } }
      { s.log with
        log := { s.log.log with len := len }
        heap := heap
        acquired := s.log.acquired ++ [entry]
        complete := s.log.complete ++ [entry] }
      (s.entered ++ [s.now])) :=
  Site.writes_alone (fun reach step _ => reach.step step) reach (reach.log.lock.idle idle) pc idle formatted advances fits

end OsProjects.Server
