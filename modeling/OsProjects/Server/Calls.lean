import OsProjects.Server.Handler

/-!
# Handlers and their calls of the log

A worker's thread is inside the log exactly while its handler waits for `log_write` or
`log_read`, and then with the entry that was formatted from the worker's counters and with
its dispatch time as the time of its entry into the log. So the steps of the log that the
workers take are steps of the log on its own.
-/

namespace OsProjects.Server

open CText Threads

/-! ## Calls of the log -/

namespace Log

/-- The call a thread is in: `none` outside the log, `some none` in `log_read`. -/
def Thread.call : Thread → Option (Option CString)
  | .idle => none
  | .wantWrite entry | .waitWrite entry | .wokenWrite entry | .writing entry _ => some (some entry)
  | .wantRead | .waitRead | .wokenRead | .reading _ => some none

variable {ι : Type*} [DecidableEq ι] {s s' : State ι} {th th' : ι → Thread} {i : ι}

/-- A thread stays in its call, and inside the lock if it writes. -/
def Thread.Stays (t t' : Thread) : Prop := t'.call = t.call ∧ (t.role = .writer → t'.role = .writer)

theorem call_eq_none {t : Thread} : t.call = none ↔ t = .idle := by
  cases t <;> simp [Thread.call]

theorem Thread.Stays.refl (t : Thread) : t.Stays t := ⟨rfl, id⟩

theorem wakeWrite_stays {a b : Thread} (woken : a.wakeWrite = some b) : a.Stays b := by
  cases a with
  | waitWrite entry =>
    obtain rfl := Option.some_inj.mp woken
    exact ⟨rfl, fun role => nomatch role⟩
  | _ => exact nomatch woken

theorem wakeRead_stays {a b : Thread} (woken : a.wakeRead = some b) : a.Stays b := by
  cases a with
  | waitRead =>
    obtain rfl := Option.some_inj.mp woken
    exact ⟨rfl, fun role => nomatch role⟩
  | _ => exact nomatch woken

theorem update_stays {t : Thread} (stays : (th i).Stays t) (j : ι) : (th j).Stays (Function.update th i t j) := by
  by_cases e : j = i
  · subst e
    rw [Function.update_self]
    exact stays
  · rw [Function.update_of_ne e]
    exact .refl _

theorem signal_stays (signal : Signal Thread.wakeWrite th th') (j : ι) : (th j).Stays (th' j) := by
  cases signal with
  | wakes i blocked => exact update_stays (wakeWrite_stays blocked) j
  | nobody none => exact .refl _

omit [DecidableEq ι] in
theorem broadcast_stays (th : ι → Thread) (j : ι) : (th j).Stays (broadcast Thread.wakeRead th j) := by
  unfold broadcast
  cases woken : (th j).wakeRead with
  | none => exact .refl _
  | some a => exact wakeRead_stays woken

theorem WriteUnlockWakes.stays {log : ServerLog} (wakes : WriteUnlockWakes log th th') (j : ι) : (th j).Stays (th' j) := by
  cases wakes with
  | writer _ signal => exact signal_stays signal j
  | readers _ => exact broadcast_stays th j

theorem ReadUnlockWakes.stays {log : ServerLog} (wakes : ReadUnlockWakes log th th') (j : ι) : (th j).Stays (th' j) := by
  cases wakes with
  | writer _ signal => exact signal_stays signal j
  | nobody _ => exact .refl _

/-- What a step inside the log does to the calls under way and to the complete entries. -/
inductive CallsAfter (s s' : State ι) : Prop where
  | same (stay : ∀ j, (s.threads j).Stays (s'.threads j)) (complete : s'.complete = s.complete)
  | wrote (i : ι) (entry : CString) (before : s.threads i = .writing entry .done) (after : s'.threads i = .idle)
      (others : ∀ j, j ≠ i → (s.threads j).Stays (s'.threads j)) (complete : s'.complete = s.complete ++ [entry])
  | read (i : ι) (len : Int) (out : List UInt8) (before : s.threads i = .reading (.done len out))
      (after : s'.threads i = .idle) (others : ∀ j, j ≠ i → (s.threads j).Stays (s'.threads j))
      (complete : s'.complete = s.complete)

/-- **A step inside the log**, one that is no call. -/
theorem Step.callsAfter (step : Step s s') (inside : ∀ i, s.threads i = .idle → s'.threads i = .idle) :
    CallsAfter s s' := by
  have tryWrite : ∀ (log : ServerLog) {i entry t}, s.threads i = t → t.call = some (some entry) → t.role ≠ .writer →
      CallsAfter s (State.tryWrite { s with log := log } i entry) := by
    intro log i entry t pc call outside
    subst pc
    unfold State.tryWrite
    split_ifs <;> exact .same (update_stays ⟨call.symm, fun role => absurd role outside⟩) rfl
  have tryRead : ∀ {i t}, s.threads i = t → t.call = some none → t.role ≠ .writer → CallsAfter s (s.tryRead i) := by
    intro i t pc call outside
    subst pc
    unfold State.tryRead
    split_ifs <;> exact .same (update_stays ⟨call.symm, fun role => absurd role outside⟩) rfl
  have leaves : ∀ {i} {th' : ι → Thread}, (∀ j, (Function.update s.threads i .idle j).Stays (th' j)) →
      th' i = .idle ∧ ∀ j, j ≠ i → (s.threads j).Stays (th' j) := by
    intro i th' stay
    constructor
    · have self := (stay i).1
      rw [Function.update_self] at self
      exact call_eq_none.mp self
    · intro j ne
      have other := stay j
      rwa [Function.update_of_ne ne] at other
  cases step with
  | callWrite i entry pc => exact nomatch (s.set_self i _).symm.trans (inside i pc)
  | callRead i pc => exact nomatch (s.set_self i _).symm.trans (inside i pc)
  | lockWrite pc => exact tryWrite _ pc rfl (nomatch ·)
  | retryWrite pc => exact tryWrite s.log pc rfl (nomatch ·)
  | lockRead pc => exact tryRead pc rfl (nomatch ·)
  | retryRead pc => exact tryRead pc rfl (nomatch ·)
  | spurious blocked => exact .same (update_stays (blocked.elim wakeWrite_stays wakeRead_stays)) rfl
  | write pc body => exact .same (update_stays (pc ▸ ⟨rfl, fun _ => rfl⟩)) rfl
  | read pc body => exact .same (update_stays (pc ▸ ⟨rfl, fun role => nomatch role⟩)) rfl
  | unlockWrite pc wakes =>
    obtain ⟨after, others⟩ := leaves wakes.stays
    exact .wrote _ _ pc after others rfl
  | unlockRead pc wakes =>
    obtain ⟨after, others⟩ := leaves wakes.stays
    exact .read _ _ _ pc after others rfl

end Log

/-! ## Calls of a worker -/

variable {n : Nat} {s s' : Site n} {i : Fin n} {w : WorkerState} {h : Handler} {t t' : Log.Thread}

/-- The worker's thread is where its handler is. -/
def WorkerState.Calls (w : WorkerState) (t : Log.Thread) : Prop :=
  match w.handler with
  | .received | .routed _ | .counted _ => t = .idle ∧ w.times.logEnter = w.times.taskDispatch
  | .writing _ stamp =>
    (∃ tm, tm.logEnter = w.times.taskDispatch ∧ t.call = some (some (statsEntry w.stats tm))) ∧
      (stamp ≠ .none → t.role = .writer)
  | .reading _ => t.call = some none
  | _ => t = .idle

/-- A handler does not notice a step that stays in the call. -/
theorem Handler.next_of_stays (stays : t.Stays t') : h.next t t' = h := by
  unfold Handler.next
  split
  · exact nomatch stays.1
  · exact nomatch stays.1
  · rfl

namespace WorkerState.Calls

theorem stays (calls : w.Calls t) (stays : t.Stays t') : w.Calls t' := by
  have idle : t = .idle → t' = .idle := by
    rintro rfl
    exact Log.call_eq_none.mp stays.1
  unfold WorkerState.Calls at calls ⊢
  cases h : w.handler <;> rw [h] at calls <;> simp only at calls ⊢
  case outside => exact idle calls
  case received => exact ⟨idle calls.1, calls.2⟩
  case routed => exact ⟨idle calls.1, calls.2⟩
  case counted => exact ⟨idle calls.1, calls.2⟩
  case writing =>
    obtain ⟨⟨tm, enter, call⟩, role⟩ := calls
    exact ⟨⟨tm, enter, stays.1.trans call⟩, fun stamped => stays.2 (role stamped)⟩
  case logged => exact idle calls
  case posting => exact idle calls
  case reading => exact stays.1.trans calls
  case answering => exact idle calls

/-- Who is in `log_write` was called with its entry. -/
theorem writing {entry : Log.CString} (calls : w.Calls t) (call : t.call = some (some entry)) :
    ∃ action stamp tm, w.handler = .writing action stamp ∧ entry = statsEntry w.stats tm ∧
      tm.logEnter = w.times.taskDispatch := by
  have idle : t ≠ .idle := by
    rintro rfl
    exact nomatch call
  unfold WorkerState.Calls at calls
  cases h : w.handler <;> rw [h] at calls <;> simp only at calls
  case writing action stamp =>
    obtain ⟨⟨tm, enter, call'⟩, -⟩ := calls
    exact ⟨action, stamp, tm, rfl, Option.some_inj.mp (Option.some_inj.mp (call.symm.trans call')), enter⟩
  case reading => exact nomatch call.symm.trans calls
  case received => exact absurd calls.1 idle
  case routed => exact absurd calls.1 idle
  case counted => exact absurd calls.1 idle
  all_goals exact absurd calls idle

theorem reading (calls : w.Calls t) (call : t.call = some none) : ∃ stamp, w.handler = .reading stamp := by
  have idle : t ≠ .idle := by
    rintro rfl
    exact nomatch call
  unfold WorkerState.Calls at calls
  cases h : w.handler <;> rw [h] at calls <;> simp only at calls
  case writing =>
    obtain ⟨⟨tm, -, call'⟩, -⟩ := calls
    exact nomatch call.symm.trans call'
  case reading stamp => exact ⟨stamp, rfl⟩
  case received => exact absurd calls.1 idle
  case routed => exact absurd calls.1 idle
  case counted => exact absurd calls.1 idle
  all_goals exact absurd calls idle

end WorkerState.Calls

/-- Every worker's thread is where its handler is. -/
def Site.Called (s : Site n) : Prop := ∀ i, (s.workers i).Calls (s.log.threads i)

namespace Site.Called

theorem set (called : s.Called) {l : Log.State (Fin n)} {entered : List Timeval}
    (threads : ∀ j, j ≠ i → l.threads j = s.log.threads j) (worker : w.Calls (l.threads i)) :
    Site.Called { s.set i w with log := l, entered := entered } := by
  intro j
  by_cases e : j = i
  · subst e
    change (Function.update s.workers j w j).Calls (l.threads j)
    rw [Function.update_self]
    exact worker
  · change (Function.update s.workers i w j).Calls (l.threads j)
    rw [Function.update_of_ne e, threads j e]
    exact called j

/-- The worker alone moves. -/
theorem setWorker (called : s.Called) (worker : w.Calls (s.log.threads i)) : (s.set i w).Called :=
  called.set (fun _ _ => rfl) worker

/-- A step inside the log. -/
theorem log (called : s.Called) {l : Log.State (Fin n)} (calls : Log.CallsAfter s.log l) :
    Site.Called { s with
      log := l
      workers := fun i => { s.workers i with handler := (s.workers i).handler.next (s.log.threads i) (l.threads i) } } := by
  have stay : ∀ j, (s.log.threads j).Stays (l.threads j) → WorkerState.Calls
      { s.workers j with handler := (s.workers j).handler.next (s.log.threads j) (l.threads j) } (l.threads j) := by
    intro j stays
    rw [Handler.next_of_stays stays]
    exact (called j).stays stays
  intro j
  cases calls with
  | same stays complete => exact stay j (stays j)
  | wrote i entry before after others complete =>
    by_cases e : j = i
    · subst e
      obtain ⟨action, stamp, tm, pc, -⟩ := (called j).writing (congrArg Log.Thread.call before)
      simp only [before, after, pc, Handler.next]
      rfl
    · exact stay j (others j e)
  | read i len out before after others complete =>
    by_cases e : j = i
    · subst e
      obtain ⟨stamp, pc⟩ := (called j).reading (congrArg Log.Thread.call before)
      simp only [before, after, pc, Handler.next]
      rfl
    · exact stay j (others j e)

/-- **Every step keeps the threads where the handlers are.** -/
theorem step (called : s.Called) (step : Site.Step s s') : s'.Called := by
  have worker : ∀ {i h}, (s.workers i).handler = h → { s.workers i with handler := h }.Calls (s.log.threads i) := by
    intro i h pc
    subst pc
    exact called i
  cases step with
  | tick now later => exact called
  | @dispatch i arrival pc =>
    have idle : s.log.threads i = .idle := worker pc
    exact called.setWorker ⟨idle, rfl⟩
  | hangUp pc => exact called.setWorker (worker pc).1
  | receive buf method uri version stat pc => exact called.setWorker (worker pc)
  | sendError pc => exact called.setWorker (worker pc).1
  | countPost pc => exact called.setWorker (worker pc).1
  | countDynamic pc => exact called.setWorker (worker pc)
  | countStatic pc => exact called.setWorker (worker pc)
  | @callWrite i action pc =>
    refine called.set (fun j ne => s.log.set_ne _ ne) ?_
    rw [s.log.set_self]
    exact ⟨⟨_, (worker pc).2, rfl⟩, fun no => absurd rfl no⟩
  | callRead pc =>
    refine called.set (fun j ne => s.log.set_ne _ ne) ?_
    rw [s.log.set_self]
    exact (rfl : Log.Thread.call .wantRead = some none)
  | log step inside permitted => exact called.log (step.callsAfter inside)
  | @enterWrite i action entry point pc lock =>
    obtain ⟨⟨tm, enter, call⟩, -⟩ := worker pc
    exact called.set (fun _ _ => rfl) ⟨⟨tm, enter, call⟩, fun _ => congrArg Log.Thread.role lock⟩
  | @exitWrite i action entry pc done =>
    obtain ⟨⟨tm, enter, call⟩, -⟩ := worker pc
    exact called.setWorker ⟨⟨tm, enter, call⟩, fun _ => congrArg Log.Thread.role done⟩
  | enterRead pc lock => exact called.setWorker (worker pc)
  | exitRead pc done => exact called.setWorker (worker pc)
  | serveStatic content pc => exact called.setWorker (worker pc)
  | serveDynamic output pc => exact called.setWorker (worker pc)
  | servePost pc => exact called.setWorker (worker pc)

end Site.Called

namespace Site.Reachable

theorem called (reach : Site.Reachable s) : s.Called := by
  induction reach with
  | start now data heap times => exact fun _ => rfl
  | step _ step ih => exact ih.step step

/-- **The log runs as on its own.** -/
theorem log (reach : Site.Reachable s) : Log.Reachable s.log := by
  induction reach with
  | start now data heap times => exact .start data heap
  | @step s s' reach step ih =>
    have idle : ∀ {i h}, (s.workers i).handler = h → { s.workers i with handler := h }.Calls (s.log.threads i) := by
      intro i h pc
      subst pc
      exact reach.called i
    cases step with
    | callWrite pc => exact ih.step (.callWrite _ _ (idle pc).1)
    | callRead pc => exact ih.step (.callRead _ (idle pc))
    | log step inside permitted => exact ih.step step
    | _ => exact ih

end Site.Reachable

end OsProjects.Server
