import Mathlib.Logic.Relation
import OsProjects.Server.LoneWriter

/-!
# A worker alone with the log, reading

A run of `log_read` from its call to its return, with nobody else in the log.
-/

namespace OsProjects.Server

open Relation

variable {n : Nat} {s₀ s : Site n} {i : Fin n} {w : WorkerState} {entered : List Timeval}

/-- The body of `log_read` goes on to its end. -/
theorem Log.exists_read (log : Log.ServerLog) (len : 0 ≤ log.len) (heap : Log.Heap) :
    ∃ out, ReflTransGen (Log.ReadStep log heap) .len (.done log.len out) := by
  have copying : ∀ k : Nat, (k : Int) ≤ log.len + 1 → ∃ out : List UInt8, out.length = k ∧
      ReflTransGen (Log.ReadStep log heap) .len (.copy log.data log.len out) := by
    intro k le
    induction k with
    | zero => exact ⟨[], rfl, .tail (.single .len) (.start _)⟩
    | succ k ih =>
      obtain ⟨out, length, copied⟩ := ih (by omega)
      have next := copied.tail (.copyByte (by omega))
      exact ⟨_, by rw [List.length_append, length, List.length_singleton], next⟩
  obtain ⟨out, length, copied⟩ := copying (log.len + 1).toNat (by omega)
  exact ⟨out, copied.tail (.copied (by omega))⟩

namespace Log.State

variable {l : Log.State (Fin n)} {point point' : Log.ReadPoint}

/-- The log while the thread of worker `i` reads, alone in the lock. -/
def aloneReading (l : Log.State (Fin n)) (i : Fin n) (point : Log.ReadPoint) : Log.State (Fin n) :=
  { l with log := { l.log with readersActive := 1 }, threads := Function.update l.threads i (.reading point) }

theorem lock_aloneReading (readers : l.log.readersActive = 0) (writers : l.log.writersActive = 0)
    (waiting : l.log.writersWaiting = 0) : Log.Step (l.set i .wantRead) (l.aloneReading i .len) := by
  have step := Log.Step.lockRead (s := l.set i .wantRead) (l.set_self i _)
  unfold Log.State.tryRead at step
  rw [if_neg (by simp [Log.State.set, writers, waiting])] at step
  simpa only [aloneReading, Log.State.set, Function.update_idem, readers, Int.zero_add] using step

theorem read_aloneReading (body : Log.ReadStep { l.log with readersActive := 1 } l.heap point point') :
    Log.Step (l.aloneReading i point) (l.aloneReading i point') := by
  have step := Log.Step.read (s := l.aloneReading i point) (Function.update_self i _ _) body
  have eq : (l.aloneReading i point).set i (.reading point') = l.aloneReading i point' := by
    simp only [aloneReading, Log.State.set, Function.update_idem]
  exact eq ▸ step

/-- Nobody waits, so nobody is woken. -/
theorem unlock_aloneReading (readers : l.log.readersActive = 0) (idle : l.threads = fun _ => .idle) (len : Int) (out : List UInt8) :
    Log.Step (l.aloneReading i (.done len out)) { l with returned := l.returned ++ [(len, out)] } := by
  have quiet : Function.update (Function.update l.threads i (.reading (.done len out))) i .idle = l.threads := by
    rw [Function.update_idem, idle]
    exact Function.update_eq_self i _
  have step := Log.Step.unlockRead (s := l.aloneReading i (.done len out)) (Function.update_self i _ _)
    (.writer rfl (.nobody fun j => by
      change Log.Thread.wakeWrite (Function.update (Function.update l.threads i _) i .idle j) = none
      rw [quiet, idle]
      rfl))
  have threads : (l.aloneReading i (.done len out)).threads = Function.update l.threads i (.reading (.done len out)) := rfl
  rw [threads, quiet] at step
  have log : ({ l with returned := l.returned ++ [(len, out)] } : Log.State (Fin n)) =
      { l with log := { l.log with readersActive := 0 }, returned := l.returned ++ [(len, out)] } := by
    rw [← readers]
  rw [log]
  exact step

end Log.State

/-- A step of the body of `log_read`, between its two times. -/
theorem Site.Step.reading_alone {l : Log.State (Fin n)} (pc : w.handler = .reading .enter) {point point' : Log.ReadPoint}
    (body : Log.ReadStep { l.log with readersActive := 1 } l.heap point point') :
    Site.Step (s.put i w (l.aloneReading i point) entered) (s.put i w (l.aloneReading i point') entered) := by
  have permitted : w.handler.permits (.reading point) := by
    rw [pc]
    cases body <;> rfl
  have stays : w.handler.next (.reading point) (.reading point') = w.handler :=
    Handler.next_of_stays ⟨rfl, id⟩
  have step : Site.Step (s.put i w (l.aloneReading i point) entered)
      (s.put i { w with handler := w.handler.next (.reading point) (.reading point') } (l.aloneReading i point') entered) :=
    .inLog (Log.State.read_aloneReading body) l.threads _ rfl rfl Log.Thread.noConfusion permitted
  rw [stays] at step
  exact step

/-- **A `log_read` with nobody else in the log**, from the call to the answer, at the end of any run. -/
theorem Site.reads_alone (run : ReflTransGen Site.Step s₀ s) (pc : (s.workers i).handler = .posting)
    (idle : s.log.threads = fun _ => .idle)
    (free : s.log.log.readersActive = 0 ∧ s.log.log.writersActive = 0 ∧ s.log.log.writersWaiting = 0) (len : 0 ≤ s.log.log.len) :
    ∃ s' len out, ReflTransGen Site.Step s₀ s' ∧ (s'.workers i).handler = .answering len out ∧
      s'.log.acquired = s.log.acquired := by
  obtain ⟨readers, writers, waiting⟩ := free
  obtain ⟨out, body⟩ := Log.exists_read { s.log.log with readersActive := 1 } len s.log.heap
  let called : WorkerState := { s.workers i with handler := .reading .none }
  let entering : WorkerState :=
    { s.workers i with handler := .reading .enter, times := { (s.workers i).times with logEnter := s.now } }
  let leaving : WorkerState :=
    { s.workers i with handler := .reading .exit, times := { (s.workers i).times with logEnter := s.now, logExit := s.now } }
  have calls : Site.Step s (s.put i called (s.log.set i .wantRead) s.entered) := .callRead pc
  have locks : Site.Step (s.put i called (s.log.set i .wantRead) s.entered) (s.put i called (s.log.aloneReading i .len) s.entered) :=
    .inLog (Log.State.lock_aloneReading readers writers waiting) _ _ rfl rfl Log.Thread.noConfusion trivial
  have enters : Site.Step (s.put i called (s.log.aloneReading i .len) s.entered)
      (s.put i entering (s.log.aloneReading i .len) s.entered) := by
    have step := Site.Step.enterRead (s := s.put i called (s.log.aloneReading i .len) s.entered) (i := i)
      (congrArg _ (s.put_worker i _ _ _)) (Function.update_self i _ _)
    rw [Site.put_worker] at step
    exact (congrArg (Site.Step _) (s.put_put i called entering _ _ _ _)).mp step
  have reads : ReflTransGen Site.Step (s.put i entering (s.log.aloneReading i .len) s.entered)
      (s.put i entering (s.log.aloneReading i (.done s.log.log.len out)) s.entered) :=
    body.lift (fun point => s.put i entering (s.log.aloneReading i point) s.entered)
      fun _ _ (body : Log.ReadStep _ _ _ _) => Site.Step.reading_alone rfl body
  have exits : Site.Step (s.put i entering (s.log.aloneReading i (.done s.log.log.len out)) s.entered)
      (s.put i leaving (s.log.aloneReading i (.done s.log.log.len out)) s.entered) := by
    have step := Site.Step.exitRead (s := s.put i entering (s.log.aloneReading i (.done s.log.log.len out)) s.entered) (i := i)
      (congrArg _ (s.put_worker i _ _ _)) (Function.update_self i _ _)
    rw [Site.put_worker] at step
    exact (congrArg (Site.Step _) (s.put_put i entering leaving _ _ _ _)).mp step
  have quiet : s.log.threads = Function.update s.log.threads i .idle := by
    rw [idle]
    exact (Function.update_eq_self i _).symm
  have unlocks : Site.Step (s.put i leaving (s.log.aloneReading i (.done s.log.log.len out)) s.entered)
      (s.put i { leaving with handler := .answering s.log.log.len out }
        { s.log with returned := s.log.returned ++ [(s.log.log.len, out)] } s.entered) :=
    .inLog (Log.State.unlock_aloneReading readers idle _ out) s.log.threads .idle rfl quiet Log.Thread.noConfusion rfl
  have whole := (((run.tail calls).tail locks).tail enters).trans reads |>.tail exits |>.tail unlocks
  refine ⟨_, s.log.log.len, out, whole, ?_, rfl⟩
  rw [s.put_worker]

end OsProjects.Server
