import Mathlib.Logic.Relation
import OsProjects.Server.Freshness
import OsProjects.Server.HandleRequest
import OsProjects.Server.LoneReader

/-!
# What a POST reports

A GET is in the log before it is answered, and a POST answers with the log as it was at
one moment of its own. Between the two lies only the order in which the clients
saw things happen: a POST that begins later reports every GET that was logged, and all that
an earlier POST was about to report.
-/

namespace OsProjects.Server

open CText Relation

variable {n : Nat} {s s' s₀ s₁ s₂ : Site n} {i : Fin n} {w : WorkerState} {h : Handler} {t t' : Log.Thread}
  {c c' : List Log.CString} {len : Int} {out : Bytes}

/-- The entry of the worker's request, formatted before the log was entered. -/
def WorkerState.entry (w : WorkerState) : Log.CString := statsEntry w.stats w.times.dispatched

/-- The response that the worker is about to send has these entries as its body. -/
def WorkerState.Reports (w : WorkerState) (entries : List Log.CString) : Prop :=
  ∃ len out, w.handler = .answering len out ∧
    servePost len out w.stats w.times =
      (postHeaders (postBody (Log.text entries)).length ++ statLines w.stats w.times).flatten ++ lit "\r\n" ++
        postBody (Log.text entries)

/-! ## GET -/

/-- Where the entry of the worker's request is: nowhere yet, in the hands of its thread, or in the log. -/
def WorkerState.Noted (w : WorkerState) (t : Log.Thread) (c : List Log.CString) : Prop :=
  match w.handler with
  | .received | .routed _ | .counted _ => w.times = w.times.dispatched
  | .writing _ _ => t.call = some (some w.entry)
  | .logged _ => w.entry ∈ c
  | _ => True

/-- The thread stays in its call, and entries are only added. -/
theorem WorkerState.Noted.stays (noted : w.Noted t c) (stays : t.Stays t') (more : c <+: c') : w.Noted t' c' := by
  unfold WorkerState.Noted at noted ⊢
  cases h : w.handler <;> rw [h] at noted <;> simp only at noted ⊢
  case received => exact noted
  case routed => exact noted
  case counted => exact noted
  case writing => exact stays.1.trans noted
  case logged => exact more.subset noted

/-- Every worker knows where its entry is. -/
def Site.Noted (s : Site n) : Prop := ∀ i, (s.workers i).Noted (s.log.threads i) s.log.complete

namespace Site.Noted

/-- One worker moves. -/
theorem set (noted : s.Noted) {l : Log.State (Fin n)} {entered : List Timeval}
    (threads : ∀ j, j ≠ i → l.threads j = s.log.threads j) (complete : l.complete = s.log.complete)
    (worker : w.Noted (l.threads i) s.log.complete) : Site.Noted { s.set i w with log := l, entered := entered } := by
  intro j
  change (Function.update s.workers i w j).Noted (l.threads j) l.complete
  rw [complete]
  by_cases e : j = i
  · subst e
    rw [Function.update_self]
    exact worker
  · rw [Function.update_of_ne e, threads j e]
    exact noted j

/-- The worker alone moves. -/
theorem setWorker (noted : s.Noted) (worker : w.Noted (s.log.threads i) s.log.complete) : (s.set i w).Noted :=
  noted.set (fun _ _ => rfl) rfl worker

/-- **A step inside the log.** -/
theorem log (noted : s.Noted) (called : s.Called) {l : Log.State (Fin n)} (calls : Log.CallsAfter s.log l) :
    Site.Noted { s with
      log := l
      workers := fun i => { s.workers i with handler := (s.workers i).handler.next (s.log.threads i) (l.threads i) } } := by
  have stay : ∀ j, (s.log.threads j).Stays (l.threads j) → s.log.complete <+: l.complete → WorkerState.Noted
      { s.workers j with handler := (s.workers j).handler.next (s.log.threads j) (l.threads j) } (l.threads j) l.complete := by
    intro j stays more
    rw [Handler.next_of_stays stays]
    exact (noted j).stays stays more
  intro j
  cases calls with
  | same stays complete => exact stay j (stays j) (complete ▸ List.prefix_rfl)
  | wrote i entry before after others complete =>
    by_cases e : j = i
    · -- the entry it was called with is the last of the log now
      subst e
      obtain ⟨action, stamp, tm, pc, -⟩ := (called j).writing (congrArg Log.Thread.call before)
      have call := noted j
      unfold WorkerState.Noted at call
      simp only [pc, before, Log.Thread.call, Option.some_inj] at call
      simp only [before, after, pc, Handler.next, complete]
      exact List.mem_append_right _ (List.mem_singleton.mpr call.symm)
    · exact stay j (others j e) (complete ▸ List.prefix_append _ _)
  | read i len out before after others complete =>
    by_cases e : j = i
    · subst e
      obtain ⟨stamp, pc⟩ := (called j).reading (congrArg Log.Thread.call before)
      simp only [before, after, pc, Handler.next]
      trivial
    · exact stay j (others j e) (complete ▸ List.prefix_rfl)

/-- **Every step.** -/
theorem step (noted : s.Noted) (called : s.Called) (step : Site.Step s s') : s'.Noted := by
  have worker : ∀ {i h}, (s.workers i).handler = h →
      { s.workers i with handler := h }.Noted (s.log.threads i) s.log.complete := by
    intro i h pc
    subst pc
    exact noted i
  cases step with
  | tick now later => exact noted
  | dispatch arrival pc => exact noted.setWorker rfl
  | hangUp pc => exact noted.setWorker trivial
  | receive buf method uri version stat pc => exact noted.setWorker (worker pc)
  | sendError pc => exact noted.setWorker trivial
  | countPost pc => exact noted.setWorker trivial
  | countDynamic pc => exact noted.setWorker (worker pc)
  | countStatic pc => exact noted.setWorker (worker pc)
  | @callWrite i action pc =>
    have fresh : (s.workers i).times = (s.workers i).times.dispatched := worker pc
    refine noted.set (fun j ne => s.log.set_ne _ ne) rfl ?_
    rw [s.log.set_self, fresh]
    exact rfl
  | callRead pc => exact noted.set (fun j ne => s.log.set_ne _ ne) rfl trivial
  | log step inside permitted => exact noted.log called (step.callsAfter inside)
  | enterWrite pc lock => exact noted.set (fun _ _ => rfl) rfl (worker pc)
  | exitWrite pc done => exact noted.setWorker (worker pc)
  | enterRead pc lock => exact noted.setWorker trivial
  | exitRead pc done => exact noted.setWorker trivial
  | serveStatic content pc => exact noted.setWorker trivial
  | serveDynamic output pc => exact noted.setWorker trivial
  | servePost pc => exact noted.setWorker trivial

end Site.Noted

theorem Site.Reachable.noted (reach : Site.Reachable s) : s.Noted := by
  induction reach with
  | start now data heap times => exact fun _ => trivial
  | step reach step ih => exact ih.step reach.called step

/-! ## POST -/

/-- The log is only ever added to. -/
theorem Site.Step.log_grows (step : Site.Step s s') :
    s.log.complete <+: s'.log.complete ∧ s.log.acquired <+: s'.log.acquired := by
  cases step with
  | log step inside permitted => exact ⟨step.brought_le.2, step.acquired_prefix⟩
  | _ => exact ⟨List.prefix_rfl, List.prefix_rfl⟩

theorem Site.run_grows (reach : Site.Reachable s₁) (run : ReflTransGen Site.Step s₁ s₂) :
    Site.Reachable s₂ ∧ s₁.log.complete <+: s₂.log.complete ∧ s₁.log.acquired <+: s₂.log.acquired := by
  induction run with
  | refl => exact ⟨reach, List.prefix_rfl, List.prefix_rfl⟩
  | tail _ step ih =>
    obtain ⟨reach, complete, acquired⟩ := ih
    exact ⟨reach.step step, complete.trans step.log_grows.1, acquired.trans step.log_grows.2⟩

theorem Log.length_text_le (more : c <+: c') : (Log.text c).length ≤ (Log.text c').length := by
  obtain ⟨rest, rfl⟩ := more
  rw [Log.text_append, List.length_append]
  omega

/-- Whose writer has unlocked has had the lock. -/
theorem Log.ContentInv.complete_acquired {l : Log.State (Fin n)} (inv : Log.ContentInv l) : l.complete <+: l.acquired := by
  by_cases inside : ∃ i, (l.threads i).role = .writer
  · obtain ⟨i, role⟩ := inside
    obtain ⟨entry, point, pc⟩ := Log.role_writer role
    rw [(inv.writer i entry point pc).1]
    exact List.prefix_append _ _
  · rw [(inv.quiet (not_exists.mp inside)).1]

/-- A `log_read` that returns has read to its end. -/
theorem Handler.answering_of_next (answers : h.next t t' = .answering len out) :
    h = .answering len out ∨ t = .reading (.done len out) := by
  unfold Handler.next at answers
  split at answers
  · cases answers
  · cases answers
    exact .inr rfl
  · exact .inl answers

/-- **How a worker gets to its answer.** -/
theorem Site.Step.answering_cases (step : Site.Step s s') (answers : (s'.workers i).handler = .answering len out) :
    (s.workers i).handler = .answering len out ∨ s.log.threads i = .reading (.done len out) := by
  have moved : ∀ {j w}, (Function.update s.workers j w i).handler = .answering len out → w.handler ≠ .answering len out →
      (s.workers i).handler = .answering len out := by
    intro j w answers other
    by_cases e : i = j
    · subst e
      rw [Function.update_self] at answers
      exact absurd answers other
    · rwa [Function.update_of_ne e] at answers
  cases step with
  | tick now later => exact .inl answers
  | log step inside permitted => exact Handler.answering_of_next answers
  | _ => exact .inl (moved answers Handler.noConfusion)

/-- If worker `i` answers, then with a log that has at least these entries. -/
def Site.AnswersFrom (s : Site n) (i : Fin n) (c : List Log.CString) : Prop :=
  ∀ len out, (s.workers i).handler = .answering len out → ∃ entries : List Log.CString,
    len = (Log.text entries).length ∧ out = Log.text entries ++ [0] ∧ c <+: entries ∧ entries <+: s.log.complete

/-- A step, from a state in which these entries are complete. -/
theorem Site.AnswersFrom.step (answers : s.AnswersFrom i c) (reach : Site.Reachable s)
    (small : (Log.text s.log.acquired).length < 2 ^ 30) (complete : c <+: s.log.complete) (step : Site.Step s s') :
    s'.AnswersFrom i c := by
  intro len out pc
  obtain ⟨grows, -⟩ := step.log_grows
  rcases step.answering_cases pc with before | done
  · obtain ⟨entries, length, text, atLeast, atMost⟩ := answers len out before
    exact ⟨entries, length, text, atLeast, atMost.trans grows⟩
  · -- the reader keeps the writers out, so what it has is the log of this moment
    obtain ⟨length, text⟩ := (reach.log.contents small).reader i _ done
    exact ⟨s.log.complete, length, text, complete, grows⟩

/-- A run, from a state in which the worker has no answer yet. -/
theorem Site.answersFrom_run (reach : Site.Reachable s₁) (none : ∀ len out, (s₁.workers i).handler ≠ .answering len out)
    (run : ReflTransGen Site.Step s₁ s₂) (small : (Log.text s₂.log.acquired).length < 2 ^ 30) :
    s₂.AnswersFrom i s₁.log.complete := by
  induction run with
  | refl => exact fun len out pc => absurd pc (none len out)
  | tail run step ih =>
    have before := (Log.length_text_le step.log_grows.2).trans_lt small
    obtain ⟨reach', complete, -⟩ := Site.run_grows reach run
    exact (ih before).step reach' before complete step

/-- Every answer is one with a log that once was. -/
theorem Site.Reachable.answersFrom (reach : Site.Reachable s) (small : (Log.text s.log.acquired).length < 2 ^ 30) :
    s.AnswersFrom i [] := by
  induction reach with
  | start now data heap times => exact fun len out pc => absurd pc Handler.noConfusion
  | step reach step ih =>
    have before := (Log.length_text_le step.log_grows.2).trans_lt small
    exact (ih before).step reach before List.nil_prefix step

/-- What `serve_post` sends of such a log. -/
theorem Site.Reachable.reports {entries : List Log.CString} (reach : Site.Reachable s)
    (small : (Log.text s.log.acquired).length < 2 ^ 30) (pc : (s.workers i).handler = .answering len out)
    (length : len = (Log.text entries).length) (text : out = Log.text entries ++ [0]) (atMost : entries <+: s.log.complete) :
    (s.workers i).Reports entries := by
  have fits := Log.length_text_le (atMost.trans (reach.log.contents small).complete_acquired)
  subst length text
  refine ⟨_, _, pc, servePost_eq ?_⟩
  unfold postBody IsInt
  split_ifs
  · decide
  · omega

/-- **A POST reports what came before it.** Whatever the workers do between: a request that worker `i` begins later and
that turns out to be a POST is answered with a log that has the entry of every GET that had been logged, and starts
with the log of every POST that was about to be answered. -/
theorem post_reports (reach : Site.Reachable s₀) (run : ReflTransGen Site.Step s₀ s₁)
    (outside : (s₁.workers i).handler = .outside) (run' : ReflTransGen Site.Step s₁ s₂)
    (answering : (s₂.workers i).handler = .answering len out) (small : (Log.text s₂.log.acquired).length < 2 ^ 30) :
    ∃ entries, (s₂.workers i).Reports entries ∧ entries <+: s₂.log.complete ∧
      (∀ j action, (s₀.workers j).handler = .logged action → (s₀.workers j).entry ∈ entries) ∧
      ∀ j len₀ out₀, (s₀.workers j).handler = .answering len₀ out₀ →
        ∃ earlier, (s₀.workers j).Reports earlier ∧ earlier <+: entries := by
  obtain ⟨reach₁, complete, acquired⟩ := Site.run_grows reach run
  have none : ∀ len out, (s₁.workers i).handler ≠ .answering len out := by
    intro len out pc
    cases outside.symm.trans pc
  obtain ⟨reach₂, -, acquired'⟩ := Site.run_grows reach₁ run'
  obtain ⟨entries, length, text, atLeast, atMost⟩ := Site.answersFrom_run reach₁ none run' small len out answering
  have before := complete.trans atLeast
  refine ⟨entries, reach₂.reports small answering length text atMost, atMost, ?_, ?_⟩
  · intro j action logged
    have noted := reach.noted j
    unfold WorkerState.Noted at noted
    rw [logged] at noted
    exact before.subset noted
  · intro j len₀ out₀ pc
    have small₀ := (Log.length_text_le (acquired.trans acquired')).trans_lt small
    obtain ⟨earlier, length₀, text₀, -, atMost₀⟩ := reach.answersFrom small₀ len₀ out₀ pc
    exact ⟨earlier, reach.reports small₀ pc length₀ text₀ atMost₀, atMost₀.trans before⟩

/-- One worker has logged a GET, and the other answers a POST. -/
theorem post_reports_get : ∃ (s₀ s₂ : Site 2) (action : Action) (entries : List Log.CString), Site.Reachable s₀ ∧
    (s₀.workers 0).handler = .logged action ∧ ReflTransGen Site.Step s₀ s₂ ∧ (s₂.workers 1).Reports entries ∧
    (s₀.workers 0).entry ∈ entries := by
  let stat : Bytes → Option FileStat := fun _ => some ⟨true, true, true, 5⟩
  have reach₀ := Site.Reachable.start (n := 2) ⟨0, 0⟩ 0 (fun _ _ => 0) fun _ => ⟨⟨0, 0⟩, ⟨0, 0⟩, ⟨0, 0⟩, ⟨0, 0⟩⟩
  have reach₁ := reach₀.step (.dispatch (i := 0) ⟨0, 0⟩ rfl)
  have reach₂ := reach₁.step (.receive (i := 0) (lit "GET /a HTTP/1.0") [] [] [] stat rfl)
  have reach₃ := reach₂.step (.countStatic (i := 0) rfl)
  let entry := statsEntry ⟨1, 1, 1, 0, 0⟩ ⟨⟨0, 0⟩, ⟨0, 0⟩, ⟨0, 0⟩, ⟨0, 0⟩⟩
  have size : (234 : Int) = Log.int32 (0 + Log.int32 entry.bytes.length) := by decide +kernel
  have small : (Log.text [entry]).length < 2 ^ 30 := by decide +kernel
  obtain ⟨heap, reach⟩ := reach₃.writes (i := 0) rfl rfl rfl size (by decide : ¬(4096 : Int) < Log.int32 (234 + 1))
  have stay : ∀ {s : Site 2}, Site.Reachable s → ReflTransGen Site.Step s s := fun _ => .refl
  have begins := (stay reach).tail (.dispatch (i := 1) ⟨0, 0⟩ rfl)
    |>.tail (.receive (i := 1) (lit "POST / HTTP/1.0") [] [] [] stat rfl) |>.tail (.countPost (i := 1) rfl)
  obtain ⟨s₂, len, out, run, answering, acquired⟩ := Site.reads_alone (i := 1) begins rfl rfl ⟨rfl, rfl, rfl⟩
    (show (0 : Int) ≤ 234 by decide)
  obtain ⟨entries, reports, -, get, -⟩ := post_reports reach .refl rfl run answering (acquired ▸ small)
  exact ⟨_, s₂, _, entries, reach, rfl, run, reports, get 0 _ rfl⟩

end OsProjects.Server
