import OsProjects.Server.Counters

/-!
# The times in the log

An entry is formatted before `log_write` takes the time at which it entered the log, so the
entry shows what `log_enter` held before: the worker's dispatch time. Both are the same time
when the clock has not moved in between, and then the entries show times in order.
-/

namespace OsProjects.Server

open CText

variable {n : Nat} {s s' : Site n} {i : Fin n}

/-- The time that an entry shows for its writer's entry into the log. -/
def shownArrival (entry : Bytes) : Option Timeval := shownTime "Stat-Log-Arrival:: " entry

/-- Every entry shows the time at which its writer entered the log, and these times never decrease. -/
def LogTimes (s : Site n) : Prop :=
  (∀ (k : Nat) e, s.entries[k]? = some e → ∃ t, s.entered[k]? = some t ∧ shownArrival e = some t) ∧
  (s.entries.map shownArrival).Pairwise fun a b => ∃ t u, a = some t ∧ b = some u ∧ t.le u

/-- A `log_write` that takes its time of entry takes the worker's dispatch time. -/
def Punctual (s s' : Site n) : Prop :=
  ∀ i action, (s.workers i).handler = .writing action .none → (s'.workers i).handler = .writing action .enter →
    s.now = (s.workers i).times.taskDispatch

/-- The states reached by steps that are all punctual. -/
inductive Site.PunctualRun {n : Nat} : Site n → Prop where
  | start (now : Timeval) (data : Nat) (heap : Log.Heap) (times : Fin n → TimeStats) :
      PunctualRun (Site.start now data heap times)
  | step {s s' : Site n} (run : PunctualRun s) (step : Step s s') (punctual : Punctual s s') : PunctualRun s'

theorem Site.PunctualRun.reachable (run : Site.PunctualRun s) : Site.Reachable s := by
  induction run with
  | start now data heap times => exact .start now data heap times
  | step _ step _ ih => exact ih.step step

/-! ## The invariant -/

/-- `log_write` has taken its time of entry. -/
def Handler.Stamped : Handler → Prop
  | .writing _ stamp => stamp ≠ .none
  | _ => False

theorem Timeval.le_refl (a : Timeval) : a.le a := .inr ⟨rfl, Int.le_refl _⟩

theorem Timeval.le_trans {a b c : Timeval} (ab : a.le b) (bc : b.le c) : a.le c := by
  unfold Timeval.le at *
  omega

/-- The times of entry are those that the entries show, up to the entry that is being written. -/
structure TimesInv (s : Site n) : Prop where
  quiet : (∀ i, ¬(s.workers i).handler.Stamped) → s.entries.map shownArrival = s.entered.map some
  busy : ∀ i entry, (s.workers i).handler.Stamped → (s.log.threads i).call = some (some entry) →
    (s.entries ++ [entry.bytes]).map shownArrival = s.entered.map some
  ordered : s.entered.Pairwise Timeval.le
  past : ∀ t ∈ s.entered, t.le s.now

namespace TimesInv

theorem start (now : Timeval) (data : Nat) (heap : Log.Heap) (times : Fin n → TimeStats) :
    TimesInv (Site.start now data heap times) where
  quiet _ := rfl
  busy _ _ stamped := absurd stamped id
  ordered := .nil
  past _ mem := absurd mem List.not_mem_nil

/-- Steps that leave the stamps, the entries and the calls alone. -/
theorem frame (inv : TimesInv s) (stamps : ∀ j, (s'.workers j).handler.Stamped ↔ (s.workers j).handler.Stamped)
    (calls : ∀ j, (s.workers j).handler.Stamped → (s'.log.threads j).call = (s.log.threads j).call)
    (complete : s'.log.complete = s.log.complete) (entered : s'.entered = s.entered) (later : s.now.le s'.now) :
    TimesInv s' := by
  have entries : s'.entries = s.entries := congrArg (List.map Log.CString.bytes) complete
  constructor
  · intro none
    rw [entries, entered]
    exact inv.quiet fun j stamped => none j ((stamps j).mpr stamped)
  · intro j entry stamped call
    have before := (stamps j).mp stamped
    rw [entries, entered]
    exact inv.busy j entry before ((calls j before).symm.trans call)
  · rw [entered]
    exact inv.ordered
  · rw [entered]
    exact fun t mem => Timeval.le_trans (inv.past t mem) later

/-- One worker moves, and keeps its stamp and its call if it has one. -/
theorem set (inv : TimesInv s) {w : WorkerState} {l : Log.State (Fin n)}
    (stamps : w.handler.Stamped ↔ (s.workers i).handler.Stamped) (threads : ∀ j, j ≠ i → l.threads j = s.log.threads j)
    (call : (s.workers i).handler.Stamped → (l.threads i).call = (s.log.threads i).call)
    (complete : l.complete = s.log.complete) : TimesInv { s.set i w with log := l } := by
  refine inv.frame (fun j => ?_) (fun j => ?_) complete rfl (Timeval.le_refl _)
  · change (Function.update s.workers i w j).handler.Stamped ↔ _
    by_cases e : j = i
    · subst e
      rw [Function.update_self]
      exact stamps
    · rw [Function.update_of_ne e]
  · change _ → (l.threads j).call = _
    by_cases e : j = i
    · subst e
      exact call
    · rw [threads j e]
      exact fun _ => rfl

/-- One worker moves, without a stamp before and after. -/
theorem move (inv : TimesInv s) {h : Handler} {w : WorkerState} (pc : (s.workers i).handler = h) (before : ¬h.Stamped)
    (after : ¬w.handler.Stamped) : TimesInv (s.set i w) := by
  have stamps : w.handler.Stamped ↔ (s.workers i).handler.Stamped := by
    rw [pc]
    exact iff_of_false after before
  exact inv.set stamps (fun _ _ => rfl) (fun _ => rfl) rfl

end TimesInv

/-- Who has a stamp is inside the lock. -/
theorem Site.Called.role_of_stamped (called : s.Called) (stamped : (s.workers i).handler.Stamped) :
    (s.log.threads i).role = .writer := by
  have calls := called i
  unfold WorkerState.Calls at calls
  cases h : (s.workers i).handler <;> rw [h] at calls stamped
  case writing action stamp => exact calls.2 stamped
  all_goals exact absurd stamped id

namespace TimesInv

/-- `gettimeofday(log_enter)`, at the time that the entry shows. -/
theorem enterWrite (inv : TimesInv s) (called : s.Called) (lock : Log.LockInv s.log.log s.log.count) {action : Action}
    {entry : Log.CString} {point : Log.WritePoint} (pc : (s.workers i).handler = .writing action .none)
    (inside : s.log.threads i = .writing entry point) (punctual : s.now = (s.workers i).times.taskDispatch)
    {tm : TimeStats} : TimesInv { s.set i { s.workers i with handler := .writing action .enter, times := tm } with
      entered := s.entered ++ [s.now] } := by
  have alone : ∀ j, (s.workers j).handler.Stamped → j = i := fun j stamped =>
    lock.alone inside j (.inl (called.role_of_stamped stamped))
  have none : ∀ j, ¬(s.workers j).handler.Stamped := by
    intro j stamped
    obtain rfl := alone j stamped
    rw [pc] at stamped
    exact stamped rfl
  have shows : shownArrival entry.bytes = some s.now := by
    obtain ⟨_, _, tm, -, rfl, enter⟩ := (called i).writing (congrArg Log.Thread.call inside)
    rw [punctual, ← enter]
    exact (shown_appendStats _ tm).2.2.2
  have others : ∀ j, j ≠ i → ¬((s.set i { s.workers i with handler := .writing action .enter, times := tm }).workers
      j).handler.Stamped := by
    intro j ne
    change ¬(Function.update s.workers i _ j).handler.Stamped
    rw [Function.update_of_ne ne]
    exact none j
  constructor
  · intro quiet
    refine absurd ?_ (quiet i)
    change (Function.update s.workers i _ i).handler.Stamped
    rw [Function.update_self]
    exact fun no => nomatch no
  · intro j entry' stamped call
    obtain rfl : j = i := by
      by_contra ne
      exact others j ne stamped
    obtain rfl : entry = entry' := by
      have same : Log.Thread.call (s.log.threads j) = some (some entry') := call
      rw [inside] at same
      exact Option.some_inj.mp (Option.some_inj.mp same)
    change (s.entries ++ [entry.bytes]).map shownArrival = (s.entered ++ [s.now]).map some
    rw [List.map_append, List.map_append, inv.quiet none, List.map_singleton, List.map_singleton, shows]
  · apply List.pairwise_append.mpr
    refine ⟨inv.ordered, List.pairwise_singleton _ _, ?_⟩
    intro t mem u mem'
    obtain rfl := List.mem_singleton.mp mem'
    exact inv.past t mem
  · intro t mem
    rcases List.mem_append.mp mem with mem | mem
    · exact inv.past t mem
    · obtain rfl := List.mem_singleton.mp mem
      exact Timeval.le_refl _

/-- **A step inside the log.** -/
theorem log (inv : TimesInv s) (called : s.Called) (lock : Log.LockInv s.log.log s.log.count) {l : Log.State (Fin n)}
    (calls : Log.CallsAfter s.log l)
    (permitted : ∀ i, l.threads i ≠ s.log.threads i → (s.workers i).handler.permits (s.log.threads i)) :
    TimesInv { s with
      log := l
      workers := fun i => { s.workers i with handler := (s.workers i).handler.next (s.log.threads i) (l.threads i) } } := by
  cases calls with
  | same stay complete =>
    refine inv.frame (fun j => ?_) (fun j _ => (stay j).1) complete rfl (Timeval.le_refl _)
    simp only [Handler.next_of_stays (stay j)]
  | read i len out before after others complete =>
    obtain ⟨stamp, pc⟩ := (called i).reading (congrArg Log.Thread.call before)
    refine inv.frame (fun j => ?_) (fun j stamped => ?_) complete rfl (Timeval.le_refl _)
    · by_cases e : j = i
      · subst e
        simp only [before, after, pc, Handler.next]
        exact Iff.rfl
      · simp only [Handler.next_of_stays (others j e)]
    · refine (others j ?_).1
      rintro rfl
      rw [pc] at stamped
      exact stamped
  | wrote i entry before after others complete =>
    obtain ⟨action, stamp, tm, pc, -⟩ := (called i).writing (congrArg Log.Thread.call before)
    have exited : stamp = .exit := by
      have moved : l.threads i ≠ s.log.threads i := by
        rw [before, after]
        intro e
        cases e
      have := permitted i moved
      rw [pc, before] at this
      exact this
    have stamped : (s.workers i).handler.Stamped := by
      rw [pc, exited]
      intro no
      cases no
    have none : ∀ j, ¬((s.workers j).handler.next (s.log.threads j) (l.threads j)).Stamped := by
      intro j stamped'
      by_cases e : j = i
      · subst e
        simp only [before, after, pc, Handler.next] at stamped'
        exact stamped'
      · rw [Handler.next_of_stays (others j e)] at stamped'
        exact e (lock.alone before j (.inl (called.role_of_stamped stamped')))
    constructor
    · intro _
      change (l.complete.map Log.CString.bytes).map shownArrival = _
      rw [complete, List.map_append]
      exact inv.busy i entry stamped (congrArg Log.Thread.call before)
    · exact fun j entry' stamped' => absurd stamped' (none j)
    · exact inv.ordered
    · exact inv.past

/-- **Every punctual step keeps the times.** -/
theorem step (inv : TimesInv s) (reach : Site.Reachable s) (step : Site.Step s s') (punctual : Punctual s s') :
    TimesInv s' := by
  have called := reach.called
  have lock := reach.log.lock
  cases step with
  | tick now later => exact inv.frame (fun _ => Iff.rfl) (fun _ _ => rfl) rfl rfl later
  | dispatch arrival pc => exact inv.move pc id id
  | hangUp pc => exact inv.move pc id id
  | receive buf method uri version stat pc => exact inv.move pc id id
  | sendError pc => exact inv.move pc id id
  | countPost pc => exact inv.move pc id id
  | countDynamic pc => exact inv.move pc id id
  | countStatic pc => exact inv.move pc id id
  | callWrite pc =>
    refine inv.set ?_ (fun j ne => s.log.set_ne _ ne) (fun stamped => ?_) rfl
    · rw [pc]
      exact iff_of_false (fun no => no rfl) id
    · rw [pc] at stamped
      exact absurd stamped id
  | callRead pc =>
    refine inv.set ?_ (fun j ne => s.log.set_ne _ ne) (fun stamped => ?_) rfl
    · rw [pc]
      exact iff_of_false id id
    · rw [pc] at stamped
      exact absurd stamped id
  | log step inside permitted => exact inv.log called lock (step.callsAfter inside) permitted
  | enterWrite pc inside =>
    refine inv.enterWrite called lock pc inside (punctual _ _ pc ?_)
    change (Function.update s.workers _ _ _).handler = _
    rw [Function.update_self]
  | exitWrite pc done =>
    refine inv.set ?_ (fun _ _ => rfl) (fun _ => rfl) rfl
    rw [pc]
    exact ⟨fun _ no => (nomatch no), fun _ no => (nomatch no)⟩
  | enterRead pc inside => exact inv.move pc id id
  | exitRead pc done => exact inv.move pc id id
  | serveStatic content pc => exact inv.move pc id id
  | serveDynamic output pc => exact inv.move pc id id
  | servePost pc => exact inv.move pc id id

end TimesInv

theorem Site.PunctualRun.inv (run : Site.PunctualRun s) : TimesInv s := by
  induction run with
  | start now data heap times => exact TimesInv.start now data heap times
  | step run step punctual ih => exact ih.step run.reachable step punctual

/-- The complete entries show the first of the times of entry. -/
theorem TimesInv.shown_prefix (inv : TimesInv s) (called : s.Called) :
    s.entries.map shownArrival <+: s.entered.map some := by
  by_cases stamped : ∃ i, (s.workers i).handler.Stamped
  · obtain ⟨i, stamped⟩ := stamped
    obtain ⟨entry, point, inside⟩ := Log.role_writer (called.role_of_stamped stamped)
    have all := inv.busy i entry stamped (congrArg Log.Thread.call inside)
    rw [List.map_append] at all
    exact ⟨_, all⟩
  · rw [inv.quiet (not_exists.mp stamped)]

/-- **Punctual entries show their times in order.** -/
theorem log_times_in_order (run : Site.PunctualRun s) : LogTimes s := by
  have inv := run.inv
  have shown := inv.shown_prefix run.reachable.called
  constructor
  · intro k e get
    have lt := (List.getElem?_eq_some_iff.mp get).1
    have first : (s.entries.map shownArrival)[k]? = some (shownArrival e) := by rw [List.getElem?_map, get, Option.map_some]
    obtain ⟨rest, eq⟩ := shown
    have same : (s.entered.map some)[k]? = some (shownArrival e) := by
      rw [← eq, List.getElem?_append_left (by rwa [List.length_map])]
      exact first
    rw [List.getElem?_map] at same
    obtain ⟨t, entered, shows⟩ := Option.map_eq_some_iff.mp same
    exact ⟨t, entered, shows.symm⟩
  · refine List.Pairwise.sublist shown.sublist ?_
    rw [List.pairwise_map]
    exact inv.ordered.imp fun {t u} le => ⟨t, u, rfl, rfl, le⟩

/-- A worker logs a request before the clock moves. -/
theorem log_times_in_order_first : ∃ s : Site 1, Site.PunctualRun s ∧ s.entries.length = 1 ∧ LogTimes s := by
  let stat : Bytes → Option FileStat := fun _ => some ⟨true, true, true, 5⟩
  have only : ∀ i : Fin 1, i = 0 := fun i => Subsingleton.elim i 0
  have run₀ := Site.PunctualRun.start (n := 1) ⟨0, 0⟩ 0 (fun _ _ => 0) fun _ => ⟨⟨0, 0⟩, ⟨0, 0⟩, ⟨0, 0⟩, ⟨0, 0⟩⟩
  have run₁ := run₀.step (.dispatch (i := 0) ⟨0, 0⟩ rfl) fun i _ pc => nomatch only i ▸ pc
  have run₂ := run₁.step (.receive (i := 0) (lit "GET /a HTTP/1.0") [] [] [] stat rfl) fun i _ pc => nomatch only i ▸ pc
  have run₃ := run₂.step (.countStatic (i := 0) rfl) fun i _ pc => nomatch only i ▸ pc
  obtain ⟨heap, run₄⟩ := Site.writes_alone (i := 0) (R := Site.PunctualRun)
    (fun run step enters => run.step step fun i action pc pc' => by
      obtain rfl := only i
      obtain ⟨now, times⟩ := enters action pc pc'
      rw [now, times]
      rfl)
    run₃ ⟨rfl, rfl, rfl⟩ rfl rfl rfl rfl (by decide +kernel)
  exact ⟨_, run₄, rfl, log_times_in_order run₄⟩

/-- **The entries of two workers show their times in the wrong order**: the first to be
dispatched is the last to log. -/
theorem log_times_out_of_order : ¬∀ (n : Nat) (s : Site n), Site.Reachable s → LogTimes s := by
  intro claim
  let stat : Bytes → Option FileStat := fun _ => some ⟨true, true, true, 5⟩
  have reach₀ := Site.Reachable.start (n := 2) ⟨0, 0⟩ 0 (fun _ _ => 0) fun _ => ⟨⟨0, 0⟩, ⟨0, 0⟩, ⟨0, 0⟩, ⟨0, 0⟩⟩
  have reach₁ := reach₀.step (.dispatch (i := 0) ⟨0, 0⟩ rfl)
  have reach₂ := reach₁.step (.receive (i := 0) (lit "GET /a HTTP/1.0") [] [] [] stat rfl)
  have reach₃ := reach₂.step (.countStatic (i := 0) rfl)
  have reach₄ := reach₃.step (.tick ⟨1, 0⟩ (.inl (by decide)))
  have reach₅ := reach₄.step (.dispatch (i := 1) ⟨1, 0⟩ rfl)
  have reach₆ := reach₅.step (.receive (i := 1) (lit "GET /b HTTP/1.0") [] [] [] stat rfl)
  have reach₇ := reach₆.step (.countStatic (i := 1) rfl)
  let entry₁ := statsEntry ⟨2, 1, 1, 0, 0⟩ ⟨⟨1, 0⟩, ⟨1, 0⟩, ⟨1, 0⟩, ⟨1, 0⟩⟩
  let entry₀ := statsEntry ⟨1, 1, 1, 0, 0⟩ ⟨⟨0, 0⟩, ⟨0, 0⟩, ⟨0, 0⟩, ⟨0, 0⟩⟩
  have len₁ : (234 : Int) = Log.int32 (0 + Log.int32 entry₁.bytes.length) := by decide +kernel
  have len₀ : (468 : Int) = Log.int32 (234 + Log.int32 entry₀.bytes.length) := by decide +kernel
  obtain ⟨heap₁, reach₈⟩ := reach₇.writes (i := 1) rfl rfl rfl len₁ (by decide : ¬(4096 : Int) < Log.int32 (234 + 1))
  obtain ⟨heap₀, reach₉⟩ := reach₈.writes (i := 0) rfl rfl rfl len₀ (by decide : ¬(4096 : Int) < Log.int32 (468 + 1))
  have arrival₁ : shownArrival entry₁.bytes = some ⟨1, 0⟩ := (shown_appendStats _ _).2.2.2
  have arrival₀ : shownArrival entry₀.bytes = some ⟨0, 0⟩ := (shown_appendStats _ _).2.2.2
  have shows : List.Pairwise _ [shownArrival entry₁.bytes, shownArrival entry₀.bytes] := (claim 2 _ reach₉).2
  obtain ⟨t, u, first, second, le⟩ := List.rel_of_pairwise_cons shows List.mem_cons_self
  obtain rfl := Option.some_inj.mp (arrival₁.symm.trans first)
  obtain rfl := Option.some_inj.mp (arrival₀.symm.trans second)
  exact absurd le (by unfold Timeval.le; decide)

end OsProjects.Server
