import OsProjects.Shell.Effects

/-!
# The list of jobs in every run

Ids are given out as the largest one plus one, and jobs leave the list in any order, so ids
are used again. The list is still sorted by id and by age at any time, and its pids are
those of distinct children that have not been reaped (`JobsOk`).
-/

namespace OsProjects.Shell

open CText

variable {os : Os} {w w' : World} {p : Process} {jobs : List JobEntry} {j : JobEntry} {line : Text}

/-! ## Lists in the order of their ids -/

/-- Ids that are positive and go up, and no pid twice. -/
structure Orderly (jobs : List JobEntry) : Prop where
  positive : ∀ j ∈ jobs, 0 < j.jobId
  ascending : jobs.Pairwise fun a b => a.jobId < b.jobId
  distinct : (jobs.map JobEntry.pid).Nodup

/-- The id of the last job, or zero. -/
def lastId (jobs : List JobEntry) : Int := (jobs.getLast?.map JobEntry.jobId).getD 0

theorem lastId_concat (jobs : List JobEntry) (j : JobEntry) : lastId (jobs ++ [j]) = j.jobId := by
  rw [lastId, List.getLast?_concat]
  rfl

namespace Orderly

theorem nil : Orderly [] := ⟨fun _ mem => absurd mem List.not_mem_nil, List.Pairwise.nil, List.nodup_nil⟩

theorem sublist {jobs' : List JobEntry} (h : Orderly jobs) (sub : jobs'.Sublist jobs) : Orderly jobs' :=
  ⟨fun j mem => h.positive j (sub.subset mem), h.ascending.sublist sub, h.distinct.sublist (sub.map _)⟩

theorem init (h : Orderly (jobs ++ [j])) : Orderly jobs := h.sublist (List.sublist_append_left jobs [j])

theorem lt_last (h : Orderly (jobs ++ [j])) {k : JobEntry} (mem : k ∈ jobs) : k.jobId < j.jobId :=
  (List.pairwise_append.mp h.ascending).2.2 k mem j List.mem_cons_self

/-- Every id is at most the last one. -/
theorem le_lastId (h : Orderly jobs) (mem : j ∈ jobs) : j.jobId ≤ lastId jobs := by
  cases jobs using List.reverseRecOn with
  | nil => exact absurd mem List.not_mem_nil
  | append_singleton jobs last =>
    rw [lastId_concat]
    rcases List.mem_append.mp mem with mem | mem
    · exact (h.lt_last mem).le
    · rw [List.mem_singleton.mp mem]

theorem lastId_nonneg (h : Orderly jobs) : 0 ≤ lastId jobs := by
  cases jobs using List.reverseRecOn with
  | nil => exact le_refl 0
  | append_singleton jobs last =>
    rw [lastId_concat]
    exact (h.positive last (List.mem_append_right _ List.mem_cons_self)).le

theorem lastId_lt (h : Orderly (jobs ++ [j])) : lastId jobs < j.jobId := by
  cases jobs using List.reverseRecOn with
  | nil => exact h.positive j List.mem_cons_self
  | append_singleton jobs last =>
    rw [lastId_concat]
    exact h.lt_last (List.mem_append_right _ List.mem_cons_self)

theorem getMaxJobId_eq (h : Orderly jobs) : getMaxJobId jobs = lastId jobs := by
  induction jobs using List.reverseRecOn with
  | nil => rfl
  | append_singleton jobs j ih =>
    have step : getMaxJobId (jobs ++ [j]) = if j.jobId > getMaxJobId jobs then j.jobId else getMaxJobId jobs := by
      rw [getMaxJobId, List.foldl_append]
      rfl
    rw [step, ih h.init, if_pos h.lastId_lt, lastId_concat]

theorem getLastJob_eq (h : Orderly jobs) : getLastJob jobs = jobs.getLast? := by
  induction jobs using List.reverseRecOn with
  | nil => rfl
  | append_singleton jobs j ih =>
    have before := ih h.init
    unfold getLastJob at before ⊢
    rw [List.foldl_append, before, List.getLast?_concat]
    cases last : jobs.getLast? with
    | none => rfl
    | some l =>
      have lt : l.jobId < j.jobId := h.lt_last (List.mem_of_mem_getLast? last)
      exact if_pos lt

theorem ids_inj (h : Orderly jobs) {a b : JobEntry} (ha : a ∈ jobs) (hb : b ∈ jobs) (same : a.jobId = b.jobId) : a = b := by
  have ids : (jobs.map JobEntry.jobId).Nodup := List.pairwise_map.mpr (h.ascending.imp fun lt => ne_of_lt lt)
  exact List.inj_on_of_nodup_map ids ha hb same

/-- `getJobById` finds the only job with the id. -/
theorem getJobById_eq (h : Orderly jobs) (id : Int) : getJobById id jobs = some j ↔ j ∈ jobs ∧ j.jobId = id := by
  constructor
  · intro found
    exact ⟨List.mem_of_find?_eq_some found, by simpa using List.find?_some found⟩
  · rintro ⟨mem, rfl⟩
    cases found : getJobById j.jobId jobs with
    | none =>
      have := List.find?_eq_none.mp found j mem
      simp at this
    | some k =>
      have same : k.jobId = j.jobId := by simpa using List.find?_some found
      rw [h.ids_inj (List.mem_of_find?_eq_some found) mem same]

/-- `removeJobById` removes the only job with the id. -/
theorem removeJobById_eq (h : Orderly jobs) (id : Int) : removeJobById id jobs = jobs.filter fun j => j.jobId ≠ id := by
  induction jobs with
  | nil => rfl
  | cons k jobs ih =>
    have rest : Orderly jobs := h.sublist (List.sublist_cons_self k jobs)
    have above := (List.pairwise_cons.mp h.ascending).1
    by_cases same : k.jobId = id
    · have others : ∀ j ∈ jobs, j.jobId ≠ id := fun j mem => by
        have := above j mem
        omega
      rw [removeJobById, List.eraseP_cons_of_pos (by simp [same]), List.filter_cons_of_neg (by simp [same])]
      exact (List.filter_eq_self.mpr fun j mem => by simpa using others j mem).symm
    · rw [removeJobById, List.eraseP_cons_of_neg (by simp [same]), List.filter_cons_of_pos (by simp [same])]
      exact congrArg (List.cons k) (ih rest)

/-- Sorting changes nothing. -/
theorem sortJobs_eq (h : Orderly jobs) : sortJobs jobs = jobs :=
  (h.ascending.imp fun lt => le_of_lt lt : jobs.Pairwise fun a b => a.jobId ≤ b.jobId).insertionSort_eq

/-- A new job at the end. -/
theorem concat (h : Orderly jobs) {pid : Int} (cmdLine : Text) (fresh : ∀ j ∈ jobs, j.pid ≠ pid) :
    Orderly (jobs ++ [⟨lastId jobs + 1, pid, cmdLine⟩]) where
  positive k mem := by
    have low := h.lastId_nonneg
    rcases List.mem_append.mp mem with mem | mem
    · exact h.positive k mem
    · rw [List.mem_singleton.mp mem]
      exact Int.lt_add_one_of_le low
  ascending := by
    refine List.pairwise_append.mpr ⟨h.ascending, List.pairwise_singleton _ _, fun a ha b hb => ?_⟩
    rw [List.mem_singleton.mp hb]
    exact Int.lt_add_one_of_le (h.le_lastId ha)
  distinct := by
    rw [List.map_append]
    refine List.nodup_append.mpr ⟨h.distinct, List.nodup_singleton _, fun a ha b hb => ?_⟩
    obtain ⟨j, mem, rfl⟩ := List.mem_map.mp ha
    rw [List.mem_singleton.mp hb]
    exact fresh j mem

end Orderly

/-! ## Reaping -/

/-- What one `waitpid` with `WNOHANG` does: the job stays only when its process is a child that runs on. -/
theorem reap_cases (os : Os) (p : Process) (pid : Int) :
    (∃ children, reap os p pid = (true, { p with children := children, now := p.now + 1 }) ∧
        (∀ x ∈ p.children, x ≠ pid → x ∈ children) ∧ (pid ∈ p.children → (os p.now).ended pid = true)) ∨
      reap os p pid = (false, { p with now := p.now + 1 }) ∧ pid ∈ p.children ∧ (os p.now).ended pid = false := by
  unfold reap
  by_cases child : pid ∈ p.children
  · rw [if_pos child]
    cases ended : (os p.now).ended pid with
    | true =>
      rw [if_pos rfl]
      exact .inl ⟨p.children.erase pid, rfl, fun x mem ne => (List.mem_erase_of_ne ne).mpr mem, fun _ => rfl⟩
    | false =>
      rw [if_neg Bool.false_ne_true]
      exact .inr ⟨rfl, child, rfl⟩
  · rw [if_neg child]
    exact .inl ⟨p.children, rfl, fun x mem _ => mem, fun mem => absurd mem child⟩

/-- What `removeFinishedJobs` leaves: some of the jobs, each with a child that has not been reaped, and the
children that belong to no job. -/
structure Swept (p p' : Process) (jobs jobs' : List JobEntry) : Prop where
  same : ∃ children now, p' = { p with children := children, now := now } ∧ p.now ≤ now
  sub : jobs'.Sublist jobs
  kept : ∀ j ∈ jobs', j.pid ∈ p'.children
  others : ∀ x ∈ p.children, (∀ j ∈ jobs, j.pid ≠ x) → x ∈ p'.children

theorem removeFinished_swept (os : Os) (p : Process) (nodup : (jobs.map JobEntry.pid).Nodup) :
    Swept p (removeFinished os p jobs).1 jobs (removeFinished os p jobs).2 := by
  induction jobs generalizing p with
  | nil => exact ⟨⟨p.children, p.now, rfl, le_refl _⟩, List.Sublist.refl _, fun _ mem => absurd mem List.not_mem_nil,
      fun x mem _ => mem⟩
  | cons j jobs ih =>
    obtain ⟨fresh, nodup⟩ := List.nodup_cons.mp nodup
    rcases reap_cases os p j.pid with ⟨children, eq, others, -⟩ | ⟨eq, child, -⟩
    · obtain ⟨⟨children', now, same, le⟩, sub, kept, others'⟩ := ih { p with children := children, now := p.now + 1 } nodup
      simp only [removeFinished, eq]
      refine ⟨⟨children', now, same, by simp only at le; omega⟩, sub.cons j, kept, fun x mem away => ?_⟩
      refine others' x (others x mem (away j List.mem_cons_self).symm) fun k mem' => ?_
      exact away k (List.mem_cons_of_mem j mem')
    · obtain ⟨⟨children', now, same, le⟩, sub, kept, others'⟩ := ih { p with now := p.now + 1 } nodup
      simp only [removeFinished, eq]
      refine ⟨⟨children', now, same, by simp only at le; omega⟩, sub.cons_cons j, fun k mem => ?_, fun x mem away => ?_⟩
      · rcases List.mem_cons.mp mem with rfl | mem
        · refine others' k.pid child fun l mem' same => fresh ?_
          exact same ▸ List.mem_map_of_mem mem'
        · exact kept k mem
      · exact others' x mem fun k mem' => away k (List.mem_cons_of_mem j mem')

/-! ## The invariant -/

/-- The jobs in the order of their ids and of their age, each with a child that has not been reaped. -/
structure JobsOk (w : World) : Prop where
  orderly : Orderly w.shell.jobs
  children : ∀ j ∈ w.shell.jobs, j.pid ∈ w.proc.children
  age : w.shell.jobs.Sublist w.added

/-- No child gets the pid of a child that has not been reaped. -/
def FreshPids (os : Os) : Prop := ∀ t children pid, (os t).fork children = .ok pid → pid ∉ children

namespace JobsOk

/-- Only three things matter. -/
theorem congr (h : JobsOk w) (jobs : w'.shell.jobs = w.shell.jobs) (children : w'.proc.children = w.proc.children)
    (added : w'.added = w.added) : JobsOk w' := by
  refine ⟨?_, ?_, ?_⟩
  · rw [jobs]
    exact h.orderly
  · rw [jobs, children]
    exact h.children
  · rw [jobs, added]
    exact h.age

theorem start (fresh : w.Starts) : JobsOk w := by
  have empty : w.shell.jobs = [] := by rw [fresh.shell]; rfl
  refine ⟨?_, ?_, ?_⟩
  · rw [empty]
    exact Orderly.nil
  · rw [empty]
    exact fun j mem => absurd mem List.not_mem_nil
  · rw [empty]
    exact List.nil_sublist _

theorem swept (h : JobsOk w) (os : Os) : Swept w.proc (w.removeFinishedJobs os).proc w.shell.jobs
    (w.removeFinishedJobs os).shell.jobs :=
  removeFinished_swept os w.proc h.orderly.distinct

theorem removeFinishedJobs (h : JobsOk w) (os : Os) : JobsOk (w.removeFinishedJobs os) := by
  have swept := h.swept os
  exact ⟨h.orderly.sublist swept.sub, swept.kept, swept.sub.trans h.age⟩

/-- A new child is nobody's job yet. -/
theorem fork (h : JobsOk w) (fresh : FreshPids os) {task : Task} {pid : Int} (run : w.fork os task = .ok (pid, w')) :
    JobsOk w' ∧ pid ∈ w'.proc.children ∧ ∀ j ∈ w'.shell.jobs, j.pid ≠ pid := by
  unfold World.fork at run
  cases answer : (w.sys os).fork w.proc.children with
  | error e =>
    rw [answer] at run
    exact nomatch run
  | ok child =>
    rw [answer] at run
    obtain ⟨rfl, rfl⟩ := Prod.mk.inj (Except.ok.inj run)
    have new := fresh _ _ _ answer
    refine ⟨⟨h.orderly, fun j mem => List.mem_append_left _ (h.children j mem), h.age⟩,
      List.mem_append_right _ List.mem_cons_self, fun j mem same => new ?_⟩
    exact same ▸ h.children j mem

/-- Waiting for a process that is nobody's job. -/
theorem waitpid (h : JobsOk w) (os : Os) (pid : Int) (free : ∀ j ∈ w.shell.jobs, j.pid ≠ pid) :
    JobsOk (w.waitpid os pid).2 := by
  unfold World.waitpid
  split_ifs
  · cases (w.sys os).interrupted pid with
    | some e => exact h.congr rfl rfl rfl
    | none =>
      refine ⟨h.orderly, fun j mem => ?_, h.age⟩
      exact (List.mem_erase_of_ne (free j mem)).mpr (h.children j mem)
  · exact h.congr rfl rfl rfl

theorem foreground (h : JobsOk w) (os : Os) {pid : Int} (cmd : Text) (free : ∀ j ∈ w.shell.jobs, j.pid ≠ pid) :
    JobsOk (w.foreground os pid cmd) := by
  have set : JobsOk { w with shell.fgPid := pid, shell.fgCmd := cmd } := h.congr rfl rfl rfl
  have waited := set.waitpid os pid free
  cases result : ({ w with shell.fgPid := pid, shell.fgCmd := cmd } : World).waitpid os pid with
  | mk e w' =>
    rw [result] at waited
    simp only [World.foreground, result]
    cases e with
    | some e => exact waited.congr rfl rfl rfl
    | none => exact waited.congr rfl rfl rfl

/-- `addJob` of a child that is nobody's job yet. -/
theorem addJob (h : JobsOk w) {pid : Int} {cmdLine : Text} (child : pid ∈ w.proc.children)
    (free : ∀ j ∈ w.shell.jobs, j.pid ≠ pid) (run : w.addJob os pid cmdLine = .returned w') : JobsOk w' := by
  have swept := h.swept os
  have ok := h.removeFinishedJobs os
  have free' : ∀ j ∈ (w.removeFinishedJobs os).shell.jobs, j.pid ≠ pid := fun j mem => free j (swept.sub.subset mem)
  simp only [World.addJob] at run
  split_ifs at run
  obtain rfl := Outcome.returned.inj run
  rw [ok.orderly.getMaxJobId_eq]
  refine ⟨ok.orderly.concat cmdLine free', fun j mem => ?_, ok.age.append (List.Sublist.refl _)⟩
  rcases List.mem_append.mp mem with mem | mem
  · exact ok.children j mem
  · rw [List.mem_singleton.mp mem]
    exact swept.others pid child free

theorem unaliasLoop (h : JobsOk w) (names : List Text) : JobsOk (unaliasLoop w names) := by
  induction names generalizing w with
  | nil => exact h
  | cons name names ih =>
    unfold Shell.unaliasLoop
    split_ifs
    · apply ih
      exact h.congr rfl rfl rfl
    · exact h.congr rfl rfl rfl

theorem chooseJob_mem (h : Orderly jobs) {args : List Text} (choice : chooseJob args jobs = .job j) : j ∈ jobs := by
  unfold chooseJob at choice
  split at choice
  · split_ifs at choice
    split at choice
    · exact nomatch choice
    · split at choice
      · exact nomatch choice
      · next found =>
        obtain rfl := Choice.job.inj choice
        exact List.mem_of_find?_eq_some found
  · rw [h.getLastJob_eq] at choice
    split at choice
    · exact nomatch choice
    · next last =>
      obtain rfl := Choice.job.inj choice
      exact List.mem_of_mem_getLast? last

/-- `fg` takes its job off the list before it waits for it. -/
theorem takeJob (h : JobsOk w) (os : Os) (mem : j ∈ w.shell.jobs) : JobsOk (w.takeJob os j) := by
  have left := h.orderly.removeJobById_eq j.jobId
  have sub : (removeJobById j.jobId w.shell.jobs).Sublist w.shell.jobs := List.eraseP_sublist
  apply JobsOk.foreground
  · exact ⟨h.orderly.sublist sub, fun k mem => h.children k (sub.subset mem), sub.trans h.age⟩
  · intro k mem' same
    change k ∈ removeJobById j.jobId w.shell.jobs at mem'
    rw [left, List.mem_filter] at mem'
    obtain rfl := List.inj_on_of_nodup_map h.orderly.distinct mem'.1 mem same
    simp at mem'

theorem effect (h : JobsOk w) (effect : Effect os line w w') : JobsOk w' := by
  have swept := h.removeFinishedJobs os
  cases effect with
  | same same => exact h.congr same.jobs same.children same.added
  | swept same => exact swept.congr same.jobs same.children same.added
  | taken j chosen eq =>
    rw [eq]
    exact swept.takeJob os (chooseJob_mem swept.orderly chosen)
  | aliased _ _ _ eq =>
    rw [eq]
    exact h.congr rfl rfl rfl
  | unaliased names eq =>
    rw [eq]
    exact h.unaliasLoop names

theorem external (h : JobsOk w) (fresh : FreshPids os) {isBackground : Bool}
    (run : externalCommand os line isBackground w = .returned w') : JobsOk w' := by
  simp only [externalCommand] at run
  split at run
  · obtain rfl := Outcome.returned.inj run
    exact h.congr rfl rfl rfl
  · next forked =>
    obtain ⟨ok, child, free⟩ := h.fork fresh forked
    split_ifs at run
    · exact ok.addJob child free run
    · obtain rfl := Outcome.returned.inj run
      exact ok.foreground os _ free

theorem redirection (h : JobsOk w) (fresh : FreshPids os) {append : Bool}
    (run : redirectionCommand os line append w = .returned w') : JobsOk w' := by
  simp only [redirectionCommand] at run
  split at run
  · obtain rfl := Outcome.returned.inj run
    exact h
  · split at run
    · obtain rfl := Outcome.returned.inj run
      exact h.congr rfl rfl rfl
    · next forked =>
      obtain ⟨ok, -, free⟩ := h.fork fresh forked
      obtain rfl := Outcome.returned.inj run
      exact ok.foreground os _ free

theorem pipe (h : JobsOk w) (fresh : FreshPids os) {stderrPipe : Bool}
    (run : pipeCommand os line stderrPipe w = .returned w') : JobsOk w' := by
  simp only [pipeCommand] at run
  split at run
  · obtain rfl := Outcome.returned.inj run
    exact h
  · split at run
    · obtain rfl := Outcome.returned.inj run
      exact h.congr rfl rfl rfl
    · have ticked : JobsOk w.tick := h.congr rfl rfl rfl
      split at run
      · obtain rfl := Outcome.returned.inj run
        exact h.congr rfl rfl rfl
      · next pid₁ w₁ forked =>
        obtain ⟨ok, -, free⟩ := ticked.fork fresh forked
        split at run
        · obtain rfl := Outcome.returned.inj run
          exact ok.congr rfl rfl rfl
        · next pid₂ w₂ forked' =>
          obtain ⟨ok', -, free'⟩ := ok.fork fresh forked'
          obtain rfl := Outcome.returned.inj run
          have set : JobsOk { w₂ with shell.fgPid := pid₁ } := ok'.congr rfl rfl rfl
          have first := set.waitpid os pid₁ (by rw [World.fork_shell forked']; exact free)
          have second := first.waitpid os pid₂ (by rw [World.waitpid_shell]; exact free')
          exact second.congr rfl rfl rfl

/-- **Every line keeps the jobs in order.** -/
theorem executeCommand (h : JobsOk w) (fresh : FreshPids os) (run : executeCommand os line w = .returned w') :
    JobsOk w' := by
  simp only [Shell.executeCommand] at run
  split_ifs at run
  · obtain rfl := Outcome.returned.inj run
    exact h
  · have ok := h.removeFinishedJobs os
    split at run
    · obtain rfl := Outcome.returned.inj run
      exact ok
    · next cmd _ =>
      cases cmd with
      | builtIn b cmdLine => exact ok.effect (BuiltIn.effect run)
      | external cmdLine isBackground => exact ok.external fresh run
      | pipe cmdLine stderrPipe => exact ok.pipe fresh run
      | redirection cmdLine append => exact ok.redirection fresh run

end JobsOk

/-! ## Runs -/

theorem Reachable.jobsOk (fresh : FreshPids os) (reach : Reachable os w) : JobsOk w := by
  induction reach with
  | start started => exact JobsOk.start started
  | line _ _ step ih =>
    have printed : ∀ text, JobsOk (World.print text _) := fun text => ih.congr rfl rfl rfl
    exact (printed _).executeCommand fresh step

/-- What the methods of the list find. -/
structure Unambiguous (jobs : List JobEntry) : Prop where
  byId : ∀ id j, getJobById id jobs = some j ↔ j ∈ jobs ∧ j.jobId = id
  single : ∀ a ∈ jobs, ∀ b ∈ jobs, a.jobId = b.jobId → a = b
  remove : ∀ id, removeJobById id jobs = jobs.filter fun j => j.jobId ≠ id
  sorted : sortJobs jobs = jobs
  /-- `fg` without an argument takes the last job. -/
  last : ∀ word j, chooseJob [word] jobs = .job j ↔ jobs.getLast? = some j

theorem Orderly.unambiguous (h : Orderly jobs) : Unambiguous jobs where
  byId id _ := h.getJobById_eq id
  single _ ha _ hb := h.ids_inj ha hb
  remove := h.removeJobById_eq
  sorted := h.sortJobs_eq
  last word j := by
    unfold chooseJob
    rw [h.getLastJob_eq]
    cases jobs.getLast? with
    | none => simp
    | some k => simp

/-- **The list of jobs in every run.** In every state between two lines, and after any further sweeps of
`removeFinishedJobs`, ids are positive and go up, pids are those of distinct children that have not been reaped,
and the jobs stand in the order in which they were added. So every id names one job, sorting changes nothing, `fg`
picks the youngest job, and a new job gets the id after the last one. -/
theorem jobs_in_order (fresh : FreshPids os) (reach : Reachable os w) (sweeps : Nat) :
    JobsOk ((World.removeFinishedJobs os)^[sweeps] w) ∧
      Unambiguous ((World.removeFinishedJobs os)^[sweeps] w).shell.jobs ∧
      ∀ pid cmdLine w', ((World.removeFinishedJobs os)^[sweeps] w).addJob os pid cmdLine = .returned w' →
        w'.shell.jobs = ((World.removeFinishedJobs os)^[sweeps + 1] w).shell.jobs ++
          [⟨lastId ((World.removeFinishedJobs os)^[sweeps + 1] w).shell.jobs + 1, pid, cmdLine⟩] := by
  have swept : ∀ n, JobsOk ((World.removeFinishedJobs os)^[n] w) := by
    intro n
    induction n with
    | zero => exact reach.jobsOk fresh
    | succ n ih =>
      rw [Function.iterate_succ_apply']
      exact ih.removeFinishedJobs os
  refine ⟨swept sweeps, (swept sweeps).orderly.unambiguous, fun pid cmdLine w' run => ?_⟩
  have next := swept (sweeps + 1)
  rw [Function.iterate_succ_apply'] at next ⊢
  simp only [World.addJob] at run
  split_ifs at run
  obtain rfl := Outcome.returned.inj run
  rw [next.orderly.getMaxJobId_eq]

theorem le_foldr_max {x : Int} {l : List Int} (mem : x ∈ l) (low : Int) : x ≤ l.foldr max low := by
  induction l with
  | nil => exact absurd mem List.not_mem_nil
  | cons y l ih =>
    rcases List.mem_cons.mp mem with rfl | mem
    · exact le_max_left _ _
    · exact (ih mem).trans (le_max_right _ _)

theorem calmSys_fresh : FreshPids fun _ => calmSys := by
  intro t children pid answer mem
  obtain rfl := Except.ok.inj answer
  have := le_foldr_max mem 1000
  omega

/-- A shell that has put two programs into the background. -/
theorem jobs_in_order_two : ∃ w, Reachable (fun _ => calmSys) w ∧
    w.shell.jobs = [⟨1, 1001, lit "sleep 100 &"⟩, ⟨2, 1002, lit "sleep 200&"⟩] ∧ JobsOk w := by
  have first : Reachable (fun _ => calmSys) _ :=
    (Reachable.start (w := World.startIn (lit "/")) ⟨rfl, rfl⟩).line
      (by decide : 10 ∉ lit "sleep 100 &") rfl
  have second : Reachable (fun _ => calmSys) _ := first.line (by decide : 10 ∉ lit "sleep 200&") rfl
  exact ⟨_, second, by decide, (jobs_in_order calmSys_fresh second 0).1⟩

end OsProjects.Shell
