import OsProjects.Shell.JobRuns
import Mathlib.Algebra.Order.Group.Multiset
import Mathlib.Logic.Relation

/-!
# No child is forgotten

A child that nobody waits for stays as a zombie when it ends. The shell waits at once for what
it runs in the foreground, and keeps a job for what runs in the background: between two lines
its children are those it was started with, and one for each job (`children_accounted`). The
count is of a multiset, so no child is counted for two jobs.
-/

namespace OsProjects.Shell

open CText

variable {os : Os} {w w' w₀ : World} {p : Process} {jobs : List JobEntry} {j : JobEntry} {line : Text} {pid : Int}
  {rest : Multiset Int}

/-- The pids of the jobs. -/
def pidsOf (jobs : List JobEntry) : Multiset Int := (jobs.map JobEntry.pid : List Int)

/-- The children are those of the jobs and the others in `rest`. -/
def Accounts (rest : Multiset Int) (p : Process) (jobs : List JobEntry) : Prop :=
  (p.children : Multiset Int) = rest + pidsOf jobs

/-- Waits go through, and a `fork` right after a successful one succeeds too. -/
structure Steady (os : Os) : Prop where
  waits : ∀ t pid, (os t).interrupted pid = none
  forks : ∀ t children pid e, (os t).fork children = .ok pid → (os (t + 1)).fork (children ++ [pid]) ≠ .error e

/-- A pid that has been an answer to `fork`. -/
def Given (os : Os) (pid : Int) : Prop := ∃ t children, (os t).fork children = .ok pid

/-- All children but those in `rest` have a job, or have been left behind. -/
structure Kept (os : Os) (rest : Multiset Int) (w : World) : Prop where
  given : ∀ j ∈ w.shell.jobs, Given os j.pid
  strays : ∃ strays, Accounts (strays + rest) w.proc w.shell.jobs ∧ (Steady os → strays = 0)

/-! ## Reaping -/

theorem pidsOf_cons (j : JobEntry) (jobs : List JobEntry) : pidsOf (j :: jobs) = j.pid ::ₘ pidsOf jobs := rfl

theorem pidsOf_concat (jobs : List JobEntry) (j : JobEntry) : pidsOf (jobs ++ [j]) = j.pid ::ₘ pidsOf jobs := by
  unfold pidsOf
  rw [Multiset.cons_coe, Multiset.coe_eq_coe, List.map_append]
  exact List.perm_append_singleton _ _

/-- A child that is reaped was counted once. -/
theorem Accounts.erase {children : List Int} (counted : (children : Multiset Int) = pid ::ₘ rest) :
    (children.erase pid : Multiset Int) = rest := by
  rw [← Multiset.coe_erase, counted, Multiset.erase_cons_head]

/-- `removeFinishedJobs` reaps what it takes off the list, and nothing else. -/
theorem Accounts.removeFinished (os : Os) (h : Accounts rest p jobs) :
    Accounts rest (removeFinished os p jobs).1 (removeFinished os p jobs).2 := by
  induction jobs generalizing p rest with
  | nil => exact h
  | cons j jobs ih =>
    have counted : (p.children : Multiset Int) = j.pid ::ₘ (rest + pidsOf jobs) := by
      rw [h, pidsOf_cons, Multiset.add_cons]
    have child : j.pid ∈ p.children := by
      rw [← Multiset.mem_coe, counted]
      exact Multiset.mem_cons_self _ _
    simp only [Shell.removeFinished, reap, if_pos child]
    cases (os p.now).ended j.pid with
    | true =>
      rw [if_pos rfl]
      apply ih
      exact Accounts.erase counted
    | false =>
      rw [if_neg Bool.false_ne_true]
      -- the job stays, so its child is one of the others for the rest of the list
      have others : Accounts (j.pid ::ₘ rest) { p with now := p.now + 1 } jobs := by
        unfold Accounts
        rw [Multiset.cons_add]
        exact counted
      have left := ih others
      unfold Accounts at left ⊢
      rw [left, pidsOf_cons, Multiset.add_cons, Multiset.cons_add]

namespace Kept

theorem congr (h : Kept os rest w) (jobs : w'.shell.jobs = w.shell.jobs) (children : w'.proc.children = w.proc.children) :
    Kept os rest w' := by
  obtain ⟨given, strays, counted, none⟩ := h
  refine ⟨?_, strays, ?_, none⟩
  · rw [jobs]
    exact given
  · unfold Accounts at counted ⊢
    rw [jobs, children]
    exact counted

theorem start (fresh : w.Starts) : Kept os w.proc.children w := by
  have empty : w.shell.jobs = [] := by rw [fresh.shell]; rfl
  refine ⟨?_, 0, ?_, fun _ => rfl⟩
  · rw [empty]
    exact fun j mem => absurd mem List.not_mem_nil
  · unfold Accounts
    rw [empty, zero_add]
    exact (add_zero _).symm

theorem removeFinishedJobs (h : Kept os rest w) (ok : JobsOk w) : Kept os rest (w.removeFinishedJobs os) := by
  obtain ⟨given, strays, counted, none⟩ := h
  exact ⟨fun j mem => given j ((ok.swept os).sub.subset mem), strays, counted.removeFinished os, none⟩

/-! ## Forking and waiting -/

/-- A new child is one of the others. -/
theorem fork (h : Kept os rest w) {task : Task} (run : w.fork os task = .ok (pid, w')) :
    Kept os (pid ::ₘ rest) w' ∧ Given os pid := by
  obtain ⟨given, strays, counted, none⟩ := h
  unfold World.fork at run
  split at run
  · exact nomatch run
  · next answer =>
    obtain ⟨rfl, rfl⟩ := Prod.mk.inj (Except.ok.inj run)
    refine ⟨⟨given, strays, ?_, none⟩, _, _, answer⟩
    unfold Accounts at counted ⊢
    simp only [World.tick]
    rw [← Multiset.coe_add, counted, Multiset.add_cons, Multiset.cons_add, Multiset.coe_singleton, add_comm,
      Multiset.singleton_add]

/-- Waiting reaps the child, unless the wait is interrupted. -/
theorem waitpid (h : Kept os (pid ::ₘ rest) w) : Kept os rest (w.waitpid os pid).2 := by
  obtain ⟨given, strays, counted, none⟩ := h
  have counted' : (w.proc.children : Multiset Int) = pid ::ₘ (strays + rest + pidsOf w.shell.jobs) := by
    unfold Accounts at counted
    rw [counted, Multiset.add_cons, Multiset.cons_add]
  have child : pid ∈ w.proc.children := by
    rw [← Multiset.mem_coe, counted']
    exact Multiset.mem_cons_self _ _
  unfold World.waitpid
  rw [if_pos child]
  cases answer : (w.sys os).interrupted pid with
  | none => exact ⟨given, strays, Accounts.erase counted', none⟩
  | some e =>
    refine ⟨given, pid ::ₘ strays, ?_, fun steady => ?_⟩
    · unfold Accounts
      rw [Multiset.cons_add, Multiset.cons_add]
      exact counted'
    · have quiet : (w.sys os).interrupted pid = Option.none := steady.waits _ _
      rw [quiet] at answer
      cases answer

theorem foreground (h : Kept os (pid ::ₘ rest) w) (cmd : Text) : Kept os rest (w.foreground os pid cmd) := by
  have set : Kept os (pid ::ₘ rest) { w with shell.fgPid := pid, shell.fgCmd := cmd } := h.congr rfl rfl
  have waited := set.waitpid
  cases result : ({ w with shell.fgPid := pid, shell.fgCmd := cmd } : World).waitpid os pid with
  | mk e w' =>
    rw [result] at waited
    simp only [World.foreground, result]
    cases e with
    | some e => exact waited.congr rfl rfl
    | none => exact waited.congr rfl rfl

/-- A child that becomes a job. -/
theorem addJob (h : Kept os (pid ::ₘ rest) w) (ok : JobsOk w) (new : Given os pid) {cmdLine : Text}
    (run : w.addJob os pid cmdLine = .returned w') : Kept os rest w' := by
  obtain ⟨given, strays, counted, none⟩ := h.removeFinishedJobs ok
  simp only [World.addJob] at run
  split_ifs at run
  obtain rfl := Outcome.returned.inj run
  refine ⟨fun j mem => ?_, strays, ?_, none⟩
  · rcases List.mem_append.mp mem with mem | mem
    · exact given j mem
    · rw [List.mem_singleton.mp mem]
      exact new
  · unfold Accounts at counted ⊢
    rw [pidsOf_concat, Multiset.add_cons, counted, Multiset.add_cons, Multiset.cons_add]

/-- `fg` waits for the job that it takes off the list. -/
theorem takeJob (h : Kept os rest w) (ok : JobsOk w) (mem : j ∈ w.shell.jobs) : Kept os rest (w.takeJob os j) := by
  obtain ⟨given, strays, counted, none⟩ := h
  obtain ⟨k, before, after, -, same, split, erased⟩ :=
    List.exists_of_eraseP (p := fun k => k.jobId == j.jobId) mem (beq_self_eq_true j.jobId)
  obtain rfl : k = j := ok.orderly.ids_inj (by rw [split]; exact List.mem_append_cons_self) mem (by simpa using same)
  apply Kept.foreground
  refine ⟨fun i mem' => given i (List.eraseP_subset mem'), strays, ?_, none⟩
  have moved : pidsOf w.shell.jobs = k.pid ::ₘ pidsOf (removeJobById k.jobId w.shell.jobs) := by
    unfold removeJobById
    rw [erased, split]
    unfold pidsOf
    rw [Multiset.cons_coe, Multiset.coe_eq_coe, List.map_append, List.map_append]
    exact List.perm_middle
  unfold Accounts at counted ⊢
  rw [Multiset.add_cons, Multiset.cons_add, ← Multiset.add_cons, ← moved]
  exact counted

/-! ## Commands -/

theorem unaliasLoop (h : Kept os rest w) (names : List Text) : Kept os rest (unaliasLoop w names) := by
  induction names generalizing w with
  | nil => exact h
  | cons name names ih =>
    unfold Shell.unaliasLoop
    split_ifs
    · apply ih
      exact h.congr rfl rfl
    · exact h.congr rfl rfl

theorem effect (h : Kept os rest w) (ok : JobsOk w) (effect : Effect os line w w') : Kept os rest w' := by
  have swept := h.removeFinishedJobs ok
  cases effect with
  | same same => exact h.congr same.jobs same.children
  | swept same => exact swept.congr same.jobs same.children
  | taken j chosen eq =>
    rw [eq]
    have ok' := ok.removeFinishedJobs os
    exact swept.takeJob ok' (JobsOk.chooseJob_mem ok'.orderly chosen)
  | aliased _ _ _ eq =>
    rw [eq]
    exact h.congr rfl rfl
  | unaliased names eq =>
    rw [eq]
    exact h.unaliasLoop names

theorem external (h : Kept os rest w) (ok : JobsOk w) (fresh : FreshPids os) {isBackground : Bool}
    (run : externalCommand os line isBackground w = .returned w') : Kept os rest w' := by
  simp only [externalCommand] at run
  split at run
  · obtain rfl := Outcome.returned.inj run
    exact h.congr rfl rfl
  · next forked =>
    obtain ⟨kept, new⟩ := h.fork forked
    split_ifs at run
    · exact kept.addJob (ok.fork fresh forked).1 new run
    · obtain rfl := Outcome.returned.inj run
      exact kept.foreground _

theorem redirection (h : Kept os rest w) {append : Bool} (run : redirectionCommand os line append w = .returned w') :
    Kept os rest w' := by
  simp only [redirectionCommand] at run
  split at run
  · obtain rfl := Outcome.returned.inj run
    exact h
  · split at run
    · obtain rfl := Outcome.returned.inj run
      exact h.congr rfl rfl
    · next forked =>
      obtain rfl := Outcome.returned.inj run
      exact (h.fork forked).1.foreground _

/-- The first child of a pipe is left behind when the second `fork` fails. -/
theorem left (h : Kept os (pid ::ₘ rest) w') {w : World} {task task' : Task} {e : Errno}
    (forked : w.fork os task = .ok (pid, w')) (failed : w'.fork os task' = .error e) : Kept os rest w' := by
  obtain ⟨given, strays, counted, none⟩ := h
  refine ⟨given, pid ::ₘ strays, ?_, fun steady => ?_⟩
  · unfold Accounts at counted ⊢
    rw [Multiset.cons_add, ← Multiset.add_cons]
    exact counted
  · unfold World.fork at forked
    split at forked
    · exact nomatch forked
    · next answer =>
      obtain ⟨rfl, rfl⟩ := Prod.mk.inj (Except.ok.inj forked)
      unfold World.fork at failed
      split at failed
      · next answer' => exact absurd answer' (steady.forks _ _ _ _ answer)
      · exact nomatch failed

theorem pipe (h : Kept os rest w) {stderrPipe : Bool} (run : pipeCommand os line stderrPipe w = .returned w') :
    Kept os rest w' := by
  simp only [pipeCommand] at run
  split at run
  · obtain rfl := Outcome.returned.inj run
    exact h
  · split at run
    · obtain rfl := Outcome.returned.inj run
      exact h.congr rfl rfl
    · have ticked : Kept os rest w.tick := h.congr rfl rfl
      split at run
      · obtain rfl := Outcome.returned.inj run
        exact h.congr rfl rfl
      · next pid₁ w₁ forked =>
        have kept := (ticked.fork forked).1
        split at run
        · next failed =>
          obtain rfl := Outcome.returned.inj run
          exact (kept.left forked failed).congr rfl rfl
        · next pid₂ w₂ forked' =>
          obtain rfl := Outcome.returned.inj run
          have both : Kept os (pid₁ ::ₘ pid₂ ::ₘ rest) { w₂ with shell.fgPid := pid₁ } := by
            rw [Multiset.cons_swap]
            exact (kept.fork forked').1.congr rfl rfl
          exact both.waitpid.waitpid.congr rfl rfl

theorem executeCommand (h : Kept os rest w) (ok : JobsOk w) (fresh : FreshPids os)
    (run : executeCommand os line w = .returned w') : Kept os rest w' := by
  simp only [Shell.executeCommand] at run
  split_ifs at run
  · obtain rfl := Outcome.returned.inj run
    exact h
  · have kept := h.removeFinishedJobs ok
    have ok' := ok.removeFinishedJobs os
    split at run
    · obtain rfl := Outcome.returned.inj run
      exact kept
    · next cmd _ =>
      cases cmd with
      | builtIn b cmdLine => exact kept.effect ok' (BuiltIn.effect run)
      | external cmdLine isBackground => exact kept.external ok' fresh run
      | pipe cmdLine stderrPipe => exact kept.pipe run
      | redirection cmdLine append => exact kept.redirection run

end Kept

/-! ## Runs -/

/-- One line of input. -/
def Line (os : Os) (w w' : World) : Prop := ∃ line, 10 ∉ line ∧ mainStep os line w = .returned w'

/-- A run of the shell, from one prompt to another. -/
def Session (os : Os) : World → World → Prop := Relation.ReflTransGen (Line os)

theorem Session.reachable (started : w₀.Starts) (run : Session os w₀ w) : Reachable os w := by
  induction run with
  | refl => exact .start started
  | tail _ line ih =>
    obtain ⟨line, noBreak, step⟩ := line
    exact ih.line noBreak step

/-- A line keeps the account. -/
theorem Kept.step (h : Kept os rest w) (ok : JobsOk w) (fresh : FreshPids os) (step : Line os w w') : Kept os rest w' := by
  obtain ⟨line, -, step⟩ := step
  have printed : ∀ text, Kept os rest (w.print text) := fun text => h.congr rfl rfl
  have ok' : ∀ text, JobsOk (w.print text) := fun text => ok.congr rfl rfl rfl
  exact (printed _).executeCommand (ok' _) fresh step

theorem Session.kept (fresh : FreshPids os) (started : w₀.Starts) (run : Session os w₀ w) :
    Kept os w₀.proc.children w := by
  induction run with
  | refl => exact Kept.start started
  | tail before step ih => exact ih.step ((Session.reachable started before).jobsOk fresh) fresh step

/-- **No child is forgotten and none is reaped twice.** At every prompt the children that have not been reaped are
those that the shell was started with, one for each job, and the strays; every job's pid was given by a `fork`.
There are no strays when waits go through and the second `fork` of a pipe does not fail on its own. -/
theorem children_accounted (fresh : FreshPids os) (started : w₀.Starts) (run : Session os w₀ w) :
    (∀ j ∈ w.shell.jobs, Given os j.pid) ∧
      ∃ strays, (w.proc.children : Multiset Int) = strays + w₀.proc.children + pidsOf w.shell.jobs ∧
        (Steady os → strays = 0) := by
  obtain ⟨given, strays, counted, none⟩ := run.kept fresh started
  exact ⟨given, strays, counted, none⟩

theorem calmSys_steady : Steady fun _ => calmSys where
  waits _ _ := rfl
  forks _ _ _ _ _ failed := Except.noConfusion rfl rfl (heq_of_eq failed)

/-- Two lines: one program goes to the background, the other one is waited for. -/
theorem children_accounted_two : ∃ w, Session (fun _ => calmSys) (World.startIn (lit "/")) w ∧
    (w.proc.children : Multiset Int) = {1001} := by
  have first : Line (fun _ => calmSys) (World.startIn (lit "/")) _ := ⟨lit "sleep 100 &", by decide, rfl⟩
  have run : Session (fun _ => calmSys) (World.startIn (lit "/")) _ :=
    (Relation.ReflTransGen.single first).tail ⟨lit "ls", by decide, rfl⟩
  obtain ⟨-, strays, counted, none⟩ := children_accounted calmSys_fresh ⟨rfl, rfl⟩ run
  refine ⟨_, run, ?_⟩
  rw [counted, none calmSys_steady]
  decide

end OsProjects.Shell
