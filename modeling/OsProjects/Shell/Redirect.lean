import OsProjects.Shell.Output
import OsProjects.Shell.JobRuns
import OsProjects.Shell.Expansion

/-!
# Redirecting a built-in command

A built-in command with `> f` behind it is parsed as a redirection, and its left side is
resolved and parsed again in a child. The child is a copy of the shell, but it has another
pid, no children, and a file that has just been truncated (`childView`). So it prints the
same text except where a command looks at one of the three.
-/

namespace OsProjects.Shell

open CText

variable {os : Os} {w : World} {s : SmashShell} {b f t u tail value : Text} {cmd : BuiltIn} {args : List Text}

/-! ## The line as a redirection -/

/-- A file name that a line can carry. -/
structure FileName (f : Text) : Prop where
  nonempty : f ≠ []
  trimmed : Trimmed f
  noBar : bar ∉ f
  noAppend : ¬[gt, gt] <:+: f

/-- A trimmed line begins with what is left of it without its `&`. -/
theorem exists_removeBackground (trimmed : Trimmed u) : ∃ rest, u = removeBackground u ++ rest ∧
    ∀ x ∈ rest.head?, isWordChar x = false := by
  rw [removeBackground_eq trimmed]
  split_ifs with background
  · obtain ⟨front, eq⟩ : ∃ front, u = front ++ [amp] := ⟨u.dropLast, (List.dropLast_append_getLast? _ background).symm⟩
    obtain ⟨before, after, cut, blanks, blanks'⟩ := Words.exists_trim isBlank front
    rw [eq, List.dropLast_concat]
    refine ⟨after ++ [amp], ?_, ?_⟩
    · cases before with
      | nil =>
        conv_lhs => rw [cut]
        simp only [List.nil_append, List.append_assoc]
        rfl
      | cons x before =>
        have blank := blanks x List.mem_cons_self
        rw [trimmed.head x (by rw [eq, cut]; rfl)] at blank
        exact Bool.noConfusion blank
    · intro x head
      cases after with
      | nil =>
        obtain rfl : amp = x := Option.some_inj.mp head
        decide
      | cons y after =>
        obtain rfl : y = x := Option.some_inj.mp head
        exact isWordChar_of_blank (blanks' y List.mem_cons_self)
  · exact ⟨[], (List.append_nil u).symm, fun x head => nomatch head⟩

/-- The name of a built-in command stands at the start of its line, up to a blank or an `&`. -/
theorem exists_name (trimmed : Trimmed u) (words : argsOf u = cmd.name :: args) :
    ∃ rest, u = cmd.name ++ rest ∧ ∀ x ∈ rest.head?, isWordChar x = false := by
  obtain ⟨rest, eq, stop⟩ := exists_removeBackground trimmed
  have nonempty : removeBackground u ≠ [] := by
    intro empty
    rw [argsOf, empty] at words
    cases words
  have head : ∀ x ∈ (removeBackground u).head?, isBlank x = false := by
    intro x mem
    apply trimmed.head
    rw [eq, List.head?_append, Option.mem_def.mp mem]
    rfl
  obtain ⟨word, rest', cut, nonblank, stop', ne⟩ := Words.exists_word head
  have first : word = cmd.name := by
    rw [argsOf, split, cut, Words.words_word_append nonblank (ne nonempty) stop'] at words
    exact (List.cons.inj words).1
  refine ⟨rest' ++ rest, ?_, ?_⟩
  · rw [← first, ← List.append_assoc, ← cut]
    exact eq
  · intro x mem
    cases rest' with
    | nil => exact stop x mem
    | cons y rest' => exact isWordChar_of_blank (stop' x mem)

/-- **A built-in command is resolved to itself.** -/
theorem AliasOk.resolveAlias_builtIn (h : AliasOk s) (trimmed : Trimmed u) (words : argsOf u = cmd.name :: args) :
    s.resolveAlias u = u := by
  obtain ⟨rest, eq, stop⟩ := exists_name trimmed words
  apply resolveAlias_of_none
  rw [trim_of_trimmed trimmed]
  cases found : s.aliases (key u) with
  | none => rfl
  | some value =>
    have same : key cmd.name = cmd.name := by
      apply List.takeWhile_eq_self_iff.mpr
      intro x mem
      rw [endsWord_of_wordChar (cmd.name_chars x mem)]
      rfl
    rw [eq] at found
    rw [(h.key_append found stop).1, same, h.reserved cmd.name_reserved] at found
    exact nomatch found

/-- The line is parsed as a redirection to `f`, and `left` is what the child is to execute. -/
structure Redirects (s : SmashShell) (line f left : Text) : Prop where
  created : createCommand (s.resolveAlias (trim line)) =
    some (.redirection (trim (s.resolveAlias (trim line))) false)
  sides : ∃ first, redirectionSides (trim (s.resolveAlias (trim line))) false = some (first, f) ∧
    s.resolveAlias first = left

/-- **A redirected built-in command is still the same command** when its left side has been resolved again. -/
theorem AliasOk.redirects (h : AliasOk s) (name : FileName f) (noBar : bar ∉ b) (noGt : gt ∉ b)
    (builtIn : createCommand (s.resolveAlias (trim b)) = some (.builtIn cmd u)) :
    ∃ left, Redirects s (b ++ lit " > " ++ f) f left ∧ createCommand left = some (.builtIn cmd u) := by
  obtain ⟨created, sides⟩ := h.createCommand_resolved .write noBar noGt ⟨name.noBar, name.noAppend⟩
  rw [trim_of_trimmed name.trimmed] at sides
  refine ⟨s.resolveAlias (s.leftSide b), ⟨created, _, sides, rfl⟩, ?_⟩
  unfold SmashShell.leftSide
  split
  · exact builtIn
  · -- resolved with the line: the command on the left is no alias any more
    obtain ⟨rfl, -, -, args, words⟩ := createCommand_builtIn builtIn
    rw [h.resolveAlias_builtIn (trimmed_trim _) words, createCommand_congr (trim_trim _)]
    exact builtIn

/-! ## What the command sees -/

/-- The jobs whose processes run on. -/
def running (sys : Sys) (jobs : List JobEntry) : List JobEntry := jobs.filter fun j => !sys.ended j.pid

theorem running_running (sys : Sys) (jobs : List JobEntry) : running sys (running sys jobs) = running sys jobs :=
  List.filter_eq_self.mpr fun _ mem => (List.mem_filter.mp mem).2

/-- While nothing happens `removeFinishedJobs` leaves the jobs that run on. -/
theorem removeFinished_running {sys : Sys} {p : Process} {jobs : List JobEntry} (quiet : ∀ t, p.now ≤ t → os t = sys)
    (nodup : (jobs.map JobEntry.pid).Nodup) (children : ∀ j ∈ jobs, j.pid ∈ p.children) :
    (removeFinished os p jobs).2 = running sys jobs := by
  induction jobs generalizing p with
  | nil => rfl
  | cons j jobs ih =>
    obtain ⟨new, nodup⟩ := List.nodup_cons.mp nodup
    have now := quiet p.now (le_refl _)
    have later : ∀ t, p.now + 1 ≤ t → os t = sys := fun t le => quiet t (by omega)
    have child := children j List.mem_cons_self
    rcases reap_cases os p j.pid with ⟨left, eq, others, ended⟩ | ⟨eq, -, runs⟩
    · have ended' := ended child
      rw [now] at ended'
      have rest : ∀ k ∈ jobs, k.pid ∈ left := by
        intro k mem
        apply others k.pid (children k (List.mem_cons_of_mem j mem))
        exact fun same => new (same ▸ List.mem_map_of_mem mem)
      simp only [removeFinished, eq, running]
      rw [List.filter_cons_of_neg (by simp [ended'])]
      exact ih (p := { p with children := left, now := p.now + 1 }) later nodup rest
    · rw [now] at runs
      simp only [removeFinished, eq, running]
      rw [List.filter_cons_of_pos (by simp [runs])]
      exact congrArg (List.cons j) (ih (p := { p with now := p.now + 1 }) later nodup fun k mem =>
        children k (List.mem_cons_of_mem j mem))

/-- A process without children takes every job for finished. -/
theorem removeFinished_orphan {p : Process} (alone : p.children = []) (jobs : List JobEntry) :
    (removeFinished os p jobs).2 = [] := by
  induction jobs generalizing p with
  | nil => rfl
  | cons j jobs ih =>
    have eq : reap os p j.pid = (true, { p with now := p.now + 1 }) := by
      rw [reap, alone, if_neg List.not_mem_nil]
    simp only [removeFinished, eq]
    exact ih alone

/-- Nothing happens but what the shell does: the system answers as it does now. `fork` gives another process, and
`f` can be written. -/
structure Quiet (os : Os) (w : World) (f : Text) (files : Files) : Prop where
  same : ∀ t, w.proc.now ≤ t → os t = w.sys os
  forks : ∀ children, ∃ pid, (w.sys os).fork children = .ok pid ∧ pid ≠ w.proc.pid
  opens : (w.sys os).openOut f false = .ok files
  dups : (w.sys os).dup2 = none

/-- What a built-in command sees that the shell executes itself. -/
def World.viewOf (os : Os) (w : World) : View where
  sys := w.sys os
  files := w.files os
  pid := w.proc.pid
  cwd := w.proc.cwd
  jobs := running (w.sys os) w.shell.jobs
  live := running (w.sys os) w.shell.jobs
  listing := aliasListing w.shell

/-- What it sees in the child of a redirection: three things have changed. -/
def View.inChild (pid : Int) (files : Files) (v : View) : View := { v with pid := pid, live := [], files := files }

section Quiet

variable {files : Files}

theorem Quiet.removeFinishedJobs (quiet : Quiet os w f files) (h : JobsOk w) :
    (w.removeFinishedJobs os).shell.jobs = running (w.sys os) w.shell.jobs :=
  removeFinished_running quiet.same h.orderly.distinct h.children

theorem Quiet.view (quiet : Quiet os w f files) (h : JobsOk w) : (w.removeFinishedJobs os).view os = w.viewOf os := by
  obtain ⟨children, now, same, le⟩ := (h.swept os).same
  have jobs := quiet.removeFinishedJobs h
  have swept := h.removeFinishedJobs os
  have sys : (w.removeFinishedJobs os).sys os = w.sys os := by
    rw [World.sys, same]
    exact quiet.same now le
  have again : ((w.removeFinishedJobs os).removeFinishedJobs os).shell.jobs = running (w.sys os) w.shell.jobs := by
    rw [← running_running, ← jobs]
    apply removeFinished_running _ swept.orderly.distinct swept.children
    intro t le'
    rw [same] at le'
    exact quiet.same t (le.trans le')
  have files' : (w.removeFinishedJobs os).files os = w.files os := by
    unfold World.files
    rw [sys, same]
  simp only [World.view, World.viewOf, sys, again, files', jobs]
  rw [same]
  rfl

end Quiet

/-! ## The child -/

/-- What a program writes, nothing when it cannot be executed. -/
def stdoutOf (sys : Sys) (p : Program) : Text :=
  match sys.stdout p with
  | .ok text => text
  | .error _ => []

/-- The program that the child executes in place of a built-in command: bash when there is a wildcard, as an alias
can bring it in, and otherwise the first word, when it is not the bare name (`pwd&`). -/
def programFor (left : Text) : Option Program :=
  if isComplex left then some (.bash left)
  else
    match split left with
    | [] => some (.exec [])
    | cmdName :: _ => if SmashShell.isReservedKeyword cmdName then none else some (.exec (split left))

/-- What the child prints. -/
def childText (left : Text) (v : View) (cmdLine : Text) (cmd : BuiltIn) : Text :=
  match programFor left with
  | some p => stdoutOf v.sys p
  | none => cmd.text v cmdLine

theorem World.exec_out (os : Os) (w : World) (p : Program) : (w.exec os p).out = w.out ++ stdoutOf (w.sys os) p := by
  unfold World.exec stdoutOf
  cases answer : (w.sys os).stdout p with
  | ok text => rfl
  | error e =>
    cases p with
    | bash line => exact (List.append_nil _).symm
    | exec argv => exact (List.append_nil _).symm

theorem runLeft_out {left : Text} (os : Os) (w : World) (created : createCommand left = some (.builtIn cmd u)) :
    (runLeft os left w).out = w.out ++ childText left (w.view os) u cmd := by
  unfold runLeft childText programFor
  split_ifs
  · exact World.exec_out os w _
  · cases words : split left with
    | nil => exact World.exec_out os w _
    | cons cmdName rest =>
      simp only
      split_ifs
      · rw [created]
        exact BuiltIn.execute_out os u w cmd
      · exact World.exec_out os w _

/-- The text that a line writes to standard output. -/
def textOut (os : Os) (line : Text) (w : World) : Text := (executeCommand os line { w with out := [] }).world.out

/-- The text that a child writes to `f`. -/
def Spawn.textTo (os : Os) (f : Text) (s : Spawn) : Text :=
  match s.task with
  | .redirected filename _ _ => if filename = f then (s.run os).out else []
  | _ => []

/-- The text that a line writes to `f`, in the children it starts. -/
def textTo (os : Os) (f line : Text) (w : World) : Text :=
  ((executeCommand os line { w with spawned := [] }).world.spawned.map (Spawn.textTo os f)).flatten

section Quiet

variable {files : Files} {line left : Text}

/-- **Directly.** -/
theorem Quiet.textOut_eq (quiet : Quiet os w f files) (h : JobsOk w)
    (builtIn : createCommand (w.shell.resolveAlias (trim b)) = some (.builtIn cmd u)) :
    textOut os b w = cmd.text (w.viewOf os) u := by
  have nonempty := trim_ne_nil builtIn
  have builtIn' : createCommand ((({ w with out := [] } : World).removeFinishedJobs os).shell.resolveAlias (trim b)) =
      some (.builtIn cmd u) := builtIn
  have text := BuiltIn.execute_out os u (({ w with out := [] } : World).removeFinishedJobs os) cmd
  have view : (({ w with out := [] } : World).removeFinishedJobs os).view os = w.viewOf os := quiet.view h
  simp only [textOut, executeCommand, if_neg nonempty, builtIn', Command.execute]
  rw [text, view]
  rfl

/-- The child of a redirection when it has opened the file. -/
def World.childOf (pid : Int) (f : Text) (w : World) : World where
  shell := w.shell
  proc := { w.proc with pid := pid, children := [], stdout := some (f, false), now := w.proc.now + 1 + 1 }
  out := []
  err := []
  spawned := []
  added := []

theorem Quiet.view_childOf (quiet : Quiet os w f files) (h : JobsOk w) (pid : Int) :
    ((w.removeFinishedJobs os).childOf pid f).view os = (w.viewOf os).inChild pid files := by
  obtain ⟨children, now, same, le⟩ := (h.swept os).same
  have jobs := quiet.removeFinishedJobs h
  have sys : ((w.removeFinishedJobs os).childOf pid f).sys os = w.sys os := by
    apply quiet.same
    simp only [World.childOf, same]
    omega
  have files' : ((w.removeFinishedJobs os).childOf pid f).files os = files := by
    have stdout : ((w.removeFinishedJobs os).childOf pid f).proc.stdout = some (f, false) := rfl
    simp only [World.files, stdout, sys, quiet.opens]
  have live : (((w.removeFinishedJobs os).childOf pid f).removeFinishedJobs os).shell.jobs = [] :=
    removeFinished_orphan rfl _
  have jobs' : ((w.removeFinishedJobs os).childOf pid f).shell.jobs = running (w.sys os) w.shell.jobs := jobs
  have cwd : ((w.removeFinishedJobs os).childOf pid f).proc.cwd = w.proc.cwd := by
    change (w.removeFinishedJobs os).proc.cwd = w.proc.cwd
    rw [same]
  simp only [World.view, World.viewOf, View.inChild, sys, files', live, jobs', cwd]
  rfl

/-- The child of a redirection, from its `fork` to its end. -/
theorem Quiet.run_redirected (quiet : Quiet os w f files) (h : JobsOk w) (pid : Int)
    (builtIn : createCommand left = some (.builtIn cmd u)) :
    (Spawn.run os ⟨(w.removeFinishedJobs os).shell,
      { (w.removeFinishedJobs os).tick.proc with pid := pid, children := [] }, .redirected f false left⟩).out =
      childText left ((w.viewOf os).inChild pid files) u cmd := by
  obtain ⟨children, now, same, le⟩ := (h.swept os).same
  have sys : os ((w.removeFinishedJobs os).proc.now + 1) = w.sys os := by
    apply quiet.same
    rw [same]
    exact le.trans (Nat.le_succ now)
  have opens : (os ((w.removeFinishedJobs os).proc.now + 1)).openOut f false = .ok files := sys ▸ quiet.opens
  have dups : (os ((w.removeFinishedJobs os).proc.now + 1)).dup2 = none := sys ▸ quiet.dups
  have run := runLeft_out os ((w.removeFinishedJobs os).childOf pid f) builtIn
  rw [quiet.view_childOf h] at run
  simp only [Spawn.run, World.sys, World.tick, opens, dups]
  exact run

/-- **In the child.** -/
theorem Quiet.textTo_eq (quiet : Quiet os w f files) (h : JobsOk w) (redirects : Redirects w.shell line f left)
    (builtIn : createCommand left = some (.builtIn cmd u)) :
    ∃ pid, pid ≠ w.proc.pid ∧ textTo os f line w = childText left ((w.viewOf os).inChild pid files) u cmd := by
  obtain ⟨pid, forked, other⟩ := quiet.forks (w.removeFinishedJobs os).proc.children
  refine ⟨pid, other, ?_⟩
  have nonempty := trim_ne_nil redirects.created
  obtain ⟨first, sides, left_eq⟩ := redirects.sides
  have text := quiet.run_redirected h pid builtIn
  have sys : (w.removeFinishedJobs os).sys os = w.sys os := congrArg View.sys (quiet.view h)
  have created : createCommand ((({ w with spawned := [] } : World).removeFinishedJobs os).shell.resolveAlias (trim line)) =
      some (.redirection (trim (w.shell.resolveAlias (trim line))) false) := redirects.created
  have resolved : (({ w with spawned := [] } : World).removeFinishedJobs os).shell.resolveAlias first = left := left_eq
  have fork : ((({ w with spawned := [] } : World).removeFinishedJobs os).sys os).fork
      (({ w with spawned := [] } : World).removeFinishedJobs os).proc.children = .ok pid := by
    have sys' : (({ w with spawned := [] } : World).removeFinishedJobs os).sys os = w.sys os := sys
    rw [sys']
    exact forked
  simp only [textTo, executeCommand, if_neg nonempty, created, Command.execute, redirectionCommand, sides, resolved,
    World.fork, fork, Outcome.world, World.foreground_spawned]
  simp only [World.tick, World.removeFinishedJobs, List.nil_append, List.map_cons, List.map_nil, List.flatten_cons,
    List.flatten_nil, List.append_nil, Spawn.textTo, if_true]
  exact text

end Quiet

/-! ## The same text -/

/-- The directory that `du` sums up, unless it refuses. -/
def duPath (v : View) (cmdLine : Text) : Option Text :=
  if 2 < (split (removeBackground cmdLine)).length then none
  else
    match split (removeBackground cmdLine) with
    | _ :: path :: _ => some path
    | _ =>
      match v.sys.getcwd with
      | some _ => none
      | none => some v.cwd

/-- The sum that `du` prints. -/
def kilobytes (files : Files) (path : Text) : Nat := (duRecursive files path + 1023) / 1024

/-- When a built-in command prints the same in the child, in which the file system is `files`. -/
def BuiltIn.Agrees (v : View) (files : Files) (cmdLine : Text) : BuiltIn → Prop
  | chprompt | pwd | cd | kill | alias' | unalias | unsetenv => True
  | showpid => False
  | jobs => v.live = []
  | fg => (argsOf cmdLine).length ≤ 2 → ∀ j, chooseJob (argsOf cmdLine) v.live ≠ .job j
  | quit => (argsOf cmdLine)[1]? = some (lit "kill") → v.live = []
  | sysinfo => (Shell.sysinfo v.sys files).out = (Shell.sysinfo v.sys v.files).out
  | du => ∀ path, duPath v cmdLine = some path → kilobytes files path = kilobytes v.files path
  | whoami => (Shell.whoami v.sys files).out = (Shell.whoami v.sys v.files).out
  | usbinfo => (Shell.usbinfo files).out = (Shell.usbinfo v.files).out

variable {v : View} {files : Files} {pid : Int}

theorem sortJobs_eq_nil {jobs : List JobEntry} : sortJobs jobs = [] ↔ jobs = [] := by
  rw [← List.length_eq_zero_iff, ← List.length_eq_zero_iff, sortJobs, List.length_insertionSort]

theorem jobLines_eq_nil {jobs : List JobEntry} : ((sortJobs jobs).map World.jobLine).flatten = [] ↔ jobs = [] := by
  rw [← sortJobs_eq_nil, List.flatten_eq_nil_iff]
  constructor
  · intro lines
    cases sorted : sortJobs jobs with
    | nil => rfl
    | cons j rest =>
      rw [sorted] at lines
      have line := lines (World.jobLine j) List.mem_cons_self
      exact nomatch line
  · intro empty
    rw [empty]
    simp

/-- A process without jobs has none to choose. -/
theorem chooseJob_nil (args : List Text) : (chooseJob args []).text = [] := by
  unfold chooseJob
  split
  · split_ifs
    · rfl
    · split
      · rfl
      · rfl
  · rfl

theorem Choice.text_eq_nil {c : Choice} : c.text = [] ↔ ∀ j, c ≠ .job j := by
  cases c with
  | job j => simp [text, lit]
  | refused message => simp [text]
  | throws => simp [text]

theorem readInt_count (n : Nat) (rest : Text) : readInt (printd n ++ (lit " jobs:\n" ++ rest)) = n :=
  readInt_printd n (by rw [lit]; simp [isDigit])

theorem killAllText_inj {live : List JobEntry} : killAllText [] = killAllText live ↔ live = [] := by
  constructor
  · intro same
    unfold killAllText at same
    simp only [List.append_assoc, List.append_cancel_left_eq] at same
    have count := congrArg readInt same
    rw [readInt_count, readInt_count] at count
    exact List.length_eq_zero_iff.mp (by simpa using count.symm)
  · intro empty
    rw [empty]

theorem du_out (v : View) (files : Files) (cmdLine : Text) : (Shell.du v.sys files v.cwd cmdLine).out =
    (duPath v cmdLine).elim [] fun path =>
      lit "Total disk usage: " ++ printd (kilobytes files path) ++ lit " KB\n" := by
  unfold Shell.du duPath
  simp only
  generalize split (removeBackground cmdLine) = args
  by_cases many : 2 < args.length
  · rw [if_pos many, if_pos many]
    rfl
  · rw [if_neg many, if_neg many]
    rcases args with _ | ⟨word, _ | ⟨path, rest⟩⟩
    · cases v.sys.getcwd with
      | none => rfl
      | some e => rfl
    · cases v.sys.getcwd with
      | none => rfl
      | some e => rfl
    · rfl

theorem du_agrees (v : View) (files : Files) (u : Text) :
    (Shell.du v.sys files v.cwd u).out = (Shell.du v.sys v.files v.cwd u).out ↔ BuiltIn.du.Agrees v files u := by
  rw [du_out, du_out]
  unfold BuiltIn.Agrees
  cases duPath v u with
  | none => simp
  | some path =>
    constructor
    · intro same path' e
      obtain rfl := Option.some_inj.mp e
      simp only [Option.elim_some, List.append_assoc, List.append_cancel_left_eq, List.append_cancel_right_eq] at same
      exact Int.ofNat_inj.mp (printd_injective same)
    · intro same
      simp only [Option.elim_some, same path rfl]

/-- **What a command prints in the child.** -/
theorem BuiltIn.text_inChild_iff (ne : pid ≠ v.pid) (cmd : BuiltIn) :
    cmd.text (v.inChild pid files) u = cmd.text v u ↔ cmd.Agrees v files u := by
  cases cmd with
  | chprompt => exact iff_of_true rfl trivial
  | cd => exact iff_of_true rfl trivial
  | unalias => exact iff_of_true rfl trivial
  | unsetenv => exact iff_of_true rfl trivial
  | pwd => exact iff_of_true rfl trivial
  | kill => exact iff_of_true rfl trivial
  | alias' => exact iff_of_true rfl trivial
  | showpid =>
    refine iff_of_false (fun same => ne ?_) id
    simp only [text, List.append_assoc, List.append_cancel_left_eq, List.append_cancel_right_eq] at same
    exact printd_injective same
  | jobs =>
    rw [eq_comm]
    exact jobLines_eq_nil
  | fg =>
    have child : BuiltIn.fg.text (v.inChild pid files) u = [] := by
      simp only [text, View.inChild, chooseJob_nil, ite_self]
    rw [child, eq_comm]
    simp only [text, Agrees]
    split_ifs with many
    · exact iff_of_true rfl fun few => absurd many (by omega)
    · rw [Choice.text_eq_nil]
      exact ⟨fun none _ => none, fun none => none (by omega)⟩
  | quit =>
    simp only [text, Agrees, View.inChild]
    split_ifs with all
    · rw [killAllText_inj]
      exact ⟨fun empty _ => empty, fun empty => empty all⟩
    · exact iff_of_true rfl fun all' => absurd all' all
  | sysinfo => exact Iff.rfl
  | du => exact du_agrees v files u
  | whoami => exact Iff.rfl
  | usbinfo => exact Iff.rfl

/-- When a redirected line writes what it would have printed. -/
def SameText (left : Text) (v : View) (files : Files) (cmdLine : Text) (cmd : BuiltIn) : Prop :=
  match programFor left with
  | some p => stdoutOf v.sys p = cmd.text v cmdLine
  | none => cmd.Agrees v files cmdLine

theorem childText_iff {left : Text} (ne : pid ≠ v.pid) :
    childText left (v.inChild pid files) u cmd = cmd.text v u ↔ SameText left v files u cmd := by
  unfold childText SameText
  split
  · exact Iff.rfl
  · exact cmd.text_inChild_iff ne

/-- **Redirecting a built-in command.** In every state between two lines, when nothing but the shell moves and `f`
can be written, a built-in command with `> f` behind it is parsed as a redirection of the same command to `f`. It
writes to `f` the text that it prints without the redirection exactly when it does not look at what is different in
the child: the pid, the children and the truncated file. -/
theorem redirected_text_iff (fresh : FreshPids os) (reach : Reachable os w) (quiet : Quiet os w f files)
    (name : FileName f) (noBar : bar ∉ b) (noGt : gt ∉ b)
    (builtIn : createCommand (w.shell.resolveAlias (trim b)) = some (.builtIn cmd u)) :
    ∃ left, Redirects w.shell (b ++ lit " > " ++ f) f left ∧
      (textTo os f (b ++ lit " > " ++ f) w = textOut os b w ↔ SameText left (w.viewOf os) files u cmd) := by
  have jobsOk := reach.jobsOk fresh
  obtain ⟨left, redirects, created⟩ := reach.aliasOk.redirects name noBar noGt builtIn
  obtain ⟨pid, other, text⟩ := quiet.textTo_eq jobsOk redirects created
  refine ⟨left, redirects, ?_⟩
  rw [text, quiet.textOut_eq jobsOk builtIn]
  exact childText_iff other

theorem calmSys_quiet (self : w.proc.pid = 1000) (f : Text) : Quiet (fun _ => calmSys) w f noFiles where
  same t _ := rfl
  forks children := by
    have le : ∀ l : List Int, 1000 ≤ l.foldr max 1000 := by
      intro l
      induction l with
      | nil => exact le_refl _
      | cons x l ih => exact ih.trans (le_max_right x _)
    have := le children
    exact ⟨_, rfl, by rw [self]; omega⟩
  opens := rfl
  dups := rfl

theorem fileName_out : FileName (lit "out") where
  nonempty := by decide
  trimmed := trimmed_trim (lit "out")
  noBar := by decide
  noAppend := by decide

/-- `pwd > out` in a shell with a job in the background. -/
theorem redirected_text_pwd : ∃ w, Reachable (fun _ => calmSys) w ∧ w.shell.jobs = [⟨1, 1001, lit "sleep 100 &"⟩] ∧
    textTo (fun _ => calmSys) (lit "out") (lit "pwd" ++ lit " > " ++ lit "out") w =
      textOut (fun _ => calmSys) (lit "pwd") w := by
  have reach : Reachable (fun _ => calmSys) _ :=
    (Reachable.start (w := World.startIn (lit "/")) ⟨rfl, rfl⟩).line (by decide : 10 ∉ lit "sleep 100 &") rfl
  have created : createCommand (lit "pwd") = some (.builtIn .pwd (lit "pwd")) := rfl
  obtain ⟨left, redirects, same⟩ := redirected_text_iff (b := lit "pwd") calmSys_fresh reach (calmSys_quiet rfl _)
    fileName_out (by decide) (by decide) created
  obtain ⟨first, sides, rfl⟩ := redirects.sides
  obtain ⟨rfl, -⟩ := Prod.mk.inj (Option.some_inj.mp sides)
  exact ⟨_, reach, rfl, same.mpr trivial⟩

/-- **The two texts differ.** With a job in the background, `showpid > out` writes the pid of the child, and
`jobs > out` writes nothing. -/
theorem redirected_text_differs : ∃ w, Reachable (fun _ => calmSys) w ∧ Quiet (fun _ => calmSys) w (lit "out") noFiles ∧
    ∀ cmd ∈ [BuiltIn.showpid, BuiltIn.jobs],
      createCommand (w.shell.resolveAlias (trim cmd.name)) = some (.builtIn cmd cmd.name) ∧
      textTo (fun _ => calmSys) (lit "out") (cmd.name ++ lit " > " ++ lit "out") w ≠
        textOut (fun _ => calmSys) cmd.name w := by
  have reach : Reachable (fun _ => calmSys) _ :=
    (Reachable.start (w := World.startIn (lit "/")) ⟨rfl, rfl⟩).line (by decide : 10 ∉ lit "sleep 100 &") rfl
  refine ⟨_, reach, calmSys_quiet rfl _, fun cmd mem => ?_⟩
  rcases List.mem_cons.mp mem with rfl | mem
  · exact ⟨rfl, by decide⟩
  · obtain rfl := List.mem_singleton.mp mem
    exact ⟨rfl, by decide⟩

end OsProjects.Shell
