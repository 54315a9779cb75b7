import OsProjects.Shell.Commands

/-!
# What the built-in commands print

A built-in command's text is a function of what it sees when it starts (`View`): the
answers of the system, the file system, its process and the tables of the shell.
-/

namespace OsProjects.Shell

open CText

/-- What a command sees. `live` are the jobs that `removeFinishedJobs` would leave. -/
structure View where
  sys : Sys
  files : Files
  pid : Int
  cwd : Text
  jobs : List JobEntry
  live : List JobEntry
  listing : Text

def World.view (os : Os) (w : World) : View where
  sys := w.sys os
  files := w.files os
  pid := w.proc.pid
  cwd := w.proc.cwd
  jobs := w.shell.jobs
  live := (w.removeFinishedJobs os).shell.jobs
  listing := aliasListing w.shell

/-- The line of `fg`. -/
def Choice.text : Choice → Text
  | job j => j.cmdLine ++ lit " " ++ printd j.pid ++ lit "\n"
  | refused _ | throws => []

/-- The lines of `quit kill`. -/
def killAllText (live : List JobEntry) : Text :=
  lit "smash: sending SIGKILL signal to " ++ printd live.length ++ lit " jobs:\n" ++
    ((sortJobs live).map World.killLine).flatten

/-- The line of `kill`. -/
def killText (sys : Sys) (jobs : List JobEntry) (args : List Text) : Text :=
  match args with
  | [_, sigarg, jobarg] =>
    if sigarg.head? ≠ some 45 then []
    else if !isNumber sigarg.tail then []
    else if !isNumber jobarg then []
    else
      match stoi sigarg.tail, stoi jobarg with
      | some signum, some jobId =>
        match getJobById jobId jobs with
        | none => []
        | some job =>
          match sys.kill job.pid signum with
          | some _ => []
          | none => lit "signal number " ++ printd signum ++ lit " was sent to pid " ++ printd job.pid ++ lit "\n"
      | _, _ => []
  | _ => []

/-- What a built-in command prints on its standard output. -/
def BuiltIn.text (v : View) (cmdLine : Text) : BuiltIn → Text
  | chprompt | cd | unalias | unsetenv => []
  | showpid => lit "smash pid is " ++ printd v.pid ++ lit "\n"
  | pwd =>
    match v.sys.getcwd with
    | some _ => []
    | none => v.cwd ++ lit "\n"
  | jobs => ((sortJobs v.live).map World.jobLine).flatten
  | fg => if 2 < (argsOf cmdLine).length then [] else (chooseJob (argsOf cmdLine) v.live).text
  | quit => if (argsOf cmdLine)[1]? = some (lit "kill") then killAllText v.live else []
  | kill => killText v.sys v.jobs (argsOf cmdLine)
  | alias' => if (split (removeBackground cmdLine)).length = 1 then v.listing else []
  | sysinfo => (Shell.sysinfo v.sys v.files).out
  | du => (Shell.du v.sys v.files v.cwd cmdLine).out
  | whoami => (Shell.whoami v.sys v.files).out
  | usbinfo => (Shell.usbinfo v.files).out

variable {os : Os} {w : World} {line : Text}

/-! ## Each command prints its text -/

theorem changeDirTo_out (os : Os) (w : World) (path cwd : Text) : (changeDirTo os w path cwd).out = w.out := by
  unfold changeDirTo
  split_ifs
  · rfl
  · simp only
    split
    · rfl
    · rfl
  · split
    · rfl
    · rfl

theorem unaliasLoop_out (w : World) (names : List Text) : (unaliasLoop w names).out = w.out := by
  induction names generalizing w with
  | nil => rfl
  | cons name names ih =>
    unfold unaliasLoop
    split_ifs
    · exact ih _
    · rfl

theorem unsetenvLoop_out (w : World) (names : List Text) : (unsetenvLoop w names).out = w.out := by
  induction names generalizing w with
  | nil => rfl
  | cons name names ih =>
    unfold unsetenvLoop
    split_ifs
    · exact ih _
    · rfl

theorem World.waitpid_out (os : Os) (w : World) (pid : Int) : (w.waitpid os pid).2.out = w.out := by
  unfold World.waitpid
  split_ifs
  · split
    · rfl
    · rfl
  · rfl

theorem World.foreground_out (os : Os) (w : World) (pid : Int) (cmd : Text) : (w.foreground os pid cmd).out = w.out := by
  have kept := waitpid_out os { w with shell.fgPid := pid, shell.fgCmd := cmd } pid
  cases result : ({ w with shell.fgPid := pid, shell.fgCmd := cmd } : World).waitpid os pid with
  | mk e w' =>
    rw [result] at kept
    simp only [World.foreground, result]
    cases e with
    | some e => exact kept
    | none => exact kept

theorem World.report_out (r : Report) (w : World) : (w.report r).world.out = w.out ++ r.out := by
  simp only [World.report]
  split_ifs
  · rfl
  · rfl

theorem foregroundCommand_out (os : Os) (line : Text) (w : World) :
    (foregroundCommand os line w).world.out = w.out ++ BuiltIn.fg.text (w.view os) line := by
  simp only [foregroundCommand, BuiltIn.text, World.view]
  split_ifs
  · exact (List.append_nil _).symm
  · cases chooseJob (argsOf line) (w.removeFinishedJobs os).shell.jobs with
    | refused message => exact (List.append_nil _).symm
    | throws => exact (List.append_nil _).symm
    | job j => exact World.foreground_out os _ _ _

theorem quitCommand_out (os : Os) (line : Text) (w : World) :
    (quitCommand os line w).world.out = w.out ++ BuiltIn.quit.text (w.view os) line := by
  simp only [quitCommand, BuiltIn.text, World.view]
  generalize argsOf line = args
  rcases args with _ | ⟨word, _ | ⟨arg, rest⟩⟩
  · exact (List.append_nil _).symm
  · exact (List.append_nil _).symm
  · simp only [List.getElem?_cons_succ, List.getElem?_cons_zero, Option.some_inj]
    split_ifs
    · rfl
    · exact (List.append_nil _).symm

theorem killCommand_out (os : Os) (line : Text) (w : World) :
    (killCommand os line w).world.out = w.out ++ BuiltIn.kill.text (w.view os) line := by
  have silent : ∀ text, (w.complain text).out = w.out ++ [] := fun text => (List.append_nil _).symm
  simp only [killCommand, BuiltIn.text, World.view, killText]
  generalize argsOf line = args
  rcases args with _ | ⟨word, _ | ⟨sigarg, _ | ⟨jobarg, _ | ⟨more, rest⟩⟩⟩⟩
  · exact silent _
  · exact silent _
  · exact silent _
  · simp only
    split_ifs
    · exact silent _
    · exact silent _
    · exact silent _
    · cases stoi sigarg.tail with
      | none => exact (List.append_nil _).symm
      | some signum =>
        cases stoi jobarg with
        | none => exact (List.append_nil _).symm
        | some jobId =>
          cases found : getJobById jobId w.shell.jobs with
          | none =>
            simp only [found]
            exact silent _
          | some job =>
            simp only [found]
            cases (w.sys os).kill job.pid signum with
            | none => rfl
            | some e => exact (List.append_nil _).symm
  · exact silent _

theorem aliasCommand_out (os : Os) (line : Text) (w : World) :
    (aliasCommand line w).world.out = w.out ++ BuiltIn.alias'.text (w.view os) line := by
  simp only [aliasCommand, BuiltIn.text, World.view]
  by_cases listing : (split (removeBackground line)).length = 1
  · rw [if_pos listing, if_pos listing]
    rfl
  · rw [if_neg listing, if_neg listing, List.append_nil]
    split_ifs
    · rfl
    · rfl
    · rfl

/-- **Every built-in command prints its text.** -/
theorem BuiltIn.execute_out (os : Os) (line : Text) (w : World) (b : BuiltIn) :
    (b.execute os line w).world.out = w.out ++ b.text (w.view os) line := by
  cases b with
  | chprompt =>
    simp only [execute, chpromptCommand, text]
    split
    · exact (List.append_nil _).symm
    · exact (List.append_nil _).symm
  | showpid => rfl
  | pwd =>
    cases answer : (w.sys os).getcwd with
    | none =>
      simp only [execute, getCurrDirCommand, text, World.view, answer]
      rfl
    | some e =>
      simp only [execute, getCurrDirCommand, text, World.view, answer]
      exact (List.append_nil _).symm
  | cd =>
    simp only [execute, changeDirCommand, text, List.append_nil]
    split
    · rfl
    · split
      · rfl
      · exact changeDirTo_out os w.tick _ _
    · rfl
  | jobs => rfl
  | fg => exact foregroundCommand_out os line w
  | quit => exact quitCommand_out os line w
  | kill => exact killCommand_out os line w
  | alias' => exact aliasCommand_out os line w
  | unalias =>
    simp only [execute, unaliasCommand, text, List.append_nil]
    split
    · exact unaliasLoop_out w _
    · rfl
  | unsetenv =>
    simp only [execute, unsetenvCommand, text, List.append_nil]
    split
    · exact unsetenvLoop_out w _
    · rfl
  | sysinfo => exact World.report_out _ w
  | du => exact World.report_out _ w
  | whoami => exact World.report_out _ w
  | usbinfo => exact World.report_out _ w

end OsProjects.Shell
