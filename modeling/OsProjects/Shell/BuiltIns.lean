import OsProjects.Shell.Jobs
import OsProjects.Shell.Reports

/-!
# Built-in commands

The `execute` methods of the built-in commands. Each parses its command line again, acts on
the shell, and writes to the two outputs. Where a method reads `args[1]`, `createCommand` has
made sure that there is an `args[0]`.
-/

namespace OsProjects.Shell

open CText

/-- The built-in commands, in the order of `createCommand`. -/
inductive BuiltIn where
  | chprompt | showpid | pwd | cd | jobs | fg | quit | kill
  | alias' | unalias | unsetenv | sysinfo | du | whoami | usbinfo
deriving DecidableEq

namespace BuiltIn

def name : BuiltIn → Text
  | chprompt => lit "chprompt"
  | showpid => lit "showpid"
  | pwd => lit "pwd"
  | cd => lit "cd"
  | jobs => lit "jobs"
  | fg => lit "fg"
  | quit => lit "quit"
  | kill => lit "kill"
  | alias' => lit "alias"
  | unalias => lit "unalias"
  | unsetenv => lit "unsetenv"
  | sysinfo => lit "sysinfo"
  | du => lit "du"
  | whoami => lit "whoami"
  | usbinfo => lit "usbinfo"

def all : List BuiltIn :=
  [chprompt, showpid, pwd, cd, jobs, fg, quit, kill, alias', unalias, unsetenv, sysinfo, du, whoami, usbinfo]

/-- The command with a name. -/
def ofName (s : Text) : Option BuiltIn := all.find? fun b => b.name = s

end BuiltIn

/-! ## Aliases -/

namespace SmashShell

/-- `isReservedKeyword`. The list of `RedirectionCommand` and `PipeCommand` is the same. -/
def isReservedKeyword (name : Text) : Bool := (BuiltIn.ofName name).isSome

/-- `aliasExists`. -/
def aliasExists (s : SmashShell) (name : Text) : Bool := (s.aliases name).isSome

/-- `addAlias`. -/
def addAlias (name cmd : Text) (s : SmashShell) : SmashShell :=
  { s with aliases := Function.update s.aliases name (some cmd), aliasOrder := s.aliasOrder ++ [name] }

/-- `removeAlias`. -/
def removeAlias (name : Text) (s : SmashShell) : SmashShell :=
  { s with aliases := Function.update s.aliases name none, aliasOrder := s.aliasOrder.filter (· ≠ name) }

/-- The characters that end the first word for `resolveAlias`. -/
def endsWord (b : UInt8) : Bool := b == 32 || b == 9 || b == bar || b == gt || b == amp

/-- `resolveAlias`. -/
def resolveAlias (s : SmashShell) (cmdLine : Text) : Text :=
  let trimmed := trim cmdLine
  if trimmed = [] then cmdLine
  else
    match s.aliases (trimmed.takeWhile fun b => !endsWord b) with
    | some value => value ++ trimmed.dropWhile fun b => !endsWord b
    | none => cmdLine

end SmashShell

/-! ## The commands -/

section Commands

variable (os : Os) (cmdLine : Text) (w : World)

/-- `args`: the words of the command line without its `&`. -/
def argsOf : List Text := split (removeBackground cmdLine)

/-- `ChpromptCommand::execute`. -/
def chpromptCommand : Outcome :=
  match argsOf cmdLine with
  | _ :: prompt :: _ => .returned { w with shell.prompt := prompt }
  | _ => .returned { w with shell.prompt := lit "smash" }

/-- `ShowPidCommand::execute`. -/
def showPidCommand : Outcome := .returned (w.print (lit "smash pid is " ++ printd w.proc.pid ++ lit "\n"))

/-- `GetCurrDirCommand::execute`. -/
def getCurrDirCommand : Outcome :=
  match (w.sys os).getcwd with
  | some e => .returned (w.tick.perror "smash error: getcwd failed" e)
  | none => .returned (w.tick.print (w.proc.cwd ++ lit "\n"))

/-- The rest of `ChangeDirCommand::execute`, with the argument and the working directory. -/
def changeDirTo (path cwd : Text) : World :=
  if path = lit "-" then
    if w.shell.lastPwd = [] then w.complain (lit "smash error: cd: OLDPWD not set\n")
    else
      let old := w.shell.lastPwd
      let w := { w with shell.lastPwd := cwd }
      match (w.sys os).chdir cwd old with
      | .error e => { w.tick.perror "smash error: chdir failed" e with shell.lastPwd := cwd }
      | .ok dir => { w.tick with proc.cwd := dir }
  else
    match (w.sys os).chdir cwd path with
    | .error e => w.tick.perror "smash error: chdir failed" e
    | .ok dir => { w.tick with proc.cwd := dir, shell.lastPwd := cwd }

/-- `ChangeDirCommand::execute`. -/
def changeDirCommand : Outcome :=
  match argsOf cmdLine with
  | _ :: _ :: _ :: _ => .returned (w.complain (lit "smash error: cd: too many arguments\n"))
  | [_, path] =>
    match (w.sys os).getcwd with
    | some e => .returned (w.tick.perror "smash error: getcwd failed" e)
    | none => .returned (changeDirTo os w.tick path w.proc.cwd)
  | _ => .returned w

/-- `JobsCommand::execute`. -/
def jobsCommand : Outcome := .returned (w.printJobsList os)

/-- The job that `fg` is to wait for, or the message that there is none. -/
inductive Choice where
  | job (j : JobEntry)
  | refused (message : Text)
  | throws

/-- The middle of `ForegroundCommand::execute`. -/
def chooseJob (args : List Text) (jobs : List JobEntry) : Choice :=
  match args with
  | _ :: idStr :: _ =>
    if !isNumber idStr || idStr.head? == some 45 then .refused (lit "smash error: fg: invalid arguments\n")
    else
      match stoi idStr with
      | none => .throws
      | some jobId =>
        match getJobById jobId jobs with
        | none => .refused (lit "smash error: fg: job-id " ++ printd jobId ++ lit " does not exist\n")
        | some j => .job j
  | _ =>
    match getLastJob jobs with
    | none => .refused (lit "smash error: fg: jobs list is empty\n")
    | some j => .job j

/-- Waiting for a process in the foreground. -/
def World.foreground (pid : Int) (cmd : Text) (w : World) : World :=
  let w := { w with shell.fgPid := pid, shell.fgCmd := cmd }
  let w :=
    match w.waitpid os pid with
    | (some e, w) => w.perror "smash error: waitpid failed" e
    | (none, w) => w
  { w with shell.fgPid := -1, shell.fgCmd := [] }

/-- `ForegroundCommand::execute`. -/
def foregroundCommand : Outcome :=
  let args := argsOf cmdLine
  if 2 < args.length then .returned (w.complain (lit "smash error: fg: invalid arguments\n"))
  else
    let w := w.removeFinishedJobs os
    match chooseJob args w.shell.jobs with
    | .refused message => .returned (w.complain message)
    | .throws => .aborted w
    | .job j =>
      let w := w.print (j.cmdLine ++ lit " " ++ printd j.pid ++ lit "\n")
      let w := { w with shell.jobs := removeJobById j.jobId w.shell.jobs }
      .returned (w.foreground os j.pid j.cmdLine)

/-- `QuitCommand::execute`. -/
def quitCommand : Outcome :=
  match argsOf cmdLine with
  | _ :: arg :: _ => if arg = lit "kill" then .exited (w.killAllJobs os) else .exited w
  | _ => .exited w

/-- `KillCommand::execute`. -/
def killCommand : Outcome :=
  let invalid := Outcome.returned (w.complain (lit "smash error: kill: invalid arguments\n"))
  match argsOf cmdLine with
  | [_, sigarg, jobarg] =>
    if sigarg.head? ≠ some 45 then invalid
    else if !isNumber sigarg.tail then invalid
    else if !isNumber jobarg then invalid
    else
      match stoi sigarg.tail, stoi jobarg with
      | some signum, some jobId =>
        match getJobById jobId w.shell.jobs with
        | none => .returned (w.complain (lit "smash error: kill: job-id " ++ printd jobId ++ lit " does not exist\n"))
        | some job =>
          match (w.sys os).kill job.pid signum with
          | some e => .returned (w.tick.perror "smash error: kill failed" e)
          | none => .returned (w.tick.print
              (lit "signal number " ++ printd signum ++ lit " was sent to pid " ++ printd job.pid ++ lit "\n"))
      | _, _ => .aborted w
  | _ => invalid

/-- The characters `[a-zA-Z0-9_]`. -/
def isWordChar (b : UInt8) : Bool := isDigit b || (65 ≤ b && b ≤ 90) || (97 ≤ b && b ≤ 122) || b == 95

/-- The expression `^alias [a-zA-Z0-9_]+='[^']*'$`. -/
def aliasFormat (clean : Text) : Bool :=
  let rest := clean.drop 6
  let value := (rest.dropWhile isWordChar).drop 2
  (lit "alias ").isPrefixOf clean && !(rest.takeWhile isWordChar).isEmpty &&
    (lit "='").isPrefixOf (rest.dropWhile isWordChar) && value.getLast? == some quote &&
    !value.dropLast.contains quote

/-- The name and the value of an alias definition, cut out at the first blank, the first `=` and the
first and last quotes. -/
def aliasParts (clean : Text) : Text × Text :=
  let eqPos := clean.idxOf 61
  let spacePos := clean.idxOf 32
  let firstQuote := eqPos + (clean.drop eqPos).idxOf quote
  let lastQuote := clean.length - 1 - clean.reverse.idxOf quote
  ((clean.drop (spacePos + 1)).take (eqPos - spacePos - 1),
    (clean.drop (firstQuote + 1)).take (lastQuote - firstQuote - 1))

def aliasLine (name value : Text) : Text := name ++ lit "='" ++ value ++ lit "'\n"

/-- The loop that lists the aliases. -/
def aliasListing (s : SmashShell) : Text :=
  (s.aliasOrder.map fun name => ((s.aliases name).map (aliasLine name)).getD []).flatten

/-- `AliasCommand::execute`. -/
def aliasCommand : Outcome :=
  let clean := removeBackground cmdLine
  if (split clean).length = 1 then .returned (w.print (aliasListing w.shell))
  else if !aliasFormat clean then .returned (w.complain (lit "smash error: alias: invalid alias format\n"))
  else
    let (name, value) := aliasParts clean
    if SmashShell.isReservedKeyword name || w.shell.aliasExists name then
      .returned (w.complain (lit "smash error: alias: " ++ name ++ lit " already exists or is a reserved command\n"))
    else .returned { w with shell := w.shell.addAlias name value }

/-- The loop of `UnaliasCommand::execute`. -/
def unaliasLoop (w : World) : List Text → World
  | [] => w
  | name :: names =>
    if w.shell.aliasExists name then unaliasLoop { w with shell := w.shell.removeAlias name } names
    else w.complain (lit "smash error: unalias: " ++ name ++ lit " alias does not exist\n")

/-- `UnaliasCommand::execute`. -/
def unaliasCommand : Outcome :=
  match argsOf cmdLine with
  | _ :: name :: names => .returned (unaliasLoop w (name :: names))
  | _ => .returned (w.complain (lit "smash error: unalias: not enough arguments\n"))

/-- `_envVarExists`. -/
def envVarExists (block : Option Text) (name : Text) : Bool :=
  (getlines 0 ((block.getD []).take 65535)).any fun entry => (name ++ lit "=").isPrefixOf entry

/-- The loop of `UnsetenvCommand::execute`. -/
def unsetenvLoop (w : World) : List Text → World
  | [] => w
  | name :: names =>
    if envVarExists w.proc.environBlock name then
      unsetenvLoop { w with proc.environ := w.proc.environ.eraseP fun entry => (name ++ lit "=").isPrefixOf entry } names
    else w.complain (lit "smash error: unsetenv: " ++ name ++ lit " does not exist\n")

/-- `UnsetenvCommand::execute`. -/
def unsetenvCommand : Outcome :=
  match argsOf cmdLine with
  | _ :: name :: names => .returned (unsetenvLoop w (name :: names))
  | _ => .returned (w.complain (lit "smash error: unsetenv: not enough arguments\n"))

/-- A command that reports on the system. -/
def World.report (r : Report) (w : World) : Outcome :=
  let w := (w.tick.print r.out).complain r.err
  if r.throws then .aborted w else .returned w

end Commands

/-- `execute` of a built-in command. -/
def BuiltIn.execute (os : Os) (cmdLine : Text) (w : World) : BuiltIn → Outcome
  | chprompt => chpromptCommand cmdLine w
  | showpid => showPidCommand w
  | pwd => getCurrDirCommand os w
  | cd => changeDirCommand os cmdLine w
  | jobs => jobsCommand os w
  | fg => foregroundCommand os cmdLine w
  | quit => quitCommand os cmdLine w
  | kill => killCommand os cmdLine w
  | alias' => aliasCommand cmdLine w
  | unalias => unaliasCommand cmdLine w
  | unsetenv => unsetenvCommand cmdLine w
  | sysinfo => w.report (Shell.sysinfo (w.sys os) (w.files os))
  | du => w.report (Shell.du (w.sys os) (w.files os) w.proc.cwd cmdLine)
  | whoami => w.report (Shell.whoami (w.sys os) (w.files os))
  | usbinfo => w.report (Shell.usbinfo (w.files os))

end OsProjects.Shell
