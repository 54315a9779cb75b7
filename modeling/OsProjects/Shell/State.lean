import OsProjects.Shell.Text

/-!
# The shell process

`SmashShell` is the class of the same name. Around it stands what the operating system
keeps for the process, and the answers it gives: `Os` has one set of answers for every
call, so that children may end and calls may fail in any pattern. `fork` copies the shell;
a copy has a process id of its own and no children.
-/

namespace OsProjects.Shell

open CText

/-! ## The operating system -/

/-- A system call's error, as the message that `perror` prints for it. -/
abbrev Errno := Text

/-- What a child becomes when it leaves the shell's code. -/
inductive Program where
  | bash (line : Text)
  | exec (argv : List Text)

/-- The fields of `struct stat` that are read. -/
structure Stat where
  isLink : Bool
  isDir : Bool
  blocks : Nat

/-- The file system as it can be read. `read path n` is one `read` of at most `n` bytes after
an `open` that succeeds. -/
structure Files where
  lstat : Text → Option Stat
  getdents : Text → Option (List Text)
  read : Text → Nat → Except Errno Text

structure Utsname where
  sysname : Text
  nodename : Text
  release : Text
  machine : Text

/-- The answers to the calls made at one instant. `fork` is given the children that have not
been reaped, `chdir` the working directory. -/
structure Sys where
  fork : List Int → Except Errno Int
  /-- The child has ended: `waitpid` with `WNOHANG` reaps it. -/
  ended : Int → Bool
  /-- Why a blocking `waitpid` of a child fails, if it does. -/
  interrupted : Int → Option Errno
  getcwd : Option Errno
  chdir : Text → Text → Except Errno Text
  kill : Int → Int → Option Errno
  pipe : Option Errno
  dup2 : Option Errno
  uname : Except Errno Utsname
  uid : Nat
  gid : Nat
  files : Files
  /-- The file system after `open` for writing, at the end or truncated. -/
  openOut : Text → Bool → Except Errno Files
  /-- `strftime` of `localtime`. -/
  localtime : Int → Text
  /-- What a program writes to its standard output, or why it cannot be executed. -/
  stdout : Program → Except Errno Text

/-- The answers to each call. -/
abbrev Os := Nat → Sys

/-! ## The shell -/

structure JobEntry where
  jobId : Int
  pid : Int
  cmdLine : Text
deriving DecidableEq

structure SmashShell where
  prompt : Text
  lastPwd : Text
  jobs : List JobEntry
  fgPid : Int
  fgCmd : Text
  aliases : Text → Option Text
  aliasOrder : List Text

/-- A fresh shell. -/
def SmashShell.start : SmashShell where
  prompt := lit "smash"
  lastPwd := []
  jobs := []
  fgPid := -1
  fgCmd := []
  aliases _ := none
  aliasOrder := []

/-- What the system keeps for a process. `children` are those not yet reaped, `environBlock` is
what `/proc/self/environ` reads, `stdout` the file that standard output goes to and whether it
appends, and `now` counts the calls. -/
structure Process where
  pid : Int
  cwd : Text
  children : List Int
  environBlock : Option Text
  environ : List Text
  stdout : Option (Text × Bool)
  now : Nat

/-- What a child does first. -/
inductive Task where
  | program (p : Program)
  | redirected (filename : Text) (append : Bool) (left : Text)
  | piped (stderrPipe : Bool) (cmd1 : Text)
  | reading (cmd2 : Text)

/-- A child when it leaves `fork`, with its copy of the shell. -/
structure Spawn where
  shell : SmashShell
  proc : Process
  task : Task

/-- The process with what it has written and whom it has started. `added` are the jobs put on the
list so far, which the source does not record. -/
structure World where
  shell : SmashShell
  proc : Process
  out : Text
  err : Text
  spawned : List Spawn
  added : List JobEntry

/-- How a command ends. `undefined` is a signed overflow. -/
inductive Outcome where
  | returned (w : World)
  | exited (w : World)
  | aborted (w : World)
  | undefined (w : World)

def Outcome.world : Outcome → World
  | .returned w | .exited w | .aborted w | .undefined w => w

/-! ## Calls -/

namespace World

variable (os : Os)

def sys (w : World) : Sys := os w.proc.now

def tick (w : World) : World := { w with proc.now := w.proc.now + 1 }

def print (text : Text) (w : World) : World := { w with out := w.out ++ text }

def complain (text : Text) (w : World) : World := { w with err := w.err ++ text }

def perror (message : String) (e : Errno) (w : World) : World :=
  w.complain (lit message ++ lit ": " ++ e ++ lit "\n")

/-- The file system as the process sees it, after opening its output. -/
def files (w : World) : Files :=
  match w.proc.stdout with
  | none => (w.sys os).files
  | some (f, append) =>
    match (w.sys os).openOut f append with
    | .ok files => files
    | .error _ => (w.sys os).files

/-- `fork`: the child's pid, in the parent. -/
def fork (task : Task) (w : World) : Except Errno (Int × World) :=
  match (w.sys os).fork w.proc.children with
  | .error e => .error e
  | .ok pid =>
    let w := w.tick
    .ok (pid, { w with
      proc.children := w.proc.children ++ [pid]
      spawned := w.spawned ++ [⟨w.shell, { w.proc with pid := pid, children := [] }, task⟩] })

/-- `waitpid(pid, nullptr, 0)`, and the error if it is one other than `ECHILD`. -/
def waitpid (pid : Int) (w : World) : Option Errno × World :=
  if pid ∈ w.proc.children then
    match (w.sys os).interrupted pid with
    | some e => (some e, w.tick)
    | none => (none, { w.tick with proc.children := w.proc.children.erase pid })
  else (none, w.tick)

end World

/-! ## A sample system -/

/-- No file can be read. -/
def noFiles : Files where
  lstat _ := none
  getdents _ := none
  read _ _ := .error (lit "No such file or directory")

/-- A system in which calls succeed, children run on and programs are not found. A new child gets the
number after the largest one. -/
def calmSys : Sys where
  fork children := .ok (children.foldr max 1000 + 1)
  ended _ := false
  interrupted _ := none
  getcwd := none
  chdir _ path := .ok path
  kill _ _ := none
  pipe := none
  dup2 := none
  uname := .ok ⟨lit "Linux", lit "host", lit "5.4", lit "x86_64"⟩
  uid := 1000
  gid := 1000
  files := noFiles
  openOut _ _ := .ok noFiles
  localtime _ := lit "2024-01-01 00:00:00"
  stdout _ := .error (lit "No such file or directory")

/-- A shell that has just been started in `cwd`. -/
def World.startIn (cwd : Text) : World where
  shell := SmashShell.start
  proc := ⟨1000, cwd, [], none, [], none, 0⟩
  out := []
  err := []
  spawned := []
  added := []

end OsProjects.Shell
