import OsProjects.Shell.State
import Mathlib.Data.List.Sort

/-!
# The list of jobs

The methods of `JobsList`.
-/

namespace OsProjects.Shell

open CText

/-- `waitpid` with `WNOHANG`: whether the job goes from the list. It goes when its process has ended, and
when it is no child of the caller (`ECHILD`). -/
def reap (os : Os) (p : Process) (pid : Int) : Bool × Process :=
  if pid ∈ p.children then
    if (os p.now).ended pid then (true, { p with children := p.children.erase pid, now := p.now + 1 })
    else (false, { p with now := p.now + 1 })
  else (true, { p with now := p.now + 1 })

/-- The loop of `removeFinishedJobs`. -/
def removeFinished (os : Os) (p : Process) : List JobEntry → Process × List JobEntry
  | [] => (p, [])
  | j :: jobs =>
    match reap os p j.pid with
    | (true, p) => removeFinished os p jobs
    | (false, p) => ((removeFinished os p jobs).1, j :: (removeFinished os p jobs).2)

/-- `getMaxJobId`. -/
def getMaxJobId (jobs : List JobEntry) : Int := jobs.foldl (fun maxId j => if j.jobId > maxId then j.jobId else maxId) 0

/-- `removeJobById`. -/
def removeJobById (jobId : Int) (jobs : List JobEntry) : List JobEntry := jobs.eraseP fun j => j.jobId == jobId

/-- `getJobById`. -/
def getJobById (jobId : Int) (jobs : List JobEntry) : Option JobEntry := jobs.find? fun j => j.jobId == jobId

/-- `getLastJob`. -/
def getLastJob (jobs : List JobEntry) : Option JobEntry :=
  jobs.foldl (fun last j =>
    match last with
    | none => some j
    | some l => if j.jobId > l.jobId then some j else last) none

/-- `std::sort` by job id. -/
def sortJobs (jobs : List JobEntry) : List JobEntry := jobs.insertionSort fun a b => a.jobId ≤ b.jobId

/-- The largest `int`. -/
def intMax : Int := 2147483647

namespace World

/-- `removeFinishedJobs`. -/
def removeFinishedJobs (os : Os) (w : World) : World :=
  { w with
    proc := (removeFinished os w.proc w.shell.jobs).1
    shell.jobs := (removeFinished os w.proc w.shell.jobs).2 }

/-- `addJob`. The sum of the largest id and one is an `int`. -/
def addJob (os : Os) (pid : Int) (cmdLine : Text) (w : World) : Outcome :=
  let w := w.removeFinishedJobs os
  if getMaxJobId w.shell.jobs = intMax then .undefined w
  else
    let job : JobEntry := ⟨getMaxJobId w.shell.jobs + 1, pid, cmdLine⟩
    .returned { w with shell.jobs := w.shell.jobs ++ [job], added := w.added ++ [job] }

def jobLine (j : JobEntry) : Text := lit "[" ++ printd j.jobId ++ lit "] " ++ j.cmdLine ++ lit "\n"

/-- `printJobsList`. -/
def printJobsList (os : Os) (w : World) : World :=
  let w := w.removeFinishedJobs os
  w.print ((sortJobs w.shell.jobs).map jobLine).flatten

def killLine (j : JobEntry) : Text := printd j.pid ++ lit ": " ++ j.cmdLine ++ lit "\n"

/-- `killAllJobs`. It does not look at the answers to its `kill` calls. -/
def killAllJobs (os : Os) (w : World) : World :=
  let w := w.removeFinishedJobs os
  w.print (lit "smash: sending SIGKILL signal to " ++ printd w.shell.jobs.length ++ lit " jobs:\n" ++
    ((sortJobs w.shell.jobs).map killLine).flatten)

end World

end OsProjects.Shell
