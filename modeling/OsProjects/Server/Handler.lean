import OsProjects.Server.LogContents
import OsProjects.Server.Request

/-!
# Workers handling requests

`handle_request` as the workers run it, each with its own `threads_stats` and `time_stats`
and all of them with one log. What a worker does on its own is a few steps per request;
inside `log_write` and `log_read` the steps are those of the log. The clock moves between
any two steps and never backwards.
-/

namespace OsProjects.Server

open CText

/-- Earlier or at the same time. -/
def Timeval.le (a b : Timeval) : Prop := a.sec < b.sec ∨ a.sec = b.sec ∧ a.usec ≤ b.usec

/-- Which of its two calls of `gettimeofday` a `log_write` or `log_read` has made. -/
inductive Stamp where
  | none
  | enter
  | exit

/-- Where a worker is in `handle_request`. -/
inductive Handler where
  | outside
  | received
  | routed (action : Action)
  /-- `stat_req` or `dynm_req` was counted and the entry is not yet handed to `log_write`. -/
  | counted (action : Action)
  | writing (action : Action) (stamp : Stamp)
  | logged (action : Action)
  | posting
  | reading (stamp : Stamp)
  | answering (len : Int) (out : Bytes)

inductive Response where
  | ok (bytes : Bytes)
  | error (errnum : String) (bytes : Bytes)

def Response.isError : Response → Bool
  | .ok _ => false
  | .error _ _ => true

/-- A worker with its counters, its times, the number of its requests and what it has sent. -/
structure WorkerState where
  handler : Handler
  stats : ThreadsStats
  times : TimeStats
  requests : Nat
  sent : List Response

/-- The workers, the log and the clock. `entered` are the times that `log_write` took on
entry, in the order of the calls. -/
structure Site (n : Nat) where
  now : Timeval
  log : Log.State (Fin n)
  workers : Fin n → WorkerState
  entered : List Timeval

namespace Site

variable {n : Nat}

def set (s : Site n) (i : Fin n) (w : WorkerState) : Site n := { s with workers := Function.update s.workers i w }

/-- A worker that goes on without touching anything else. -/
def goTo (s : Site n) (i : Fin n) (h : Handler) : Site n := s.set i { s.workers i with handler := h }

/-- A response ends the request. -/
def respond (s : Site n) (i : Fin n) (r : Response) : Site n :=
  s.set i { s.workers i with handler := .outside, sent := (s.workers i).sent ++ [r] }

end Site

/-- `x++` on an `int`. -/
def increment (x : Int) : Int := Log.int32 (x + 1)

/-- The text of an entry holds no terminator. -/
theorem zero_notMem_appendStats (ts : ThreadsStats) (tm : TimeStats) : 0 ∉ appendStats [] ts tm := by
  have time : ∀ {lab rest t}, 0 ∉ lit lab → 0 ∉ rest → 0 ∉ timeLine lab t ++ rest := by
    intro lab rest t plain clean mem
    rw [timeLine_append] at mem
    rcases List.mem_append.mp mem with mem | mem
    · exact notMem_line (by decide) plain (fun _ => timeValue_no_control) mem
    · exact clean ((List.mem_cons.mp mem).resolve_left (by decide))
  have count : ∀ {lab rest x}, 0 ∉ lit lab → 0 ∉ rest → 0 ∉ countLine lab x ++ rest := by
    intro lab rest x plain clean mem
    rw [countLine_append] at mem
    rcases List.mem_append.mp mem with mem | mem
    · exact notMem_line (by decide) plain (fun _ => countValue_no_control) mem
    · exact clean ((List.mem_cons.mp mem).resolve_left (by decide))
  unfold appendStats
  rw [List.nil_append]
  exact time (by decide) (time (by decide) (time (by decide) (time (by decide) (count (by decide) (count (by decide)
    (count (by decide) (count (by decide) (count (by decide) (by decide)))))))))

/-- The entry that `handle_request` formats. -/
def statsEntry (ts : ThreadsStats) (tm : TimeStats) : Log.CString := ⟨appendStats [] ts tm, zero_notMem_appendStats ts tm⟩

/-! ## Steps -/

/-- `log_write` and `log_read` go on inside the lock only after `gettimeofday(log_enter)`, and
unlock only after `gettimeofday(log_exit)`. -/
def Handler.permits : Handler → Log.Thread → Prop
  | .writing _ stamp, .writing _ .done => stamp = .exit
  | .writing _ stamp, .writing _ _ => stamp = .enter
  | .reading stamp, .reading (.done _ _) => stamp = .exit
  | .reading stamp, .reading _ => stamp = .enter
  | _, _ => True

/-- The handler after its thread's step inside the log: `log_write` and `log_read` return with the unlock. -/
def Handler.next (h : Handler) (before after : Log.Thread) : Handler :=
  match h, before, after with
  | .writing action _, .writing _ _, .idle => .logged action
  | .reading _, .reading (.done len out), .idle => .answering len out
  | h, _, _ => h

/-- One step of the clock, of a worker, or inside the log. -/
inductive Site.Step {n : Nat} : Site n → Site n → Prop where
  | tick {s : Site n} (now : Timeval) (later : s.now.le now) : Step s { s with now := now }
  /-- `worker` has popped a connection and calls `handle_request`. -/
  | dispatch {s : Site n} {i : Fin n} (arrival : Timeval) (pc : (s.workers i).handler = .outside) :
      Step s (s.set i { s.workers i with
        handler := .received, times := ⟨arrival, s.now, s.now, s.now⟩, requests := (s.workers i).requests + 1 })
  /-- There is no request line. -/
  | hangUp {s : Site n} {i : Fin n} (pc : (s.workers i).handler = .received) : Step s (s.goTo i .outside)
  /-- The request line is in `buf`; the arrays hold anything before. -/
  | receive {s : Site n} {i : Fin n} (buf method uri version : Bytes) (stat : Bytes → Option FileStat)
      (pc : (s.workers i).handler = .received) :
      Step s (s.set i { s.workers i with
        handler := .routed (route (scanRequest buf method uri version).1 (scanRequest buf method uri version).2.1 stat)
        stats := { (s.workers i).stats with totalReq := increment (s.workers i).stats.totalReq } })
  | sendError {s : Site n} {i : Fin n} {cause : Bytes} {errnum shortmsg longmsg : String}
      (pc : (s.workers i).handler = .routed (.error cause errnum shortmsg longmsg)) :
      Step s (s.respond i
        (.error errnum (sendError cause errnum shortmsg longmsg (s.workers i).stats (s.workers i).times)))
  | countPost {s : Site n} {i : Fin n} (pc : (s.workers i).handler = .routed .post) :
      Step s (s.set i { s.workers i with
        handler := .posting
        stats := { (s.workers i).stats with postReq := increment (s.workers i).stats.postReq } })
  | countDynamic {s : Site n} {i : Fin n} {filename cgiargs : Bytes}
      (pc : (s.workers i).handler = .routed (.dynamic filename cgiargs)) :
      Step s (s.set i { s.workers i with
        handler := .counted (.dynamic filename cgiargs)
        stats := { (s.workers i).stats with dynmReq := increment (s.workers i).stats.dynmReq } })
  | countStatic {s : Site n} {i : Fin n} {filename : Bytes} {size : Int}
      (pc : (s.workers i).handler = .routed (.static filename size)) :
      Step s (s.set i { s.workers i with
        handler := .counted (.static filename size)
        stats := { (s.workers i).stats with statReq := increment (s.workers i).stats.statReq } })
  /-- `append_stats` into the entry and the call of `log_write`. -/
  | callWrite {s : Site n} {i : Fin n} {action : Action} (pc : (s.workers i).handler = .counted action) :
      Step s { s.goTo i (.writing action .none) with
        log := s.log.set i (.wantWrite (statsEntry (s.workers i).stats (s.workers i).times)) }
  | callRead {s : Site n} {i : Fin n} (pc : (s.workers i).handler = .posting) :
      Step s { s.goTo i (.reading .none) with log := s.log.set i .wantRead }
  /-- A step inside `log_write` or `log_read`. -/
  | log {s : Site n} {l' : Log.State (Fin n)} (step : Log.Step s.log l')
      (inside : ∀ i, s.log.threads i = .idle → l'.threads i = .idle)
      (permitted : ∀ i, l'.threads i ≠ s.log.threads i → (s.workers i).handler.permits (s.log.threads i)) :
      Step s { s with
        log := l'
        workers := fun i => { s.workers i with handler := (s.workers i).handler.next (s.log.threads i) (l'.threads i) } }
  /-- `gettimeofday(log_enter)` in `log_write`. -/
  | enterWrite {s : Site n} {i : Fin n} {action : Action} {entry : Log.CString} {point : Log.WritePoint}
      (pc : (s.workers i).handler = .writing action .none) (lock : s.log.threads i = .writing entry point) :
      Step s { s.set i { s.workers i with
          handler := .writing action .enter, times := { (s.workers i).times with logEnter := s.now } } with
        entered := s.entered ++ [s.now] }
  /-- `gettimeofday(log_exit)` in `log_write`. -/
  | exitWrite {s : Site n} {i : Fin n} {action : Action} {entry : Log.CString}
      (pc : (s.workers i).handler = .writing action .enter) (done : s.log.threads i = .writing entry .done) :
      Step s (s.set i { s.workers i with
        handler := .writing action .exit, times := { (s.workers i).times with logExit := s.now } })
  /-- `gettimeofday(log_enter)` in `log_read`. -/
  | enterRead {s : Site n} {i : Fin n} {point : Log.ReadPoint}
      (pc : (s.workers i).handler = .reading .none) (lock : s.log.threads i = .reading point) :
      Step s (s.set i { s.workers i with
        handler := .reading .enter, times := { (s.workers i).times with logEnter := s.now } })
  /-- `gettimeofday(log_exit)` in `log_read`. -/
  | exitRead {s : Site n} {i : Fin n} {len : Int} {out : List UInt8}
      (pc : (s.workers i).handler = .reading .enter) (done : s.log.threads i = .reading (.done len out)) :
      Step s (s.set i { s.workers i with
        handler := .reading .exit, times := { (s.workers i).times with logExit := s.now } })
  | serveStatic {s : Site n} {i : Fin n} {filename : Bytes} {size : Int} (content : Bytes)
      (pc : (s.workers i).handler = .logged (.static filename size)) :
      Step s (s.respond i (.ok (serveStatic filename size content (s.workers i).stats (s.workers i).times)))
  | serveDynamic {s : Site n} {i : Fin n} {filename cgiargs : Bytes} (output : Bytes)
      (pc : (s.workers i).handler = .logged (.dynamic filename cgiargs)) :
      Step s (s.respond i (.ok (serveDynamic output (s.workers i).stats (s.workers i).times)))
  | servePost {s : Site n} {i : Fin n} {len : Int} {out : Bytes} (pc : (s.workers i).handler = .answering len out) :
      Step s (s.respond i (.ok (servePost len out (s.workers i).stats (s.workers i).times)))

/-- A worker before its first request. `main` numbers the workers from one. -/
def WorkerState.start {n : Nat} (i : Fin n) (times : TimeStats) : WorkerState :=
  ⟨.outside, ⟨i + 1, 0, 0, 0, 0⟩, times, 0, []⟩

def Site.start {n : Nat} (now : Timeval) (data : Nat) (heap : Log.Heap) (times : Fin n → TimeStats) : Site n :=
  ⟨now, Log.State.start data heap, fun i => .start i (times i), []⟩

inductive Site.Reachable {n : Nat} : Site n → Prop where
  | start (now : Timeval) (data : Nat) (heap : Log.Heap) (times : Fin n → TimeStats) :
      Reachable (Site.start now data heap times)
  | step {s s' : Site n} (reach : Reachable s) (step : Step s s') : Reachable s'

end OsProjects.Server
