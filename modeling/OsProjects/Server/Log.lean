import Mathlib.Data.Int.DivMod
import Mathlib.Tactic.Ring
import OsProjects.Lib.Threads

/-!
# The server's log

`log.c`: a buffer of concatenated entries behind a writer-priority reader-writer lock made
of a mutex and two conditions. Threads call `log_write` and `log_read`. A section under
the mutex is one step, up to the wait in its loop: a waiting thread is blocked until it is
woken, by a signal or for no reason, and then has to test its condition again. Between
the lock and the unlock the steps are single: a turn of the growth loop, a byte copied,
an update of `len`. `gettimeofday` and the debugging `sleep` leave the log alone.
-/

namespace OsProjects.Server.Log

open Threads

/-- A string without its terminator. -/
structure CString where
  bytes : List UInt8
  noNul : 0 ∉ bytes

/-- A number as the `int` it is stored in. -/
def int32 (x : Int) : Int := Int.bmod x (2 ^ 32)

theorem int32_of_lt {x : Int} (low : 0 ≤ x) (high : x < 2 ^ 31) : int32 x = x := by
  unfold int32
  rw [Int.bmod_eq_of_le_mul_two] <;> omega

/-- `server_log_t` without its mutex and conditions. `data` is the address of a buffer. -/
structure ServerLog where
  data : Nat
  len : Int
  capacity : Int
  readersActive : Int
  writersActive : Int
  writersWaiting : Int

/-- What buffers hold, by address and offset. -/
abbrev Heap := Nat → Int → UInt8

/-- `LOG_INIT_CAP`. -/
def logInitCap : Int := 4096

/-- `log_init`, with the buffer `Malloc` gave. -/
def logInit (data : Nat) : ServerLog := ⟨data, 0, logInitCap, 0, 0, 0⟩

/-- Storing a byte. -/
def store (heap : Heap) (p : Nat) (pos : Int) (b : UInt8) : Heap :=
  Function.update heap p (Function.update (heap p) pos b)

/-- `Realloc` of a buffer of `old` bytes to one of `new` bytes at `q`: the bytes both have are
kept, everything else may hold anything. -/
def reallocHeap (heap : Heap) (p : Nat) (old new : Int) (q : Nat) (junk : Heap) : Heap :=
  fun a pos => if a = q ∧ 0 ≤ pos ∧ pos < old ∧ pos < new then heap p pos else junk a pos

/-! ## Threads -/

/-- Where a thread is between `rw_write_lock` and `rw_write_unlock`. -/
inductive WritePoint where
  | test
  | double
  | realloc (old : Int)
  | copy (dst : Nat) (pos : Int) (done : Nat)
  | advance
  | terminate
  | done

/-- Where a thread is between `rw_read_lock` and `rw_read_unlock`. -/
inductive ReadPoint where
  | len
  | start (len : Int)
  | copy (src : Nat) (len : Int) (out : List UInt8)
  | done (len : Int) (out : List UInt8)

inductive Thread where
  | idle
  | wantWrite (entry : CString)
  | waitWrite (entry : CString)
  | wokenWrite (entry : CString)
  | writing (entry : CString) (point : WritePoint)
  | wantRead
  | waitRead
  | wokenRead
  | reading (point : ReadPoint)

/-- What a thread is to the lock. -/
inductive Role where
  | outside
  | blockedWriter
  | wokenWriter
  | writer
  | blockedReader
  | wokenReader
  | reader
  deriving DecidableEq

def Thread.role : Thread → Role
  | .idle | .wantWrite _ | .wantRead => .outside
  | .waitWrite _ => .blockedWriter
  | .wokenWrite _ => .wokenWriter
  | .writing _ _ => .writer
  | .waitRead => .blockedReader
  | .wokenRead => .wokenReader
  | .reading _ => .reader

/-- Waking on `can_write`. -/
def Thread.wakeWrite : Thread → Option Thread
  | .waitWrite entry => some (.wokenWrite entry)
  | _ => none

/-- Waking on `can_read`. -/
def Thread.wakeRead : Thread → Option Thread
  | .waitRead => some .wokenRead
  | _ => none

/-! ## The bodies -/

/-- `log_write` between its lock and unlock. `elen` is `(int)strlen(entry)`. -/
inductive WriteStep (entry : CString) : ServerLog × Heap → WritePoint → ServerLog × Heap → WritePoint → Prop where
  | grow {log : ServerLog} {heap : Heap}
      (small : log.capacity < int32 (int32 (log.len + int32 entry.bytes.length) + 1)) :
      WriteStep entry (log, heap) .test (log, heap) .double
  | fits {log : ServerLog} {heap : Heap}
      (enough : ¬log.capacity < int32 (int32 (log.len + int32 entry.bytes.length) + 1)) :
      WriteStep entry (log, heap) .test (log, heap) (.copy log.data log.len 0)
  | double {log : ServerLog} {heap : Heap} :
      WriteStep entry (log, heap) .double ({ log with capacity := int32 (log.capacity * 2) }, heap)
        (.realloc log.capacity)
  | realloc {log : ServerLog} {heap : Heap} {old : Int} (data : Nat) (junk : Heap) :
      WriteStep entry (log, heap) (.realloc old)
        ({ log with data := data }, reallocHeap heap log.data old log.capacity data junk) .test
  | copyByte {log : ServerLog} {heap : Heap} {dst : Nat} {pos : Int} {done : Nat} {b : UInt8}
      (next : entry.bytes[done]? = some b) :
      WriteStep entry (log, heap) (.copy dst pos done) (log, store heap dst (pos + done) b) (.copy dst pos (done + 1))
  | copied {log : ServerLog} {heap : Heap} {dst : Nat} {pos : Int} :
      WriteStep entry (log, heap) (.copy dst pos entry.bytes.length) (log, heap) .advance
  | advance {log : ServerLog} {heap : Heap} :
      WriteStep entry (log, heap) .advance ({ log with len := int32 (log.len + int32 entry.bytes.length) }, heap)
        .terminate
  | terminate {log : ServerLog} {heap : Heap} :
      WriteStep entry (log, heap) .terminate (log, store heap log.data log.len 0) .done

/-- `log_read` between its lock and unlock. -/
inductive ReadStep (log : ServerLog) (heap : Heap) : ReadPoint → ReadPoint → Prop where
  | len : ReadStep log heap .len (.start log.len)
  | start (len : Int) : ReadStep log heap (.start len) (.copy log.data len [])
  | copyByte {src : Nat} {len : Int} {out : List UInt8} (more : out.length < len + 1) :
      ReadStep log heap (.copy src len out) (.copy src len (out ++ [heap src out.length]))
  | copied {src : Nat} {len : Int} {out : List UInt8} (all : ¬(out.length < len + 1)) :
      ReadStep log heap (.copy src len out) (.done len out)

/-! ## The system -/

/-- The log, the buffers and the threads. `acquired` are the entries in the order in which
their writers got the lock, `complete` those whose writers have unlocked, `returned` what
`log_read` has returned, in the order of the returns. -/
structure State (ι : Type*) where
  log : ServerLog
  heap : Heap
  threads : ι → Thread
  acquired : List CString
  complete : List CString
  returned : List (Int × List UInt8)

variable {ι : Type*} [DecidableEq ι]

def State.set (s : State ι) (i : ι) (t : Thread) : State ι := { s with threads := Function.update s.threads i t }

theorem State.set_self (s : State ι) (i : ι) (t : Thread) : (s.set i t).threads i = t := Function.update_self _ _ _

theorem State.set_ne (s : State ι) {i j : ι} (t : Thread) (ne : j ≠ i) : (s.set i t).threads j = s.threads j :=
  Function.update_of_ne ne _ _

/-- The loop of `rw_write_lock` and what follows it, with the mutex held. -/
def State.tryWrite (s : State ι) (i : ι) (entry : CString) : State ι :=
  if 0 < s.log.readersActive ∨ 0 < s.log.writersActive then s.set i (.waitWrite entry)
  else
    { s.set i (.writing entry .test) with
      log := { s.log with writersWaiting := s.log.writersWaiting - 1, writersActive := 1 }
      acquired := s.acquired ++ [entry] }

/-- The loop of `rw_read_lock` and what follows it, with the mutex held. -/
def State.tryRead (s : State ι) (i : ι) : State ι :=
  if 0 < s.log.writersActive ∨ 0 < s.log.writersWaiting then s.set i .waitRead
  else { s.set i (.reading .len) with log := { s.log with readersActive := s.log.readersActive + 1 } }

/-- The conditions `rw_write_unlock` wakes threads on, after `writers_active = 0`. -/
inductive WriteUnlockWakes (log : ServerLog) (th : ι → Thread) : (ι → Thread) → Prop where
  | writer {th' : ι → Thread} (waiting : 0 < log.writersWaiting) (signal : Signal Thread.wakeWrite th th') :
      WriteUnlockWakes log th th'
  | readers (none : ¬0 < log.writersWaiting) : WriteUnlockWakes log th (broadcast Thread.wakeRead th)

/-- The condition `rw_read_unlock` wakes threads on, after `readers_active--`. -/
inductive ReadUnlockWakes (log : ServerLog) (th : ι → Thread) : (ι → Thread) → Prop where
  | writer {th' : ι → Thread} (last : log.readersActive = 0) (signal : Signal Thread.wakeWrite th th') :
      ReadUnlockWakes log th th'
  | nobody (more : log.readersActive ≠ 0) : ReadUnlockWakes log th th

/-- One step of one thread. -/
inductive Step : State ι → State ι → Prop where
  | callWrite {s : State ι} (i : ι) (entry : CString) (pc : s.threads i = .idle) : Step s (s.set i (.wantWrite entry))
  | callRead {s : State ι} (i : ι) (pc : s.threads i = .idle) : Step s (s.set i .wantRead)
  /-- `rw_write_lock`, the first time under the mutex. -/
  | lockWrite {s : State ι} {i : ι} {entry : CString} (pc : s.threads i = .wantWrite entry) :
      Step s (State.tryWrite { s with log := { s.log with writersWaiting := s.log.writersWaiting + 1 } } i entry)
  /-- `rw_write_lock`, back from the wait. -/
  | retryWrite {s : State ι} {i : ι} {entry : CString} (pc : s.threads i = .wokenWrite entry) :
      Step s (s.tryWrite i entry)
  | lockRead {s : State ι} {i : ι} (pc : s.threads i = .wantRead) : Step s (s.tryRead i)
  | retryRead {s : State ι} {i : ι} (pc : s.threads i = .wokenRead) : Step s (s.tryRead i)
  /-- A wake-up without a signal. -/
  | spurious {s : State ι} {i : ι} {t : Thread}
      (blocked : (s.threads i).wakeWrite = some t ∨ (s.threads i).wakeRead = some t) : Step s (s.set i t)
  | write {s : State ι} {i : ι} {entry : CString} {point point' : WritePoint} {log' : ServerLog} {heap' : Heap}
      (pc : s.threads i = .writing entry point)
      (body : WriteStep entry (s.log, s.heap) point (log', heap') point') :
      Step s { s.set i (.writing entry point') with log := log', heap := heap' }
  | read {s : State ι} {i : ι} {point point' : ReadPoint} (pc : s.threads i = .reading point)
      (body : ReadStep s.log s.heap point point') : Step s (s.set i (.reading point'))
  /-- `rw_write_unlock`. -/
  | unlockWrite {s : State ι} {i : ι} {entry : CString} {th' : ι → Thread} (pc : s.threads i = .writing entry .done)
      (wakes : WriteUnlockWakes s.log (Function.update s.threads i .idle) th') :
      Step s { s with
        log := { s.log with writersActive := 0 }
        threads := th'
        complete := s.complete ++ [entry] }
  /-- `rw_read_unlock`. -/
  | unlockRead {s : State ι} {i : ι} {len : Int} {out : List UInt8} {th' : ι → Thread}
      (pc : s.threads i = .reading (.done len out))
      (wakes : ReadUnlockWakes { s.log with readersActive := s.log.readersActive - 1 }
        (Function.update s.threads i .idle) th') :
      Step s { s with
        log := { s.log with readersActive := s.log.readersActive - 1 }
        threads := th'
        returned := s.returned ++ [(len, out)] }

/-- The log after `log_init`, with all threads outside. -/
def State.start (data : Nat) (heap : Heap) : State ι :=
  ⟨logInit data, store heap data 0 0, fun _ => .idle, [], [], []⟩

inductive Reachable : State ι → Prop where
  | start (data : Nat) (heap : Heap) : Reachable (State.start data heap)
  | step {s s' : State ι} (reach : Reachable s) (step : Step s s') : Reachable s'

end OsProjects.Server.Log
