import Mathlib.Logic.Relation
import OsProjects.Lib.Descriptors
import OsProjects.Shell.Text

/-!
# The processes of a pipe

`PipeCommand::execute` from the moment it has the pipe: the shell and its two children close
and copy descriptors one call at a time, in any order among the three, while the
commands already write to the pipe and read from it. A read only ends when nobody has the
write end any more, and a write only fails when nobody has the read end. `Tables` says
what each of them has at any moment.
-/

namespace OsProjects.Shell

open Descriptors

/-- What a descriptor stands for. -/
inductive File where
  | readEnd
  | writeEnd
  | other (n : Nat)

/-- A pipe that the shell has just made, with its descriptors from before. The left command writes
`output`, the right one reads as many bytes as it wants or up to the end. -/
structure Pipeline where
  stderrPipe : Bool
  r : Nat
  w : Nat
  shellFds : Table File
  capacity : Nat
  output : Text
  appetite : Option Nat
  free : shellFds r = none ∧ shellFds w = none ∧ r ≠ w
  standard : ∀ fd ≤ 2, shellFds fd ≠ none
  noEnds : ∀ fd, shellFds fd ≠ some .readEnd ∧ shellFds fd ≠ some .writeEnd
  room : 0 < capacity

inductive ProcessId where
  | smash
  | left
  | right
  deriving DecidableEq

namespace Pipeline

/-- Where the shell is. -/
inductive Point where
  | forkLeft
  | forkRight
  | closing (waits : Bool)
  | waitLeft
  | waitRight
  | prompt

inductive Life where
  | unborn
  | alive
  | gone

/-- `rest` is what the left command has not written yet, `disturbed` says that a call has failed or
that Ctrl-C has been pressed. -/
structure State where
  point : Point
  life : ProcessId → Life
  fds : ProcessId → Table File
  todo : ProcessId → List Call
  buffer : Text
  rest : Text
  received : Text
  disturbed : Bool

section Calls

variable (p : Pipeline)

/-- `target_fd`. -/
def target : Nat := if p.stderrPipe then 2 else 1

/-- The table after `pipe`. -/
def opened : Table File := Function.update (Function.update p.shellFds p.r (some .readEnd)) p.w (some .writeEnd)

/-- What each process does to its descriptors. -/
def calls : ProcessId → List Call
  | .smash => [.close p.r, .close p.w]
  | .left => moveEnd p.r p.w p.target
  | .right => moveEnd p.w p.r 0

/-- The right command still reads. -/
def Hungry (received : Text) : Prop := ∀ k ∈ p.appetite, received.length < k

/-- After `pipe`. -/
def start : State where
  point := .forkLeft
  life _ := .unborn
  fds q := if q = .smash then p.opened else .empty
  todo _ := []
  buffer := []
  rest := p.output
  received := []
  disturbed := false

end Calls

namespace State

/-- Some process has the end. -/
def Holds (s : State) (file : File) : Prop := ∃ q, (s.fds q).Holds file

/-- `fork`. -/
def fork (s : State) (q : ProcessId) (calls : List Call) : State :=
  { s with
    life := Function.update s.life q .alive
    fds := Function.update s.fds q (s.fds .smash)
    todo := Function.update s.todo q calls }

/-- A child ends. -/
def exit (s : State) (q : ProcessId) : State :=
  { s with
    life := Function.update s.life q .gone
    fds := Function.update s.fds q .empty
    todo := Function.update s.todo q [] }

/-- The shell starts closing the ends. -/
def close (s : State) (p : Pipeline) (waits : Bool) : State :=
  { s with point := .closing waits, todo := Function.update s.todo .smash (p.calls .smash) }

/-- A process has set up its descriptors and goes on to its command. -/
def Runs (s : State) (q : ProcessId) : Prop := s.life q = .alive ∧ s.todo q = []

end State

/-- One call of one process. Waits are taken up again after a signal. -/
inductive Step (p : Pipeline) (s : State) : State → Prop where
  | forkLeft (here : s.point = .forkLeft) : Step p s { s.fork .left (p.calls .left) with point := .forkRight }
  | forkRight (here : s.point = .forkRight) : Step p s ((s.fork .right (p.calls .right)).close p true)
  | forkFails (here : s.point = .forkLeft ∨ s.point = .forkRight) : Step p s { s.close p false with disturbed := true }
  | call {q : ProcessId} {c : Call} {cs : List Call} (next : s.todo q = c :: cs) :
      Step p s { s with fds := Function.update s.fds q (c.apply (s.fds q)), todo := Function.update s.todo q cs }
  | dup2Fails {q : ProcessId} {old new : Nat} {cs : List Call} (child : q ≠ .smash) (next : s.todo q = .dup2 old new :: cs) :
      Step p s { s.exit q with disturbed := true }
  | closed {waits : Bool} (here : s.point = .closing waits) (last : s.todo .smash = []) :
      Step p s { s with point := if waits then .waitLeft else .prompt }
  | reapLeft (here : s.point = .waitLeft) (gone : s.life .left = .gone) : Step p s { s with point := .waitRight }
  | reapRight (here : s.point = .waitRight) (gone : s.life .right = .gone) : Step p s { s with point := .prompt }
  | ctrlC (here : s.point = .waitLeft) (alive : s.life .left = .alive) : Step p s { s.exit .left with disturbed := true }
  | write {b : UInt8} {bs : Text} (runs : s.Runs .left) (stream : s.fds .left p.target = some .writeEnd)
      (next : s.rest = b :: bs) (room : s.buffer.length < p.capacity) (reader : s.Holds .readEnd) :
      Step p s { s with buffer := s.buffer ++ [b], rest := bs }
  | sigpipe (runs : s.Runs .left) (stream : s.fds .left p.target = some .writeEnd) (more : s.rest ≠ [])
      (nobody : ¬s.Holds .readEnd) : Step p s (s.exit .left)
  | leftEnds (runs : s.Runs .left) (last : s.rest = []) : Step p s (s.exit .left)
  | read {b : UInt8} {bs : Text} (runs : s.Runs .right) (stream : s.fds .right 0 = some .readEnd)
      (hungry : p.Hungry s.received) (next : s.buffer = b :: bs) :
      Step p s { s with buffer := bs, received := s.received ++ [b] }
  | endOfFile (runs : s.Runs .right) (stream : s.fds .right 0 = some .readEnd) (hungry : p.Hungry s.received)
      (empty : s.buffer = []) (nobody : ¬s.Holds .writeEnd) : Step p s (s.exit .right)
  | rightEnds (runs : s.Runs .right) (full : ¬p.Hungry s.received) : Step p s (s.exit .right)

/-- A state that the three processes get to. -/
abbrev Reachable (p : Pipeline) (s : State) : Prop := Relation.ReflTransGen (Step p) p.start s

variable {p : Pipeline} {s s' : State} {t : Table File} {todo : List Call}

/-! ## Descriptors -/

theorem standard_ne (p : Pipeline) {fd : Nat} (standard : fd ≤ 2) : fd ≠ p.r ∧ fd ≠ p.w := by
  have inUse := p.standard fd standard
  constructor
  · rintro rfl
    exact inUse p.free.1
  · rintro rfl
    exact inUse p.free.2.1

theorem target_ne (p : Pipeline) : p.target ≠ p.w := by
  apply (p.standard_ne _).2
  unfold target
  split_ifs <;> decide

theorem zero_ne (p : Pipeline) : 0 ≠ p.r := (p.standard_ne (Nat.zero_le 2)).1

theorem opened_r (p : Pipeline) : p.opened p.r = some .readEnd := by
  unfold opened
  rw [Function.update_of_ne p.free.2.2, Function.update_self]

theorem opened_w (p : Pipeline) : p.opened p.w = some .writeEnd := Function.update_self _ _ _

theorem opened_other {fd : Nat} (hr : fd ≠ p.r) (hw : fd ≠ p.w) : p.opened fd = p.shellFds fd := by
  unfold opened
  rw [Function.update_of_ne hw, Function.update_of_ne hr]

theorem eq_r_of_readEnd {fd : Nat} (found : p.opened fd = some .readEnd) : fd = p.r := by
  by_contra hr
  by_cases hw : fd = p.w
  · rw [hw, opened_w] at found
    cases found
  · rw [opened_other hr hw] at found
    exact (p.noEnds fd).1 found

theorem eq_w_of_writeEnd {fd : Nat} (found : p.opened fd = some .writeEnd) : fd = p.w := by
  by_contra hw
  by_cases hr : fd = p.r
  · rw [hr, opened_r] at found
    cases found
  · rw [opened_other hr hw] at found
    exact (p.noEnds fd).2 found

/-- The left child has the write end all the way. -/
theorem left_holds (mem : (t, todo) ∈ stages p.opened (p.calls .left)) : t.Holds .writeEnd :=
  moveEnd_holds p.free.2.2 p.target_ne p.opened_w mem

/-- The left command writes to the pipe, and nothing of it reads. -/
theorem left_ready (mem : (t, []) ∈ stages p.opened (p.calls .left)) : t p.target = some .writeEnd ∧ ¬t.Holds .readEnd :=
  moveEnd_ready p.free.2.2 p.target_ne p.opened_w (fun _ => eq_r_of_readEnd) nofun mem

/-- The right child has the read end all the way. -/
theorem right_holds (mem : (t, todo) ∈ stages p.opened (p.calls .right)) : t.Holds .readEnd :=
  moveEnd_holds p.free.2.2.symm p.zero_ne p.opened_r mem

/-- The right command reads from the pipe, and nothing of it writes. -/
theorem right_ready (mem : (t, []) ∈ stages p.opened (p.calls .right)) : t 0 = some .readEnd ∧ ¬t.Holds .writeEnd :=
  moveEnd_ready p.free.2.2.symm p.zero_ne p.opened_r (fun _ => eq_w_of_writeEnd) nofun mem

/-- Closing both ends gives the shell its descriptors back. -/
theorem smash_closed (mem : (t, []) ∈ stages p.opened (p.calls .smash)) : t = p.shellFds := by
  simp only [calls, stages, Call.apply, List.mem_cons, Prod.mk.injEq, List.not_mem_nil, reduceCtorEq, and_false,
    false_or, or_false, and_true] at mem
  subst mem
  funext k
  by_cases hw : k = p.w
  · rw [hw, Function.update_self]
    exact p.free.2.1.symm
  · rw [Function.update_of_ne hw]
    by_cases hr : k = p.r
    · rw [hr, Function.update_self]
      exact p.free.1.symm
    · rw [Function.update_of_ne hr]
      exact opened_other hr hw

theorem shellFds_not_holds (p : Pipeline) : ¬p.shellFds.Holds .readEnd ∧ ¬p.shellFds.Holds .writeEnd := by
  constructor
  · intro held
    obtain ⟨fd, found⟩ := held
    exact (p.noEnds fd).1 found
  · intro held
    obtain ⟨fd, found⟩ := held
    exact (p.noEnds fd).2 found

/-- The descriptors of the shell, by where it is. -/
def SmashAt (p : Pipeline) (t : Table File) (todo : List Call) : Point → Prop
  | .forkLeft | .forkRight => t = p.opened ∧ todo = []
  | .closing _ => (t, todo) ∈ stages p.opened (p.calls .smash)
  | .waitLeft | .waitRight | .prompt => t = p.shellFds ∧ todo = []

/-- The descriptors of a child. -/
def ChildAt (p : Pipeline) (q : ProcessId) (t : Table File) (todo : List Call) : Life → Prop
  | .alive => (t, todo) ∈ stages p.opened (p.calls q)
  | .unborn | .gone => t = .empty ∧ todo = []

structure Tables (p : Pipeline) (s : State) : Prop where
  smash : p.SmashAt (s.fds .smash) (s.todo .smash) s.point
  child : ∀ q ≠ .smash, p.ChildAt q (s.fds q) (s.todo q) (s.life q)

namespace Tables

theorem start (p : Pipeline) : Tables p p.start where
  smash := ⟨rfl, rfl⟩
  child _ child := ⟨if_neg child, rfl⟩

variable {q : ProcessId}

theorem exit (h : Tables p s) (child : q ≠ .smash) : Tables p (s.exit q) where
  smash := by
    unfold State.exit
    dsimp only
    rw [Function.update_of_ne child.symm, Function.update_of_ne child.symm]
    exact h.smash
  child k other := by
    unfold State.exit
    dsimp only
    by_cases e : k = q
    · subst e
      rw [Function.update_self, Function.update_self, Function.update_self]
      exact ⟨rfl, rfl⟩
    · rw [Function.update_of_ne e, Function.update_of_ne e, Function.update_of_ne e]
      exact h.child k other

theorem fork (h : Tables p s) (child : q ≠ .smash) (opened : s.fds .smash = p.opened) : Tables p (s.fork q (p.calls q)) where
  smash := by
    unfold State.fork
    dsimp only
    rw [Function.update_of_ne child.symm, Function.update_of_ne child.symm]
    exact h.smash
  child k other := by
    unfold State.fork
    dsimp only
    by_cases e : k = q
    · subst e
      rw [Function.update_self, Function.update_self, Function.update_self, opened]
      exact mem_stages_self
    · rw [Function.update_of_ne e, Function.update_of_ne e, Function.update_of_ne e]
      exact h.child k other

theorem close (h : Tables p s) (waits : Bool) (opened : s.fds .smash = p.opened) : Tables p (s.close p waits) where
  smash := by
    unfold State.close
    dsimp only [SmashAt]
    rw [Function.update_self, opened]
    exact mem_stages_self
  child k other := by
    unfold State.close
    dsimp only
    rw [Function.update_of_ne other]
    exact h.child k other

/-- A process that has a call to make is at one of its stages. -/
theorem call {c : Call} {cs : List Call} (h : Tables p s) (next : s.todo q = c :: cs) :
    Tables p { s with fds := Function.update s.fds q (c.apply (s.fds q)), todo := Function.update s.todo q cs } where
  smash := by
    dsimp only
    by_cases e : q = .smash
    · subst e
      rw [Function.update_self, Function.update_self]
      have here := h.smash
      rw [next] at here
      cases point : s.point with
      | closing waits =>
        rw [point] at here
        exact mem_stages_apply here
      | _ =>
        rw [point] at here
        exact nomatch here.2
    · rw [Function.update_of_ne (Ne.symm e), Function.update_of_ne (Ne.symm e)]
      exact h.smash
  child k other := by
    dsimp only
    by_cases e : k = q
    · subst e
      rw [Function.update_self, Function.update_self]
      have here := h.child k other
      rw [next] at here
      cases life : s.life k with
      | alive =>
        rw [life] at here
        exact mem_stages_apply here
      | _ =>
        rw [life] at here
        exact nomatch here.2
    · rw [Function.update_of_ne e, Function.update_of_ne e]
      exact h.child k other

theorem opened (h : Tables p s) (here : s.point = .forkLeft ∨ s.point = .forkRight) : s.fds .smash = p.opened := by
  have smash := h.smash
  rcases here with here | here
  · rw [here] at smash
    exact smash.1
  · rw [here] at smash
    exact smash.1

theorem step (h : Tables p s) (step : Step p s s') : Tables p s' := by
  cases step with
  | forkLeft here =>
    have opened := h.opened (.inl here)
    have forked := h.fork (q := .left) (by decide) opened
    exact ⟨⟨opened, here ▸ h.smash |>.2⟩, forked.child⟩
  | forkRight here =>
    have opened := h.opened (.inr here)
    exact (h.fork (q := .right) (by decide) opened).close true opened
  | forkFails here =>
    have closing := h.close false (h.opened here)
    exact ⟨closing.smash, closing.child⟩
  | call next => exact h.call next
  | dup2Fails child next => exact ⟨(h.exit child).smash, (h.exit child).child⟩
  | @closed waits here last =>
    have smash := h.smash
    rw [here, last] at smash
    have restored := smash_closed smash
    refine ⟨?_, h.child⟩
    cases waits <;> exact ⟨restored, last⟩
  | reapLeft here gone =>
    have smash := h.smash
    rw [here] at smash
    exact ⟨smash, h.child⟩
  | reapRight here gone =>
    have smash := h.smash
    rw [here] at smash
    exact ⟨smash, h.child⟩
  | ctrlC here alive =>
    have exit := h.exit (q := .left) (by decide)
    exact ⟨exit.smash, exit.child⟩
  | write runs stream next room reader => exact ⟨h.smash, h.child⟩
  | sigpipe runs stream more nobody => exact h.exit (by decide)
  | leftEnds runs last => exact h.exit (by decide)
  | read runs stream hungry next => exact ⟨h.smash, h.child⟩
  | endOfFile runs stream hungry empty nobody => exact h.exit (by decide)
  | rightEnds runs full => exact h.exit (by decide)

/-- The shell has closed both ends once it waits. -/
theorem closed (h : Tables p s) (here : s.point = .waitLeft ∨ s.point = .waitRight ∨ s.point = .prompt) :
    s.fds .smash = p.shellFds := by
  have smash := h.smash
  rcases here with here | here | here
  · rw [here] at smash
    exact smash.1
  · rw [here] at smash
    exact smash.1
  · rw [here] at smash
    exact smash.1

theorem of_alive (h : Tables p s) (child : q ≠ .smash) (alive : s.life q = .alive) :
    (s.fds q, s.todo q) ∈ stages p.opened (p.calls q) := by
  have here := h.child q child
  rw [alive] at here
  exact here

theorem of_runs (h : Tables p s) (child : q ≠ .smash) (runs : s.Runs q) : (s.fds q, []) ∈ stages p.opened (p.calls q) := by
  have here := h.of_alive child runs.1
  rw [runs.2] at here
  exact here

theorem of_not_alive (h : Tables p s) (child : q ≠ .smash) (dead : s.life q ≠ .alive) : s.fds q = .empty := by
  have here := h.child q child
  cases life : s.life q with
  | alive => exact absurd life dead
  | _ =>
    rw [life] at here
    exact here.1

end Tables

end Pipeline

end OsProjects.Shell
