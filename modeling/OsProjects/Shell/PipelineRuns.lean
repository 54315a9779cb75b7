import OsProjects.Lib.Runs
import OsProjects.Shell.Pipeline

/-!
# Runs of a pipe

What the shell and its children close decides whether a line with a pipe comes to its end
(`pipeline_ends`) and what the right command has been given by then (`pipeline_delivers`).
-/

namespace OsProjects.Shell

open Descriptors

namespace Pipeline

variable {p : Pipeline} {s s' : State}

/-! ## Lives -/

/-- Who has been started, by where the shell is. -/
structure Lives (s : State) : Prop where
  leftBorn : s.life .left = .unborn → s.point = .forkLeft ∨ s.disturbed = true
  rightBorn : s.life .right = .unborn → s.point = .forkLeft ∨ s.point = .forkRight ∨ s.disturbed = true
  early : s.point = .forkLeft ∨ s.point = .forkRight → s.life .right = .unborn
  waits : s.point = .closing true ∨ s.point = .waitLeft ∨ s.point = .waitRight →
    s.life .left ≠ .unborn ∧ s.life .right ≠ .unborn
  begun : s.point = .forkRight → s.life .left ≠ .unborn
  waited : s.point = .waitRight → s.life .left = .gone

theorem alive_fork {q : ProcessId} {cs : List Call} : (s.fork q cs).life q = .alive := Function.update_self _ _ _

namespace Lives

theorem start (p : Pipeline) : Lives p.start where
  leftBorn _ := .inl rfl
  rightBorn _ := .inl rfl
  early _ := rfl
  waits here := by rcases here with here | here | here <;> cases here
  begun here := nomatch here
  waited here := nomatch here

/-- A child that ends stays a child. -/
theorem exit {q : ProcessId} (h : Lives s) (alive : s.life q ≠ .unborn) : Lives (s.exit q) := by
  have other : ∀ k, (s.exit q).life k = .unborn ↔ s.life k = .unborn := by
    intro k
    change Function.update s.life q .gone k = .unborn ↔ _
    by_cases e : k = q
    · subst e
      rw [Function.update_self]
      exact ⟨nofun, fun unborn => absurd unborn alive⟩
    · rw [Function.update_of_ne e]
  refine ⟨fun unborn => h.leftBorn ((other _).mp unborn), fun unborn => h.rightBorn ((other _).mp unborn),
    fun here => (other _).mpr (h.early here), fun here => ?_, fun here => (other _).not.mpr (h.begun here), fun here => ?_⟩
  · exact ⟨(other _).not.mpr (h.waits here).1, (other _).not.mpr (h.waits here).2⟩
  · change Function.update s.life q .gone .left = .gone
    by_cases e : .left = q
    · rw [← e, Function.update_self]
    · rw [Function.update_of_ne e]
      exact h.waited here

theorem step (h : Lives s) (tables : Tables p s) (step : Step p s s') : Lives s' := by
  cases step with
  | forkLeft here =>
    have right := h.early (.inl here)
    have left : (s.fork .left (p.calls .left)).life .left ≠ .unborn := alive_fork ▸ nofun
    exact ⟨fun unborn => absurd unborn left, fun _ => .inr (.inl rfl), fun _ => right, nofun, fun _ => left, nofun⟩
  | forkRight here =>
    have left := h.begun here
    have right : (s.fork .right (p.calls .right)).life .right ≠ .unborn := alive_fork ▸ nofun
    exact ⟨fun unborn => absurd unborn left, fun unborn => absurd unborn right, nofun, fun _ => ⟨left, right⟩, nofun, nofun⟩
  | forkFails here => exact ⟨fun _ => .inr rfl, fun _ => .inr (.inr rfl), nofun, nofun, nofun, nofun⟩
  | call next => exact ⟨h.leftBorn, h.rightBorn, h.early, h.waits, h.begun, h.waited⟩
  | @dup2Fails q old new cs child next =>
    have born : s.life q ≠ .unborn := by
      intro unborn
      have here := tables.child q child
      rw [unborn, next] at here
      exact nomatch here.2
    have exit := h.exit born
    exact ⟨fun _ => .inr rfl, fun _ => .inr (.inr rfl), exit.early, exit.waits, exit.begun, exit.waited⟩
  | @closed waits here last =>
    cases waits with
    | false =>
      have left : s.life .left = .unborn → s.disturbed = true := by
        intro unborn
        rcases h.leftBorn unborn with start | disturbed
        · rw [here] at start
          cases start
        · exact disturbed
      have right : s.life .right = .unborn → s.disturbed = true := by
        intro unborn
        rcases h.rightBorn unborn with start | forked | disturbed
        · rw [here] at start
          cases start
        · rw [here] at forked
          cases forked
        · exact disturbed
      exact ⟨fun unborn => .inr (left unborn), fun unborn => .inr (.inr (right unborn)), nofun, nofun, nofun, nofun⟩
    | true =>
      have born := h.waits (.inl here)
      exact ⟨fun unborn => absurd unborn born.1, fun unborn => absurd unborn born.2, nofun, fun _ => born, nofun, nofun⟩
  | reapLeft here gone =>
    have born := h.waits (.inr (.inl here))
    exact ⟨fun unborn => absurd unborn born.1, fun unborn => absurd unborn born.2, nofun, fun _ => born, nofun, fun _ => gone⟩
  | reapRight here gone =>
    have born := h.waits (.inr (.inr here))
    exact ⟨fun unborn => absurd unborn born.1, fun unborn => absurd unborn born.2, nofun, nofun, nofun, nofun⟩
  | ctrlC here alive =>
    have exit := h.exit (alive ▸ nofun : s.life .left ≠ .unborn)
    exact ⟨fun _ => .inr rfl, fun _ => .inr (.inr rfl), exit.early, exit.waits, exit.begun, exit.waited⟩
  | write runs stream next room reader => exact ⟨h.leftBorn, h.rightBorn, h.early, h.waits, h.begun, h.waited⟩
  | sigpipe runs stream more nobody => exact h.exit (runs.1 ▸ nofun)
  | leftEnds runs last => exact h.exit (runs.1 ▸ nofun)
  | read runs stream hungry next => exact ⟨h.leftBorn, h.rightBorn, h.early, h.waits, h.begun, h.waited⟩
  | endOfFile runs stream hungry empty nobody => exact h.exit (runs.1 ▸ nofun)
  | rightEnds runs full => exact h.exit (runs.1 ▸ nofun)

end Lives

/-! ## Every run ends -/

def Point.left : Point → Nat
  | .forkLeft => 15
  | .forkRight => 10
  | .closing _ => 3
  | .waitLeft => 2
  | .waitRight => 1
  | .prompt => 0

def Life.left : Life → Nat
  | .alive => 1
  | .unborn | .gone => 0

/-- The steps that a process may still make for itself. -/
def State.own (s : State) (q : ProcessId) : Nat := (s.todo q).length + (s.life q).left

def State.shares (s : State) : Nat := s.own .smash + s.own .left + s.own .right

/-- A bound on the steps that are left. A byte is written and read. -/
def State.left (s : State) : Nat := s.point.left + s.shares + (2 * s.rest.length + s.buffer.length)

section Shares

variable {q k : ProcessId} {m n : Nat} {cs : List Call}

/-- Only one process changes its share. -/
theorem shares_le (here : s'.own q + m ≤ s.own q + n) (others : ∀ k ≠ q, s'.own k = s.own k) :
    s'.shares + m ≤ s.shares + n := by
  unfold State.shares
  cases q with
  | smash =>
    rw [others .left (by decide), others .right (by decide)]
    omega
  | left =>
    rw [others .smash (by decide), others .right (by decide)]
    omega
  | right =>
    rw [others .smash (by decide), others .left (by decide)]
    omega

theorem shares_fork : (s.fork q cs).shares ≤ s.shares + (cs.length + 1) := by
  apply shares_le (q := q) (m := 0)
  · unfold State.own State.fork
    dsimp only
    rw [Function.update_self, Function.update_self]
    exact Nat.le_add_left _ _
  · intro k ne
    unfold State.own State.fork
    dsimp only
    rw [Function.update_of_ne ne, Function.update_of_ne ne]

theorem shares_close {waits : Bool} : (s.close p waits).shares ≤ s.shares + 2 := by
  apply shares_le (q := .smash) (m := 0)
  · unfold State.own State.close
    dsimp only
    rw [Function.update_self]
    have calls : (p.calls .smash).length = 2 := rfl
    omega
  · intro k ne
    unfold State.own State.close
    dsimp only
    rw [Function.update_of_ne ne]

theorem shares_call {t : Table File} {c : Call} (next : s.todo q = c :: cs) :
    State.shares { s with fds := Function.update s.fds q t, todo := Function.update s.todo q cs } + 1 ≤ s.shares := by
  apply shares_le (q := q) (n := 0)
  · unfold State.own
    dsimp only
    rw [Function.update_self, next, List.length_cons]
    omega
  · intro k ne
    unfold State.own
    dsimp only
    rw [Function.update_of_ne ne]

/-- A process that ends has no steps to make any more. -/
theorem shares_exit (busy : 0 < s.own q) : (s.exit q).shares + 1 ≤ s.shares := by
  apply shares_le (q := q) (n := 0)
  · have ended : (s.exit q).own q = 0 := by
      unfold State.own State.exit
      dsimp only
      rw [Function.update_self, Function.update_self]
      rfl
    omega
  · intro k ne
    unfold State.own State.exit
    dsimp only
    rw [Function.update_of_ne ne, Function.update_of_ne ne]

theorem left_exit (busy : 0 < s.own q) : (s.exit q).left < s.left := by
  have less := shares_exit busy
  unfold State.left
  have same : (s.exit q).point = s.point ∧ (s.exit q).rest = s.rest ∧ (s.exit q).buffer = s.buffer := ⟨rfl, rfl, rfl⟩
  rw [same.1, same.2.1, same.2.2]
  omega

theorem own_pos (alive : s.life q = .alive) : 0 < s.own q := by
  unfold State.own
  rw [alive]
  exact Nat.succ_pos _

end Shares

/-- The shell goes on. -/
theorem left_of_point (here : s'.point.left + s'.shares < s.point.left + s.shares) (rest : s'.rest = s.rest)
    (buffer : s'.buffer = s.buffer) : s'.left < s.left := by
  unfold State.left
  rw [rest, buffer]
  omega

theorem Step.left_lt (step : Step p s s') : s'.left < s.left := by
  cases step with
  | forkLeft here =>
    have more : (s.fork .left (p.calls .left)).shares ≤ s.shares + 4 := shares_fork
    refine left_of_point ?_ rfl rfl
    rw [here]
    exact Nat.lt_of_le_of_lt (Nat.add_le_add_left more _) (by simp only [Point.left]; omega)
  | forkRight here =>
    have more : (s.fork .right (p.calls .right)).shares ≤ s.shares + 4 := shares_fork
    have closes : ((s.fork .right (p.calls .right)).close p true).shares ≤ _ := shares_close
    refine left_of_point ?_ rfl rfl
    rw [here]
    change 3 + _ < 10 + _
    omega
  | forkFails here =>
    have closes : (s.close p false).shares ≤ s.shares + 2 := shares_close
    refine left_of_point ?_ rfl rfl
    have far : 10 ≤ s.point.left := by
      rcases here with here | here
      · rw [here]
        decide
      · rw [here]
        decide
    change 3 + (s.close p false).shares < _
    omega
  | call next => exact left_of_point (Nat.add_lt_add_left (Nat.lt_of_succ_le (shares_call next)) _) rfl rfl
  | @dup2Fails q old new cs child next =>
    have busy : 0 < s.own q := by
      unfold State.own
      rw [next, List.length_cons]
      omega
    exact left_of_point (Nat.add_lt_add_left (Nat.lt_of_succ_le (shares_exit busy)) _) rfl rfl
  | @closed waits here last =>
    refine left_of_point ?_ rfl rfl
    rw [here]
    apply Nat.add_lt_add_right
    cases waits with
    | false => exact (by decide : 0 < 3)
    | true => exact (by decide : 2 < 3)
  | reapLeft here gone =>
    refine left_of_point ?_ rfl rfl
    rw [here]
    exact Nat.add_lt_add_right (by decide : 1 < 2) _
  | reapRight here gone =>
    refine left_of_point ?_ rfl rfl
    rw [here]
    exact Nat.add_lt_add_right (by decide : 0 < 1) _
  | ctrlC here alive => exact left_of_point (Nat.add_lt_add_left (Nat.lt_of_succ_le (shares_exit (own_pos alive))) _) rfl rfl
  | @write b bs runs stream next room reader =>
    have bytes : 2 * bs.length + (s.buffer ++ [b]).length < 2 * s.rest.length + s.buffer.length := by
      rw [next, List.length_cons, List.length_append, List.length_singleton]
      omega
    exact Nat.add_lt_add_left bytes _
  | sigpipe runs stream more nobody => exact left_exit (own_pos runs.1)
  | leftEnds runs last => exact left_exit (own_pos runs.1)
  | @read b bs runs stream hungry next =>
    have bytes : 2 * s.rest.length + bs.length < 2 * s.rest.length + s.buffer.length := by
      rw [next, List.length_cons]
      omega
    exact Nat.add_lt_add_left bytes _
  | endOfFile runs stream hungry empty nobody => exact left_exit (own_pos runs.1)
  | rightEnds runs full => exact left_exit (own_pos runs.1)

/-- A child that still sets up its descriptors makes a call. -/
theorem exists_call {q : ProcessId} (busy : s.todo q ≠ []) : ∃ s', Step p s s' := by
  obtain ⟨c, cs, next⟩ := List.exists_cons_of_ne_nil busy
  exact ⟨_, .call next⟩

/-- The right child goes on, unless it waits for somebody who can still write. -/
theorem exists_right (tables : Tables p s) (alive : s.life .right = .alive)
    (fed : s.todo .right = [] → s.buffer = [] → ¬s.Holds .writeEnd) : ∃ s', Step p s s' := by
  by_cases ready : s.todo .right = []
  · have runs : s.Runs .right := ⟨alive, ready⟩
    have stream := (right_ready (tables.of_runs (by decide) runs)).1
    by_cases hungry : p.Hungry s.received
    · cases buffer : s.buffer with
      | nil => exact ⟨_, .endOfFile runs stream hungry buffer (fed ready buffer)⟩
      | cons b bs => exact ⟨_, .read runs stream hungry buffer⟩
    · exact ⟨_, .rightEnds runs hungry⟩
  · exact exists_call ready

/-- While the shell has its descriptors back, the left child goes on, or the right one does. -/
theorem exists_left (tables : Tables p s) (alive : s.life .left = .alive) (closed : s.fds .smash = p.shellFds) :
    ∃ s', Step p s s' := by
  by_cases ready : s.todo .left = []
  · have runs : s.Runs .left := ⟨alive, ready⟩
    obtain ⟨stream, noReader⟩ := left_ready (tables.of_runs (by decide) runs)
    cases rest : s.rest with
    | nil => exact ⟨_, .leftEnds runs rest⟩
    | cons b bs =>
      by_cases reader : s.Holds .readEnd
      · by_cases room : s.buffer.length < p.capacity
        · exact ⟨_, .write runs stream rest room reader⟩
        · -- the pipe is full, and the reader can only be the right child
          have full : s.buffer ≠ [] := by
            intro empty
            rw [empty] at room
            exact room p.room
          have right : s.life .right = .alive := by
            by_contra dead
            obtain ⟨q, held⟩ := reader
            cases q with
            | smash =>
              rw [closed] at held
              exact p.shellFds_not_holds.1 held
            | left => exact noReader held
            | right =>
              rw [tables.of_not_alive (by decide) dead] at held
              exact not_holds_empty held
          exact exists_right tables right fun _ empty => absurd empty full
      · exact ⟨_, .sigpipe runs stream (rest ▸ List.cons_ne_nil b bs) reader⟩
  · exact exists_call ready

/-- Nobody can write any more. -/
theorem not_holds_writeEnd (tables : Tables p s) (closed : s.fds .smash = p.shellFds) (left : s.life .left ≠ .alive)
    (right : s.Runs .right) : ¬s.Holds .writeEnd := by
  intro writer
  obtain ⟨q, held⟩ := writer
  cases q with
  | smash =>
    rw [closed] at held
    exact p.shellFds_not_holds.2 held
  | left =>
    rw [tables.of_not_alive (by decide) left] at held
    exact not_holds_empty held
  | right => exact (right_ready (tables.of_runs (by decide) right)).2 held

/-- The line has come to its end. -/
structure Finished (p : Pipeline) (s : State) : Prop where
  prompt : s.point = .prompt
  left : s.life .left ≠ .alive
  right : s.life .right ≠ .alive
  restored : s.fds .smash = p.shellFds

/-- Somebody can always go on. -/
theorem exists_step (tables : Tables p s) (lives : Lives s) : (∃ s', Step p s s') ∨ Finished p s := by
  cases point : s.point with
  | forkLeft => exact .inl ⟨_, .forkLeft point⟩
  | forkRight => exact .inl ⟨_, .forkRight point⟩
  | closing waits =>
    by_cases last : s.todo .smash = []
    · exact .inl ⟨_, .closed point last⟩
    · exact .inl (exists_call last)
  | waitLeft =>
    cases life : s.life .left with
    | unborn => exact absurd life (lives.waits (.inr (.inl point))).1
    | alive => exact .inl (exists_left tables life (tables.closed (.inl point)))
    | gone => exact .inl ⟨_, .reapLeft point life⟩
  | waitRight =>
    have gone := lives.waited point
    cases life : s.life .right with
    | unborn => exact absurd life (lives.waits (.inr (.inr point))).2
    | alive =>
      refine .inl (exists_right tables life fun ready _ => ?_)
      exact not_holds_writeEnd tables (tables.closed (.inr (.inl point))) (gone ▸ nofun) ⟨life, ready⟩
    | gone => exact .inl ⟨_, .reapRight point life⟩
  | prompt =>
    have closed := tables.closed (.inr (.inr point))
    by_cases left : s.life .left = .alive
    · exact .inl (exists_left tables left closed)
    · by_cases right : s.life .right = .alive
      · refine .inl (exists_right tables right fun ready _ => ?_)
        exact not_holds_writeEnd tables closed left ⟨right, ready⟩
      · exact .inr ⟨point, left, right, closed⟩

theorem invariants (reach : Reachable p s) : Tables p s ∧ Lives s := by
  apply Runs.keeps (I := fun s => Tables p s ∧ Lives s) _ reach ⟨.start p, .start p⟩
  intro a b inv step
  exact ⟨inv.1.step step, inv.2.step inv.1 step⟩

/-- **A pipe comes to its end**, whatever the three processes do in which order, which calls fail and when Ctrl-C is
pressed: there is no infinite run, and as long as the shell is not at its prompt with its descriptors from before, and both
children gone, some process can go on. -/
theorem pipeline_ends (p : Pipeline) : Acc (flip (Step p)) p.start ∧
    ∀ s, Reachable p s → (∃ s', Step p s s') ∨ Finished p s := by
  constructor
  · exact Runs.acc_of_decreasing (I := fun _ => True) (m := State.left) (fun _ _ _ step => ⟨trivial, step.left_lt⟩) trivial
  · intro s reach
    obtain ⟨tables, lives⟩ := invariants reach
    exact exists_step tables lives

/-- A pipe for one byte. -/
def oneByte : Pipeline where
  stderrPipe := false
  r := 3
  w := 4
  shellFds fd := if fd ≤ 2 then some (.other fd) else none
  capacity := 1
  output := [65]
  appetite := none
  free := ⟨rfl, rfl, by decide⟩
  standard fd le := by
    rw [if_pos le]
    nofun
  noEnds fd := by split_ifs <;> exact ⟨nofun, nofun⟩
  room := by decide

theorem pipeline_ends_byte : Acc (flip (Step oneByte)) oneByte.start ∧
    ((∃ s', Step oneByte oneByte.start s') ∨ Finished oneByte oneByte.start) :=
  ⟨(pipeline_ends oneByte).1, (pipeline_ends oneByte).2 _ .refl⟩

/-! ## What is delivered -/

/-- Where the bytes are, and why a child has ended. -/
structure Delivery (p : Pipeline) (s : State) : Prop where
  bytes : s.received ++ s.buffer ++ s.rest = p.output
  eaten : ∀ k ∈ p.appetite, s.received.length ≤ k
  left : s.disturbed = false → s.life .left = .gone → s.rest = [] ∨ s.life .right = .gone ∧ ¬p.Hungry s.received
  right : s.disturbed = false → s.life .right = .gone →
    ¬p.Hungry s.received ∨ s.life .left = .gone ∧ s.buffer = [] ∧ s.rest = []

theorem life_exit {q k : ProcessId} (ne : k ≠ q) : (s.exit q).life k = s.life k := Function.update_of_ne ne _ _

namespace Delivery

theorem start (p : Pipeline) : Delivery p p.start where
  bytes := rfl
  eaten _ _ := Nat.zero_le _
  left _ gone := nomatch gone
  right _ gone := nomatch gone

/-- Nobody is left to read only when the right command has read what it wants. -/
theorem full_of_nobody (h : Delivery p s) (tables : Tables p s) (lives : Lives s) (alive : s.life .left = .alive)
    (calm : s.disturbed = false) (nobody : ¬s.Holds .readEnd) : s.life .right = .gone ∧ ¬p.Hungry s.received := by
  cases life : s.life .right with
  | unborn =>
    rcases lives.rightBorn life with here | here | disturbed
    · exact absurd ⟨.smash, p.r, by rw [tables.opened (.inl here), opened_r]⟩ nobody
    · exact absurd ⟨.smash, p.r, by rw [tables.opened (.inr here), opened_r]⟩ nobody
    · rw [calm] at disturbed
      cases disturbed
  | alive => exact absurd ⟨.right, right_holds (tables.of_alive (by decide) life)⟩ nobody
  | gone =>
    refine ⟨rfl, ?_⟩
    rcases h.right calm life with full | ⟨gone, -⟩
    · exact full
    · rw [alive] at gone
      cases gone

/-- Nobody is left to write only when the left command has written everything. -/
theorem rest_of_nobody (h : Delivery p s) (tables : Tables p s) (lives : Lives s) (alive : s.life .right = .alive)
    (calm : s.disturbed = false) (nobody : ¬s.Holds .writeEnd) : s.life .left = .gone ∧ s.rest = [] := by
  cases life : s.life .left with
  | unborn =>
    rcases lives.leftBorn life with here | disturbed
    · rw [lives.early (.inl here)] at alive
      cases alive
    · rw [calm] at disturbed
      cases disturbed
  | alive => exact absurd ⟨.left, left_holds (tables.of_alive (by decide) life)⟩ nobody
  | gone =>
    refine ⟨rfl, ?_⟩
    rcases h.left calm life with written | ⟨gone, -⟩
    · exact written
    · rw [alive] at gone
      cases gone

/-- The left child ends. -/
theorem exit_left (h : Delivery p s) (alive : s.life .left = .alive)
    (why : s.disturbed = false → s.rest = [] ∨ s.life .right = .gone ∧ ¬p.Hungry s.received) : Delivery p (s.exit .left) where
  bytes := h.bytes
  eaten := h.eaten
  left calm _ := by
    rw [life_exit (by decide)]
    exact why calm
  right calm gone := by
    rw [life_exit (by decide)] at gone
    rcases h.right calm gone with full | ⟨left, -⟩
    · exact .inl full
    · rw [alive] at left
      cases left

/-- The right child ends. -/
theorem exit_right (h : Delivery p s) (alive : s.life .right = .alive)
    (why : s.disturbed = false → ¬p.Hungry s.received ∨ s.life .left = .gone ∧ s.buffer = [] ∧ s.rest = []) :
    Delivery p (s.exit .right) where
  bytes := h.bytes
  eaten := h.eaten
  left calm gone := by
    rw [life_exit (by decide)] at gone
    rcases h.left calm gone with written | ⟨right, -⟩
    · exact .inl written
    · rw [alive] at right
      cases right
  right calm _ := by
    rw [life_exit (by decide)]
    exact why calm

theorem step (h : Delivery p s) (tables : Tables p s) (lives : Lives s) (step : Step p s s') : Delivery p s' := by
  cases step with
  | forkLeft here =>
    refine ⟨h.bytes, h.eaten, fun _ gone => ?_, fun _ gone => ?_⟩
    · have gone : (s.fork .left (p.calls .left)).life .left = .gone := gone
      rw [alive_fork] at gone
      cases gone
    · have gone : s.life .right = .gone := gone
      rw [lives.early (.inl here)] at gone
      cases gone
  | forkRight here =>
    have life : s.life .right = .unborn := lives.early (.inr here)
    refine ⟨h.bytes, h.eaten, fun calm gone => ?_, fun _ gone => ?_⟩
    · rcases h.left calm gone with written | ⟨right, -⟩
      · exact .inl written
      · rw [life] at right
        cases right
    · have gone : (s.fork .right (p.calls .right)).life .right = .gone := gone
      rw [alive_fork] at gone
      cases gone
  | forkFails here => exact ⟨h.bytes, h.eaten, nofun, nofun⟩
  | call next => exact ⟨h.bytes, h.eaten, h.left, h.right⟩
  | dup2Fails child next => exact ⟨h.bytes, h.eaten, nofun, nofun⟩
  | closed here last => exact ⟨h.bytes, h.eaten, h.left, h.right⟩
  | reapLeft here gone => exact ⟨h.bytes, h.eaten, h.left, h.right⟩
  | reapRight here gone => exact ⟨h.bytes, h.eaten, h.left, h.right⟩
  | ctrlC here alive => exact ⟨h.bytes, h.eaten, nofun, nofun⟩
  | @write b bs runs stream next room reader =>
    refine ⟨?_, h.eaten, fun _ gone => (nomatch runs.1.symm.trans gone), fun calm gone => ?_⟩
    · rw [← h.bytes, next]
      simp only [List.append_assoc, List.singleton_append]
    · rcases h.right calm gone with full | ⟨left, -⟩
      · exact .inl full
      · exact nomatch runs.1.symm.trans left
  | sigpipe runs stream more nobody =>
    exact h.exit_left runs.1 fun calm => .inr (h.full_of_nobody tables lives runs.1 calm nobody)
  | leftEnds runs last => exact h.exit_left runs.1 fun _ => .inl last
  | @read b bs runs stream hungry next =>
    refine ⟨?_, fun k wants => ?_, fun calm gone => ?_, fun _ gone => nomatch runs.1.symm.trans gone⟩
    · rw [← h.bytes, next]
      simp only [List.append_assoc, List.singleton_append]
    · rw [List.length_append, List.length_singleton]
      exact hungry k wants
    · rcases h.left calm gone with written | ⟨right, -⟩
      · exact .inl written
      · exact nomatch runs.1.symm.trans right
  | endOfFile runs stream hungry empty nobody =>
    refine h.exit_right runs.1 fun calm => .inr ?_
    obtain ⟨left, written⟩ := h.rest_of_nobody tables lives runs.1 calm nobody
    exact ⟨left, empty, written⟩
  | rightEnds runs full => exact h.exit_right runs.1 fun _ => .inl full

end Delivery

/-- What the right command wants of the output. -/
def wanted (p : Pipeline) : Text :=
  match p.appetite with
  | none => p.output
  | some k => p.output.take k

/-- **A pipe delivers.** In every order of the calls the right command receives the output from its beginning, a byte at a
time, and never more than it wants. At the end of a line in which no call failed and Ctrl-C was not pressed it has received
all that it wants. -/
theorem pipeline_delivers (reach : Reachable p s) : s.received <+: p.wanted ∧
    (Finished p s → s.disturbed = false → s.received = p.wanted) := by
  have inv : Tables p s ∧ Lives s ∧ Delivery p s := by
    apply Runs.keeps (I := fun s => Tables p s ∧ Lives s ∧ Delivery p s) _ reach ⟨.start p, .start p, .start p⟩
    intro a b inv step
    exact ⟨inv.1.step step, inv.2.1.step inv.1 step, inv.2.2.step inv.1 inv.2.1 step⟩
  obtain ⟨tables, lives, outcome⟩ := inv
  have begins : s.received <+: p.output := by
    rw [← outcome.bytes, List.append_assoc]
    exact List.prefix_append _ _
  have part : s.received <+: p.wanted := by
    unfold wanted
    cases appetite : p.appetite with
    | none => exact begins
    | some k => exact List.prefix_take_iff.mpr ⟨begins, outcome.eaten k appetite⟩
  refine ⟨part, fun finished calm => ?_⟩
  have gone : s.life .right = .gone := by
    cases life : s.life .right with
    | unborn =>
      rcases lives.rightBorn life with here | here | disturbed
      · exact nomatch finished.prompt.symm.trans here
      · exact nomatch finished.prompt.symm.trans here
      · exact nomatch calm.symm.trans disturbed
    | alive => exact absurd life finished.right
    | gone => rfl
  apply part.eq_of_length_le
  rcases outcome.right calm gone with full | ⟨-, empty, written⟩
  · unfold Hungry at full
    push Not at full
    obtain ⟨k, wants, enough⟩ := full
    unfold wanted
    rw [Option.mem_def.mp wants]
    exact (List.length_take_le k p.output).trans enough
  · have all : s.received = p.output := by
      rw [← outcome.bytes, empty, written, List.append_nil, List.append_nil]
    rw [all]
    unfold wanted
    cases p.appetite with
    | none => exact le_refl _
    | some k => exact List.length_take_le' k p.output

theorem pipeline_delivers_byte : ∃ s, Reachable oneByte s ∧ Finished oneByte s ∧ s.disturbed = false ∧ s.received = oneByte.wanted := by
  have stay : Reachable oneByte oneByte.start := .refl
  have set := stay.tail (.forkLeft rfl) |>.tail (.forkRight rfl)
    |>.tail (.call (q := .left) rfl) |>.tail (.call (q := .left) rfl) |>.tail (.call (q := .left) rfl)
    |>.tail (.call (q := .right) rfl) |>.tail (.call (q := .right) rfl) |>.tail (.call (q := .right) rfl)
    |>.tail (.call (q := .smash) rfl) |>.tail (.call (q := .smash) rfl) |>.tail (.closed rfl rfl)
  have sent := set.tail (.write ⟨rfl, rfl⟩ rfl rfl (by decide) ⟨.right, 0, rfl⟩) |>.tail (.leftEnds ⟨rfl, rfl⟩ rfl)
    |>.tail (.read ⟨rfl, rfl⟩ rfl nofun rfl)
  have nobody := not_holds_writeEnd (invariants sent).1 ((invariants sent).1.closed (.inl rfl)) nofun ⟨rfl, rfl⟩
  have done := sent.tail (.endOfFile ⟨rfl, rfl⟩ rfl nofun rfl nobody) |>.tail (.reapLeft rfl rfl) |>.tail (.reapRight rfl rfl)
  have dead : Life.gone ≠ .alive := nofun
  have finished : Finished oneByte _ := ⟨rfl, dead, dead, (invariants done).1.closed (.inr (.inr rfl))⟩
  exact ⟨_, done, finished, rfl, (pipeline_delivers done).2 finished rfl⟩

end Pipeline

end OsProjects.Shell
