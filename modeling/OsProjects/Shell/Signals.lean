import OsProjects.Shell.Children

/-!
# Ctrl-C

`ctrlCHandler` kills the process in the foreground. It runs at any time, and what it finds in
`fg_pid` depends on where the shell is: `Command.waits` lists the calls of `waitpid` that a
command blocks in. A job is never hit. For the right side of a pipe the handler aims at the
left side, which has been reaped by then (`ctrlC_aim`).
-/

namespace OsProjects.Shell

open CText

variable {os : Os} {w w' w₀ : World} {line : Text} {pid : Int}

/-- `ctrlCHandler`: the process that it calls `kill` for, and the shell after it. -/
def ctrlCHandler (os : Os) (w : World) : Option Int × World :=
  let w := w.print (lit "smash: got ctrl-C\n")
  if 0 < w.shell.fgPid then
    match (w.sys os).kill w.shell.fgPid 9 with
    | some e => (some w.shell.fgPid, w.tick.perror "smash error: kill failed" e)
    | none =>
      (some w.shell.fgPid,
        { w.tick.print (lit "smash: process " ++ printd w.shell.fgPid ++ lit " was killed\n") with
          shell.fgPid := -1, shell.fgCmd := [] })
  else (none, w)

/-- The shell after Ctrl-C has been pressed `n` times. -/
def presses (os : Os) (n : Nat) (w : World) : World := (fun w => (ctrlCHandler os w).2)^[n] w

/-- A call of `waitpid` that blocks, and the shell that makes it. -/
structure Wait where
  pid : Int
  state : World

/-- The waits of a command in their order. During the first one Ctrl-C is pressed `n` times. -/
def Command.waits (os : Os) (n : Nat) (w : World) : Command → List Wait
  | .builtIn .fg cmdLine =>
    if 2 < (argsOf cmdLine).length then []
    else
      let w := w.removeFinishedJobs os
      match chooseJob (argsOf cmdLine) w.shell.jobs with
      | .refused _ | .throws => []
      | .job j =>
        let w := w.print (j.cmdLine ++ lit " " ++ printd j.pid ++ lit "\n")
        [⟨j.pid, { w with
          shell.jobs := removeJobById j.jobId w.shell.jobs, shell.fgPid := j.pid, shell.fgCmd := j.cmdLine }⟩]
  | .builtIn _ _ => []
  | .external cmdLine isBackground =>
    let effective := if isBackground then removeBackground cmdLine else trim cmdLine
    match w.fork os (.program (programOf effective)) with
    | .error _ => []
    | .ok (pid, w) => if isBackground then [] else [⟨pid, { w with shell.fgPid := pid, shell.fgCmd := effective }⟩]
  | .redirection cmdLine append =>
    match redirectionSides cmdLine append with
    | none => []
    | some (left, filename) =>
      let left := w.shell.resolveAlias left
      match w.fork os (.redirected filename append left) with
      | .error _ => []
      | .ok (pid, w) => [⟨pid, { w with shell.fgPid := pid, shell.fgCmd := left }⟩]
  | .pipe cmdLine stderrPipe =>
    match pipeSides cmdLine stderrPipe with
    | none => []
    | some (cmd1, cmd2) =>
      match (w.sys os).pipe with
      | some _ => []
      | none =>
        match w.tick.fork os (.piped stderrPipe (w.shell.resolveAlias cmd1)) with
        | .error _ => []
        | .ok (pid1, v) =>
          match v.fork os (.reading (w.shell.resolveAlias cmd2)) with
          | .error _ => []
          | .ok (pid2, v) =>
            let v := { v with shell.fgPid := pid1 }
            [⟨pid1, v⟩, ⟨pid2, ((presses os n v).waitpid os pid1).2⟩]

/-! ## The handler -/

/-- Nobody is in the foreground. -/
def Idle (w : World) : Prop := w.shell.fgPid = -1 ∧ w.shell.fgCmd = []

/-- What the handler leaves as it is. -/
structure Undisturbed (w w' : World) : Prop where
  tables : SameTables w w'
  fgPid : w'.shell.fgPid = w.shell.fgPid ∨ w'.shell.fgPid = -1

theorem Undisturbed.trans {w'' : World} (h : Undisturbed w w') (h' : Undisturbed w' w'') : Undisturbed w w'' where
  tables := h.tables.trans h'.tables
  fgPid := by
    rcases h'.fgPid with same | reset
    · rw [same]
      exact h.fgPid
    · exact .inr reset

/-- **What the handler does.** It aims at `fg_pid`. -/
theorem ctrlCHandler_spec (os : Os) (w : World) :
    (ctrlCHandler os w).1 = (if 0 < w.shell.fgPid then some w.shell.fgPid else none) ∧
      Undisturbed w (ctrlCHandler os w).2 := by
  by_cases aimed : 0 < w.shell.fgPid
  · have unfolded : ctrlCHandler os w = _ := if_pos aimed
    rw [if_pos aimed, unfolded]
    split
    · exact ⟨rfl, ⟨rfl, rfl, rfl, rfl, rfl⟩, .inl rfl⟩
    · exact ⟨rfl, ⟨rfl, rfl, rfl, rfl, rfl⟩, .inr rfl⟩
  · have unfolded : ctrlCHandler os w = _ := if_neg aimed
    rw [if_neg aimed, unfolded]
    exact ⟨rfl, ⟨rfl, rfl, rfl, rfl, rfl⟩, .inl rfl⟩

theorem ctrlCHandler_idle (idle : Idle w) : (ctrlCHandler os w).1 = none := by
  rw [(ctrlCHandler_spec os w).1, if_neg]
  rw [idle.1]
  decide

theorem ctrlCHandler_hits (aimed : 0 < w.shell.fgPid) : (ctrlCHandler os w).1 = some w.shell.fgPid := by
  rw [(ctrlCHandler_spec os w).1, if_pos aimed]

theorem presses_undisturbed (os : Os) (n : Nat) (w : World) : Undisturbed w (presses os n w) := by
  induction n with
  | zero => exact ⟨SameTables.refl w, .inl rfl⟩
  | succ n ih =>
    unfold presses at ih ⊢
    rw [Function.iterate_succ_apply']
    exact ih.trans (ctrlCHandler_spec os _).2

/-- However often it is pressed, Ctrl-C has one target. -/
theorem presses_target {n : Nat} {target : Int} (hit : (ctrlCHandler os (presses os n w)).1 = some target) :
    target = w.shell.fgPid ∧ 0 < target := by
  rw [(ctrlCHandler_spec os _).1] at hit
  split_ifs at hit with aimed
  obtain rfl := Option.some_inj.mp hit
  refine ⟨(presses_undisturbed os n w).fgPid.resolve_right fun reset => ?_, aimed⟩
  rw [reset] at aimed
  exact absurd aimed (by decide)

/-! ## Between two lines -/

theorem changeDirTo_idle (idle : Idle w) (path cwd : Text) : Idle (changeDirTo os w path cwd) := by
  unfold changeDirTo
  split_ifs
  · exact idle
  · simp only
    split
    · exact idle
    · exact idle
  · split
    · exact idle
    · exact idle

theorem unaliasLoop_idle (idle : Idle w) (names : List Text) : Idle (unaliasLoop w names) := by
  induction names generalizing w with
  | nil => exact idle
  | cons name names ih =>
    unfold unaliasLoop
    split_ifs
    · apply ih
      exact idle
    · exact idle

theorem unsetenvLoop_idle (idle : Idle w) (names : List Text) : Idle (unsetenvLoop w names) := by
  induction names generalizing w with
  | nil => exact idle
  | cons name names ih =>
    unfold unsetenvLoop
    split_ifs
    · apply ih
      exact idle
    · exact idle

theorem foreground_idle (os : Os) (w : World) (pid : Int) (cmd : Text) : Idle (w.foreground os pid cmd) := by
  unfold Idle
  rw [World.foreground_shell]
  exact ⟨rfl, rfl⟩

/-- A built-in command leaves nobody in the foreground. -/
theorem BuiltIn.idle {b : BuiltIn} (idle : Idle w) (run : b.execute os line w = .returned w') : Idle w' := by
  have ends : ∀ {v : World}, Outcome.returned v = .returned w' → Idle v → Idle w' := by
    intro v eq h
    obtain rfl := Outcome.returned.inj eq
    exact h
  have report : ∀ {r : Report}, w.report r = .returned w' → Idle w' := by
    intro r eq
    simp only [World.report] at eq
    split_ifs at eq
    exact ends eq idle
  cases b with
  | chprompt =>
    simp only [execute, chpromptCommand] at run
    split at run
    · exact ends run idle
    · exact ends run idle
  | showpid => exact ends run idle
  | pwd =>
    simp only [execute, getCurrDirCommand] at run
    split at run
    · exact ends run idle
    · exact ends run idle
  | cd =>
    simp only [execute, changeDirCommand] at run
    split at run
    · exact ends run idle
    · split at run
      · exact ends run idle
      · exact ends run (changeDirTo_idle (w := w.tick) idle _ _)
    · exact ends run idle
  | jobs => exact ends run idle
  | fg =>
    simp only [execute, foregroundCommand] at run
    split_ifs at run
    · exact ends run idle
    · split at run
      · exact ends run idle
      · cases run
      · exact ends run (foreground_idle os _ _ _)
  | quit =>
    simp only [execute, quitCommand] at run
    split at run
    · split_ifs at run
    · cases run
  | kill =>
    simp only [execute, killCommand] at run
    split at run
    · split_ifs at run
      · exact ends run idle
      · exact ends run idle
      · exact ends run idle
      · split at run
        · split at run
          · exact ends run idle
          · split at run
            · exact ends run idle
            · exact ends run idle
        · cases run
    · exact ends run idle
  | alias' =>
    simp only [execute, aliasCommand] at run
    split_ifs at run
    · exact ends run idle
    · exact ends run idle
    · exact ends run idle
    · exact ends run idle
  | unalias =>
    simp only [execute, unaliasCommand] at run
    split at run
    · exact ends run (unaliasLoop_idle idle _)
    · exact ends run idle
  | unsetenv =>
    simp only [execute, unsetenvCommand] at run
    split at run
    · exact ends run (unsetenvLoop_idle idle _)
    · exact ends run idle
  | sysinfo => exact report run
  | du => exact report run
  | whoami => exact report run
  | usbinfo => exact report run

theorem Idle.fork (idle : Idle w) {task : Task} (run : w.fork os task = .ok (pid, w')) : Idle w' := by
  unfold Idle
  rw [World.fork_shell run]
  exact idle

/-- Whatever a line is, nobody is in the foreground after it. -/
theorem Command.idle {cmd : Command} (idle : Idle w) (run : cmd.execute os w = .returned w') : Idle w' := by
  cases cmd with
  | builtIn b cmdLine => exact BuiltIn.idle idle run
  | external cmdLine isBackground =>
    simp only [execute, externalCommand] at run
    split at run
    · obtain rfl := Outcome.returned.inj run
      exact idle
    · next forked =>
      split_ifs at run
      · simp only [World.addJob] at run
        split_ifs at run
        have kept : Idle _ := idle.fork forked
        obtain rfl := Outcome.returned.inj run
        exact kept
      · obtain rfl := Outcome.returned.inj run
        exact foreground_idle os _ _ _
  | redirection cmdLine append =>
    simp only [execute, redirectionCommand] at run
    split at run
    · obtain rfl := Outcome.returned.inj run
      exact idle
    · split at run
      · obtain rfl := Outcome.returned.inj run
        exact idle
      · obtain rfl := Outcome.returned.inj run
        exact foreground_idle os _ _ _
  | pipe cmdLine stderrPipe =>
    simp only [execute, pipeCommand] at run
    split at run
    · obtain rfl := Outcome.returned.inj run
      exact idle
    · split at run
      · obtain rfl := Outcome.returned.inj run
        exact idle
      · split at run
        · obtain rfl := Outcome.returned.inj run
          exact idle
        · next forked =>
          have forked' : Idle _ := Idle.fork (w := w.tick) idle forked
          split at run
          · obtain rfl := Outcome.returned.inj run
            exact forked'
          · obtain rfl := Outcome.returned.inj run
            exact ⟨rfl, rfl⟩

theorem executeCommand_idle (idle : Idle w) (run : executeCommand os line w = .returned w') : Idle w' := by
  simp only [executeCommand] at run
  split_ifs at run
  · obtain rfl := Outcome.returned.inj run
    exact idle
  · split at run
    · obtain rfl := Outcome.returned.inj run
      exact idle
    · exact Command.idle (w := w.removeFinishedJobs os) idle run

theorem Session.idle (started : w₀.Starts) (run : Session os w₀ w) : Idle w := by
  induction run with
  | refl =>
    unfold Idle
    rw [started.shell]
    exact ⟨rfl, rfl⟩
  | tail _ step ih =>
    obtain ⟨line, -, step⟩ := step
    exact executeCommand_idle (w := World.print _ _) ih step

/-! ## While the shell waits -/

/-- Ctrl-C during a wait kills `target` and nobody else, and `target` is nobody's job. -/
structure Hits (os : Os) (target : Int) (k : Wait) : Prop where
  first : (ctrlCHandler os k.state).1 = some target
  only : ∀ m t, (ctrlCHandler os (presses os m k.state)).1 = some t → t = target
  spared : ∀ j ∈ k.state.shell.jobs, j.pid ≠ target

/-- What Ctrl-C does in the waits of a command. For the second side of a pipe it can only aim at the first side, which
is no child any more; so it does when it has not been pressed before. -/
inductive Aim (os : Os) (n : Nat) : List Wait → Prop where
  | none : Aim os n []
  | one (k : Wait) (hits : Hits os k.pid k) (child : k.pid ∈ k.state.proc.children) : Aim os n [k]
  | pipe (k k' : Wait) (hits : Hits os k.pid k) (child : k.pid ∈ k.state.proc.children)
      (only : ∀ m t, (ctrlCHandler os (presses os m k'.state)).1 = some t → t = k.pid)
      (unpressed : n = 0 → Hits os k.pid k') (gone : k.pid ∉ k'.state.proc.children)
      (child' : k'.pid ∈ k'.state.proc.children) : Aim os n [k, k']

theorem Hits.of_fgPid {v : World} {target : Int} (fgPid : v.shell.fgPid = target) (positive : 0 < target)
    (spared : ∀ j ∈ v.shell.jobs, j.pid ≠ target) : Hits os target ⟨pid, v⟩ where
  first := by
    rw [← fgPid] at positive ⊢
    exact ctrlCHandler_hits positive
  only _ _ hit := (presses_target hit).1.trans fgPid
  spared := spared

/-- A wait that is not interrupted. -/
theorem World.waitpid_children (quiet : ∀ t pid, (os t).interrupted pid = none) (w : World) (pid : Int) :
    (w.waitpid os pid).2.proc.children = w.proc.children.erase pid := by
  unfold World.waitpid
  split_ifs with child
  · rw [show (w.sys os).interrupted pid = none from quiet _ _]
  · exact (List.erase_of_not_mem child).symm

/-- The job that `fg` takes has the pid of none that stay. -/
theorem JobsOk.pid_ne_of_removed (h : JobsOk w) {j k : JobEntry} (mem : j ∈ w.shell.jobs)
    (left : k ∈ removeJobById j.jobId w.shell.jobs) : k.pid ≠ j.pid := by
  rw [h.orderly.removeJobById_eq, List.mem_filter] at left
  intro same
  obtain rfl := List.inj_on_of_nodup_map h.orderly.distinct left.1 mem same
  simp at left

theorem given_of_fork {task : Task} (run : w.fork os task = .ok (pid, w')) :
    Given os pid ∧ w'.proc.children = w.proc.children ++ [pid] := by
  unfold World.fork at run
  split at run
  · exact nomatch run
  · next answer =>
    obtain ⟨rfl, rfl⟩ := Prod.mk.inj (Except.ok.inj run)
    exact ⟨⟨_, _, answer⟩, rfl⟩

/-- A child is not given the pid of another one. -/
theorem not_mem_of_fork (fresh : FreshPids os) {task : Task} (run : w.fork os task = .ok (pid, w')) :
    pid ∉ w.proc.children := by
  unfold World.fork at run
  split at run
  · exact nomatch run
  · next answer =>
    obtain ⟨rfl, -⟩ := Prod.mk.inj (Except.ok.inj run)
    exact fresh _ _ _ answer

/-- **Every wait of a command.** -/
theorem Command.aim (fresh : FreshPids os) (positive : ∀ pid, Given os pid → 0 < pid)
    (quiet : ∀ t pid, (os t).interrupted pid = none) (ok : JobsOk w) (given : ∀ j ∈ w.shell.jobs, Given os j.pid)
    (cmd : Command) (n : Nat) : Aim os n (cmd.waits os n w) := by
  cases cmd with
  | builtIn b cmdLine =>
    cases b with
    | fg =>
      simp only [waits]
      split_ifs
      · exact .none
      · have swept := ok.removeFinishedJobs os
        split
        · exact .none
        · exact .none
        · next j chosen =>
          have mem := JobsOk.chooseJob_mem swept.orderly chosen
          apply Aim.one
          · refine Hits.of_fgPid rfl ?_ ?_
            · exact positive _ (given j ((ok.swept os).sub.subset mem))
            · exact fun k left => swept.pid_ne_of_removed mem left
          · exact swept.children j mem
    | _ => exact .none
  | external cmdLine isBackground =>
    simp only [waits]
    split
    · exact .none
    · next forked =>
      obtain ⟨-, child, free⟩ := ok.fork fresh forked
      split_ifs
      · exact .none
      · exact .one _ (Hits.of_fgPid rfl (positive _ (given_of_fork forked).1) free) child
  | redirection cmdLine append =>
    simp only [waits]
    split
    · exact .none
    · split
      · exact .none
      · next forked =>
        obtain ⟨-, child, free⟩ := ok.fork fresh forked
        exact .one _ (Hits.of_fgPid rfl (positive _ (given_of_fork forked).1) free) child
  | pipe cmdLine stderrPipe =>
    simp only [waits]
    split
    · exact .none
    · split
      · exact .none
      · split
        · exact .none
        · next pid₁ v₁ forked =>
          split
          · exact .none
          · next pid₂ v₂ forked' =>
            have ticked : JobsOk w.tick := ok.congr rfl rfl rfl
            obtain ⟨ok₁, child, free⟩ := ticked.fork fresh forked
            obtain ⟨ok₂, child', -⟩ := ok₁.fork fresh forked'
            obtain ⟨new, children⟩ := given_of_fork forked
            have free' : ∀ j ∈ v₂.shell.jobs, j.pid ≠ pid₁ := by
              rw [World.fork_shell forked']
              exact free
            have new' : pid₁ ∉ w.tick.proc.children := not_mem_of_fork fresh forked
            have other : pid₂ ≠ pid₁ := by
              rintro rfl
              exact not_mem_of_fork fresh forked' child
            have pressed := presses_undisturbed os n { v₂ with shell.fgPid := pid₁ }
            have reaped : ((presses os n { v₂ with shell.fgPid := pid₁ }).waitpid os pid₁).2.proc.children =
                w.tick.proc.children ++ [pid₂] := by
              rw [World.waitpid_children quiet, pressed.tables.children]
              change v₂.proc.children.erase pid₁ = _
              rw [(given_of_fork forked').2, children, List.append_assoc, List.erase_append_right _ new']
              exact congrArg _ (List.erase_cons_head _ _)
            have kept := World.waitpid_shell os (presses os n { v₂ with shell.fgPid := pid₁ }) pid₁
            apply Aim.pipe
            · exact Hits.of_fgPid rfl (positive _ new) free'
            · rw [(given_of_fork forked').2]
              exact List.mem_append_left _ child
            · intro m t hit
              obtain ⟨rfl, aimed⟩ := presses_target hit
              rw [kept] at aimed ⊢
              apply pressed.fgPid.resolve_right
              intro reset
              rw [reset] at aimed
              exact absurd aimed (by decide)
            · rintro rfl
              refine Hits.of_fgPid ?_ (positive _ new) ?_
              · rw [kept]
                rfl
              · rw [kept]
                exact free'
            · rw [reaped]
              simp [new', other.symm]
            · rw [reaped]
              exact List.mem_append_right _ List.mem_cons_self

/-! ## After the wait -/

/-- `waitpid` gives the same tables, whatever has been pressed. -/
theorem World.waitpid_tables (quiet : ∀ t pid, (os t).interrupted pid = none) (same : SameTables w w') (pid : Int) :
    SameTables (w.waitpid os pid).2 (w'.waitpid os pid).2 := by
  have added : ∀ v : World, (v.waitpid os pid).2.added = v.added := by
    intro v
    unfold World.waitpid
    split_ifs
    · split
      · rfl
      · rfl
    · rfl
  constructor
  · rw [waitpid_shell, waitpid_shell]
    exact same.jobs
  · rw [waitpid_children quiet, waitpid_children quiet, same.children]
  · rw [added, added]
    exact same.added
  · rw [waitpid_shell, waitpid_shell]
    exact same.aliases
  · rw [waitpid_shell, waitpid_shell]
    exact same.aliasOrder

theorem World.foreground_tables (os : Os) (w : World) (pid : Int) (cmd : Text) :
    SameTables (w.foreground os pid cmd) (({ w with shell.fgPid := pid, shell.fgCmd := cmd } : World).waitpid os pid).2 := by
  cases result : ({ w with shell.fgPid := pid, shell.fgCmd := cmd } : World).waitpid os pid with
  | mk e w' =>
    simp only [World.foreground, result]
    cases e with
    | some e => exact ⟨rfl, rfl, rfl, rfl, rfl⟩
    | none => exact ⟨rfl, rfl, rfl, rfl, rfl⟩

/-- **A command goes on after its last wait** as if Ctrl-C had not been pressed. -/
theorem Command.resumes (quiet : ∀ t pid, (os t).interrupted pid = none) {cmd : Command}
    (run : cmd.execute os w = .returned w') (n m : Nat) {k : Wait} (last : k ∈ (cmd.waits os n w).getLast?) :
    SameTables w' ((presses os m k.state).waitpid os k.pid).2 := by
  -- a command that waits once
  have once : ∀ {v : World} {pid : Int} {cmd : Text}, v.foreground os pid cmd = w' →
      k = ⟨pid, { v with shell.fgPid := pid, shell.fgCmd := cmd }⟩ →
      SameTables w' ((presses os m k.state).waitpid os k.pid).2 := by
    rintro v pid cmd rfl rfl
    apply (World.foreground_tables os v pid cmd).trans
    exact World.waitpid_tables quiet (presses_undisturbed os m _).tables pid
  cases cmd with
  | builtIn b cmdLine =>
    cases b with
    | fg =>
      simp only [execute, BuiltIn.execute, foregroundCommand] at run
      simp only [waits] at last
      split_ifs at run last with many
      · simp at last
      · cases chosen : chooseJob (argsOf cmdLine) (w.removeFinishedJobs os).shell.jobs with
        | refused message => simp [chosen] at last
        | throws => simp [chosen] at last
        | job j =>
          simp only [chosen] at run last
          exact once (Outcome.returned.inj run) (by simpa using last.symm)
    | _ => simp [waits] at last
  | external cmdLine isBackground =>
    simp only [execute, externalCommand] at run
    simp only [waits] at last
    split at run
    · next failed => simp [failed] at last
    · next forked =>
      rw [forked] at last
      split_ifs at run with bg
      · simp [bg] at last
      · simp only [bg, Bool.false_eq_true, if_false] at last run
        exact once (Outcome.returned.inj run) (by simpa using last.symm)
  | redirection cmdLine append =>
    simp only [execute, redirectionCommand] at run
    simp only [waits] at last
    split at run
    · next absent => simp [absent] at last
    · next found =>
      simp only [found] at last
      split at run
      · next failed => simp [failed] at last
      · next forked =>
        simp only [forked] at last
        exact once (Outcome.returned.inj run) (by simpa using last.symm)
  | pipe cmdLine stderrPipe =>
    simp only [execute, pipeCommand] at run
    simp only [waits] at last
    split at run
    · next absent => simp [absent] at last
    · next found =>
      simp only [found] at last
      split at run
      · next failed => simp [failed] at last
      · next opened =>
        simp only [opened] at last
        split at run
        · next failed => simp [failed] at last
        · next pid₁ v₁ forked =>
          simp only [forked] at last
          split at run
          · next failed => simp [failed] at last
          · next pid₂ v₂ forked' =>
            simp only [forked'] at last
            obtain rfl : ⟨pid₂, ((presses os n { v₂ with shell.fgPid := pid₁ }).waitpid os pid₁).2⟩ = k := by
              simpa using last
            obtain rfl := Outcome.returned.inj run
            have pressed := presses_undisturbed os n { v₂ with shell.fgPid := pid₁ }
            have first := World.waitpid_tables quiet pressed.tables pid₁
            have second := World.waitpid_tables quiet (first.trans (presses_undisturbed os m _).tables) pid₂
            exact ⟨second.jobs, second.children, second.added, second.aliases, second.aliasOrder⟩

/-! ## Every run -/

/-- The shell at a prompt when it comes to execute the command of a line. -/
def World.atCommand (os : Os) (w : World) : World := (w.print (w.shell.prompt ++ lit "> ")).removeFinishedJobs os

/-- A line that has a command. -/
theorem mainStep_command {cmd : Command} (nonempty : trim line ≠ [])
    (created : createCommand ((w.atCommand os).shell.resolveAlias (trim line)) = some cmd) :
    mainStep os line w = cmd.execute os (w.atCommand os) := by
  unfold mainStep executeCommand
  rw [if_neg nonempty]
  simp only [World.atCommand] at created ⊢
  rw [created]

/-- **Ctrl-C in every run.** Waits are restarted. At a prompt the handler kills nobody. While a command waits, the
handler kills the process that is waited for and no other, and never the process of a job; the right side of a pipe
is the exception (`Aim`). When the command returns the tables are those after its last wait, however often Ctrl-C
has been pressed in its waits. -/
theorem ctrlC_aim (fresh : FreshPids os) (positive : ∀ pid, Given os pid → 0 < pid)
    (quiet : ∀ t pid, (os t).interrupted pid = none) (started : w₀.Starts) (run : Session os w₀ w) :
    (ctrlCHandler os w).1 = none ∧
      ∀ line cmd, trim line ≠ [] → createCommand ((w.atCommand os).shell.resolveAlias (trim line)) = some cmd →
        ∀ n, Aim os n (cmd.waits os n (w.atCommand os)) ∧
          ∀ w', mainStep os line w = .returned w' → ∀ k ∈ (cmd.waits os n (w.atCommand os)).getLast?, ∀ m,
            SameTables w' ((presses os m k.state).waitpid os k.pid).2 := by
  refine ⟨ctrlCHandler_idle (run.idle started), fun line cmd nonempty created n => ⟨?_, fun w' step k last m => ?_⟩⟩
  · have ok : JobsOk w := (run.reachable started).jobsOk fresh
    have printed : JobsOk (w.print (w.shell.prompt ++ lit "> ")) := ok.congr rfl rfl rfl
    have given := (run.kept fresh started).given
    apply Command.aim fresh positive quiet (printed.removeFinishedJobs os)
    exact fun j mem => given j ((printed.swept os).sub.subset mem)
  · rw [mainStep_command nonempty created] at step
    exact Command.resumes quiet step n m last

theorem calmSys_positive : ∀ pid, Given (fun _ => calmSys) pid → 0 < pid := by
  intro pid given
  obtain ⟨_, children, answer⟩ := given
  have low : ∀ children : List Int, 1000 ≤ children.foldr max 1000 := by
    intro children
    induction children with
    | nil => exact le_refl _
    | cons x children ih => exact ih.trans (le_max_right _ _)
  rw [← Except.ok.inj answer]
  exact (by decide : (0 : Int) < 1000).trans (Int.lt_add_one_of_le (low children))

/-- `ls | wc` waits twice. -/
theorem ctrlC_aim_pipe : ∃ ks, ((Command.pipe (lit "ls | wc") false).waits (fun _ => calmSys) 0
        ((World.startIn (lit "/")).atCommand fun _ => calmSys)) = ks ∧
      ks.map Wait.pid = [1001, 1002] ∧ Aim (fun _ => calmSys) 0 ks := by
  have lines := (ctrlC_aim calmSys_fresh calmSys_positive (fun _ _ => rfl) ⟨rfl, rfl⟩
    (Relation.ReflTransGen.refl : Session (fun _ => calmSys) (World.startIn (lit "/")) _)).2
  have aim := (lines (lit "ls | wc") (.pipe (lit "ls | wc") false) (by decide) rfl 0).1
  exact ⟨_, rfl, rfl, aim⟩

end OsProjects.Shell
