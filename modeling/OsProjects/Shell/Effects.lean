import OsProjects.Shell.Commands

/-!
# What a command can do to the tables of the shell

The tables are the list of jobs with the children of the process, and the aliases. Most
commands leave them alone. `BuiltIn.effect` goes through the built-in commands once; what
a run preserves follows from it.
-/

namespace OsProjects.Shell

open CText

variable {os : Os} {w w' : World} {line : Text}

/-- The tables are the same. -/
structure SameTables (w w' : World) : Prop where
  jobs : w'.shell.jobs = w.shell.jobs
  children : w'.proc.children = w.proc.children
  added : w'.added = w.added
  aliases : w'.shell.aliases = w.shell.aliases
  aliasOrder : w'.shell.aliasOrder = w.shell.aliasOrder

theorem SameTables.refl (w : World) : SameTables w w := ⟨rfl, rfl, rfl, rfl, rfl⟩

theorem SameTables.trans {w'' : World} (h : SameTables w w') (h' : SameTables w' w'') : SameTables w w'' where
  jobs := h'.jobs.trans h.jobs
  children := h'.children.trans h.children
  added := h'.added.trans h.added
  aliases := h'.aliases.trans h.aliases
  aliasOrder := h'.aliasOrder.trans h.aliasOrder

/-- The job in hand leaves the list, and the shell waits for it. -/
def World.takeJob (os : Os) (j : JobEntry) (w : World) : World :=
  ({ w.print (j.cmdLine ++ lit " " ++ printd j.pid ++ lit "\n") with
    shell.jobs := removeJobById j.jobId w.shell.jobs } : World).foreground os j.pid j.cmdLine

/-- What a built-in command did. -/
inductive Effect (os : Os) (line : Text) (w w' : World) : Prop where
  | same (h : SameTables w w')
  | swept (h : SameTables (w.removeFinishedJobs os) w')
  | taken (j : JobEntry) (chosen : chooseJob (argsOf line) (w.removeFinishedJobs os).shell.jobs = .job j)
      (eq : w' = (w.removeFinishedJobs os).takeJob os j)
  | aliased (format : aliasFormat (removeBackground line) = true)
      (free : SmashShell.isReservedKeyword (aliasParts (removeBackground line)).1 = false)
      (new : w.shell.aliasExists (aliasParts (removeBackground line)).1 = false)
      (eq : w' = { w with
        shell := w.shell.addAlias (aliasParts (removeBackground line)).1 (aliasParts (removeBackground line)).2 })
  | unaliased (names : List Text) (eq : w' = unaliasLoop w names)

theorem changeDirTo_same (os : Os) (w : World) (path cwd : Text) : SameTables w (changeDirTo os w path cwd) := by
  unfold changeDirTo
  split_ifs
  · exact ⟨rfl, rfl, rfl, rfl, rfl⟩
  · simp only
    split
    · exact ⟨rfl, rfl, rfl, rfl, rfl⟩
    · exact ⟨rfl, rfl, rfl, rfl, rfl⟩
  · split
    · exact ⟨rfl, rfl, rfl, rfl, rfl⟩
    · exact ⟨rfl, rfl, rfl, rfl, rfl⟩

theorem unsetenvLoop_same (w : World) (names : List Text) : SameTables w (unsetenvLoop w names) := by
  induction names generalizing w with
  | nil => exact SameTables.refl w
  | cons name names ih =>
    unfold unsetenvLoop
    split_ifs
    · refine SameTables.trans ?_ (ih _)
      exact ⟨rfl, rfl, rfl, rfl, rfl⟩
    · exact ⟨rfl, rfl, rfl, rfl, rfl⟩

theorem foregroundCommand_effect (run : foregroundCommand os line w = .returned w') : Effect os line w w' := by
  simp only [foregroundCommand] at run
  split_ifs at run
  · obtain rfl := Outcome.returned.inj run
    exact .same ⟨rfl, rfl, rfl, rfl, rfl⟩
  · cases choice : chooseJob (argsOf line) (w.removeFinishedJobs os).shell.jobs with
    | refused message =>
      simp only [choice] at run
      obtain rfl := Outcome.returned.inj run
      exact .swept ⟨rfl, rfl, rfl, rfl, rfl⟩
    | throws =>
      simp only [choice] at run
      exact nomatch run
    | job j =>
      simp only [choice] at run
      exact .taken j choice (Outcome.returned.inj run).symm

theorem aliasCommand_effect (run : aliasCommand line w = .returned w') : Effect os line w w' := by
  simp only [aliasCommand] at run
  split_ifs at run with listing format taken
  · obtain rfl := Outcome.returned.inj run
    exact .same ⟨rfl, rfl, rfl, rfl, rfl⟩
  · obtain rfl := Outcome.returned.inj run
    exact .same ⟨rfl, rfl, rfl, rfl, rfl⟩
  · obtain rfl := Outcome.returned.inj run
    exact .same ⟨rfl, rfl, rfl, rfl, rfl⟩
  · obtain ⟨free, new⟩ := Bool.or_eq_false_iff.mp (Bool.eq_false_iff.mpr taken)
    exact .aliased (by simpa using format) free new (Outcome.returned.inj run).symm

/-- **What a built-in command does to the tables.** -/
theorem BuiltIn.effect {b : BuiltIn} (run : b.execute os line w = .returned w') : Effect os line w w' := by
  -- a command that leaves the tables alone
  have same : ∀ {v : World}, Outcome.returned v = .returned w' → SameTables w v → Effect os line w w' := by
    intro v eq h
    obtain rfl := Outcome.returned.inj eq
    exact .same h
  have report : ∀ {r : Report}, w.report r = .returned w' → Effect os line w w' := by
    intro r eq
    simp only [World.report] at eq
    split_ifs at eq
    exact same eq ⟨rfl, rfl, rfl, rfl, rfl⟩
  cases b with
  | chprompt =>
    simp only [execute, chpromptCommand] at run
    split at run
    · exact same run ⟨rfl, rfl, rfl, rfl, rfl⟩
    · exact same run ⟨rfl, rfl, rfl, rfl, rfl⟩
  | showpid => exact same run ⟨rfl, rfl, rfl, rfl, rfl⟩
  | pwd =>
    simp only [execute, getCurrDirCommand] at run
    split at run
    · exact same run ⟨rfl, rfl, rfl, rfl, rfl⟩
    · exact same run ⟨rfl, rfl, rfl, rfl, rfl⟩
  | cd =>
    simp only [execute, changeDirCommand] at run
    split at run
    · exact same run ⟨rfl, rfl, rfl, rfl, rfl⟩
    · split at run
      · exact same run ⟨rfl, rfl, rfl, rfl, rfl⟩
      · have ticked : SameTables w w.tick := ⟨rfl, rfl, rfl, rfl, rfl⟩
        exact same run (ticked.trans (changeDirTo_same os w.tick _ _))
    · exact same run (SameTables.refl w)
  | jobs =>
    obtain rfl := Outcome.returned.inj run
    exact .swept ⟨rfl, rfl, rfl, rfl, rfl⟩
  | fg => exact foregroundCommand_effect run
  | quit =>
    simp only [execute, quitCommand] at run
    split at run
    · split_ifs at run
    · exact nomatch run
  | kill =>
    simp only [execute, killCommand] at run
    split at run
    · split_ifs at run
      · exact same run ⟨rfl, rfl, rfl, rfl, rfl⟩
      · exact same run ⟨rfl, rfl, rfl, rfl, rfl⟩
      · exact same run ⟨rfl, rfl, rfl, rfl, rfl⟩
      · split at run
        · split at run
          · exact same run ⟨rfl, rfl, rfl, rfl, rfl⟩
          · split at run
            · exact same run ⟨rfl, rfl, rfl, rfl, rfl⟩
            · exact same run ⟨rfl, rfl, rfl, rfl, rfl⟩
        · exact nomatch run
    · exact same run ⟨rfl, rfl, rfl, rfl, rfl⟩
  | alias' => exact aliasCommand_effect run
  | unalias =>
    simp only [execute, unaliasCommand] at run
    split at run
    · exact .unaliased _ (Outcome.returned.inj run).symm
    · exact same run ⟨rfl, rfl, rfl, rfl, rfl⟩
  | unsetenv =>
    simp only [execute, unsetenvCommand] at run
    split at run
    · exact same run (unsetenvLoop_same w _)
    · exact same run ⟨rfl, rfl, rfl, rfl, rfl⟩
  | sysinfo => exact report run
  | du => exact report run
  | whoami => exact report run
  | usbinfo => exact report run

/-! ## Forking and waiting -/

theorem World.fork_shell {task : Task} {pid : Int} (run : w.fork os task = .ok (pid, w')) : w'.shell = w.shell := by
  unfold World.fork at run
  split at run
  · exact nomatch run
  · obtain ⟨-, rfl⟩ := Prod.mk.inj (Except.ok.inj run)
    rfl

theorem World.waitpid_shell (os : Os) (w : World) (pid : Int) : (w.waitpid os pid).2.shell = w.shell := by
  unfold World.waitpid
  split_ifs
  · split
    · rfl
    · rfl
  · rfl

/-- The shell after waiting in the foreground: nobody is in the foreground. -/
theorem World.foreground_shell (os : Os) (w : World) (pid : Int) (cmd : Text) :
    (w.foreground os pid cmd).shell = { w.shell with fgPid := -1, fgCmd := [] } := by
  have kept := waitpid_shell os { w with shell.fgPid := pid, shell.fgCmd := cmd } pid
  cases result : ({ w with shell.fgPid := pid, shell.fgCmd := cmd } : World).waitpid os pid with
  | mk e w' =>
    rw [result] at kept
    have kept' : w'.shell = { w.shell with fgPid := pid, fgCmd := cmd } := kept
    simp only [World.foreground, result]
    cases e with
    | some e => simp only [World.perror, World.complain, kept']
    | none => simp only [kept']

theorem World.fork_spawned {task : Task} {pid : Int} (run : w.fork os task = .ok (pid, w')) :
    ∃ child : Spawn, child.task = task ∧ w'.spawned = w.spawned ++ [child] := by
  unfold World.fork at run
  split at run
  · exact nomatch run
  · obtain ⟨-, rfl⟩ := Prod.mk.inj (Except.ok.inj run)
    exact ⟨_, rfl, rfl⟩

theorem World.waitpid_spawned (os : Os) (w : World) (pid : Int) : (w.waitpid os pid).2.spawned = w.spawned := by
  unfold World.waitpid
  split_ifs
  · split
    · rfl
    · rfl
  · rfl

theorem World.foreground_spawned (os : Os) (w : World) (pid : Int) (cmd : Text) :
    (w.foreground os pid cmd).spawned = w.spawned := by
  simp only [World.foreground, World.waitpid]
  split_ifs
  · cases ({ w with shell.fgPid := pid, shell.fgCmd := cmd } : World).sys os |>.interrupted pid with
    | some e => rfl
    | none => rfl
  · rfl

/-- The aliases are the same. -/
def SameAliases (w w' : World) : Prop :=
  w'.shell.aliases = w.shell.aliases ∧ w'.shell.aliasOrder = w.shell.aliasOrder

theorem World.foreground_aliases (os : Os) (w : World) (pid : Int) (cmd : Text) :
    SameAliases w (w.foreground os pid cmd) := by
  unfold SameAliases
  rw [foreground_shell]
  exact ⟨rfl, rfl⟩

/-- Forking and then going on without touching the aliases. -/
theorem SameAliases.of_fork {w'' : World} {task : Task} {pid : Int} (run : w.fork os task = .ok (pid, w'))
    (h : SameAliases w' w'') : SameAliases w w'' := by
  have shell := World.fork_shell run
  unfold SameAliases at h
  rw [shell] at h
  exact h

theorem externalCommand_aliases {isBackground : Bool} (run : externalCommand os line isBackground w = .returned w') :
    SameAliases w w' := by
  simp only [externalCommand] at run
  split at run
  · obtain rfl := Outcome.returned.inj run
    exact ⟨rfl, rfl⟩
  · next forked =>
    apply SameAliases.of_fork forked
    split_ifs at run
    · simp only [World.addJob] at run
      split_ifs at run
      obtain rfl := Outcome.returned.inj run
      exact ⟨rfl, rfl⟩
    · obtain rfl := Outcome.returned.inj run
      exact World.foreground_aliases os _ _ _

theorem redirectionCommand_aliases {append : Bool} (run : redirectionCommand os line append w = .returned w') :
    SameAliases w w' := by
  simp only [redirectionCommand] at run
  split at run
  · obtain rfl := Outcome.returned.inj run
    exact ⟨rfl, rfl⟩
  · split at run
    · obtain rfl := Outcome.returned.inj run
      exact ⟨rfl, rfl⟩
    · next forked =>
      obtain rfl := Outcome.returned.inj run
      exact SameAliases.of_fork forked (World.foreground_aliases os _ _ _)

theorem pipeCommand_aliases {stderrPipe : Bool} (run : pipeCommand os line stderrPipe w = .returned w') :
    SameAliases w w' := by
  simp only [pipeCommand] at run
  split at run
  · obtain rfl := Outcome.returned.inj run
    exact ⟨rfl, rfl⟩
  · split at run
    · obtain rfl := Outcome.returned.inj run
      exact ⟨rfl, rfl⟩
    · split at run
      · obtain rfl := Outcome.returned.inj run
        exact ⟨rfl, rfl⟩
      · next pid₁ w₁ forked =>
        have through : ∀ {w'' : World}, SameAliases w₁ w'' → SameAliases w w'' :=
          SameAliases.of_fork (w := w.tick) forked
        apply through
        split at run
        · obtain rfl := Outcome.returned.inj run
          exact ⟨rfl, rfl⟩
        · next pid₂ w₂ forked' =>
          obtain rfl := Outcome.returned.inj run
          apply SameAliases.of_fork forked'
          constructor
          · simp only [World.waitpid_shell]
          · simp only [World.waitpid_shell]

end OsProjects.Shell
