import OsProjects.Shell.BuiltIns

/-!
# Executing a line

`createCommand` decides what a line is: a pipe, a redirection, a built-in command or an
external one. External commands and commands with an operator run in children; the shell
only forks and waits. `Spawn.run` is the child's side.
-/

namespace OsProjects.Shell

open CText

/-- `Command` and its subclasses. -/
inductive Command where
  | builtIn (b : BuiltIn) (cmdLine : Text)
  | external (cmdLine : Text) (isBackground : Bool)
  | pipe (cmdLine : Text) (stderrPipe : Bool)
  | redirection (cmdLine : Text) (append : Bool)

/-- `createCommand`. -/
def createCommand (cmdLine : Text) : Option Command :=
  let trimmed := trim cmdLine
  if trimmed = [] then none
  else if (find (lit "|&") trimmed).isSome then some (.pipe trimmed true)
  else if (findSingle bar amp trimmed).isSome then some (.pipe trimmed false)
  else if (find (lit ">>") trimmed).isSome then some (.redirection trimmed true)
  else if (findSingle gt gt trimmed).isSome then some (.redirection trimmed false)
  else
    let bg := isBackground trimmed
    let clean := if bg then removeBackground trimmed else trimmed
    match split clean with
    | [] => none
    | cmdName :: _ =>
      match BuiltIn.ofName cmdName with
      | some b => some (.builtIn b trimmed)
      | none => some (.external trimmed bg)

/-! ## What a line is -/

theorem BuiltIn.name_of_ofName {s : Text} {b : BuiltIn} (h : BuiltIn.ofName s = some b) : b.name = s := by
  simpa using List.find?_some h

@[simp] theorem BuiltIn.ofName_name (b : BuiltIn) : BuiltIn.ofName b.name = some b := by
  cases b <;> decide

theorem BuiltIn.name_reserved (b : BuiltIn) : SmashShell.isReservedKeyword b.name = true := by
  rw [SmashShell.isReservedKeyword, BuiltIn.ofName_name]
  rfl

theorem BuiltIn.name_chars (b : BuiltIn) : ∀ c ∈ b.name, isWordChar c = true := by
  apply List.all_eq_true.mp
  cases b <;> decide

theorem isWordChar_of_blank {c : UInt8} (blank : isBlank c = true) : isWordChar c = false := by
  rcases blank_of_isBlank blank with rfl | rfl | rfl | rfl <;> decide

theorem isWordChar_of_endsWord {c : UInt8} (ends : SmashShell.endsWord c = true) : isWordChar c = false := by
  simp only [SmashShell.endsWord, Bool.or_eq_true, beq_iff_eq, or_assoc] at ends
  rcases ends with rfl | rfl | rfl | rfl | rfl <;> decide

/-- A word has no blanks. -/
theorem isBlank_of_wordChar {c : UInt8} (word : isWordChar c = true) : isBlank c = false := by
  rw [← Bool.not_eq_true]
  intro blank
  rw [isWordChar_of_blank blank] at word
  exact Bool.noConfusion word

/-- A word runs on to its end for `resolveAlias`. -/
theorem endsWord_of_wordChar {c : UInt8} (word : isWordChar c = true) : SmashShell.endsWord c = false := by
  rw [← Bool.not_eq_true]
  intro ends
  rw [isWordChar_of_endsWord ends] at word
  exact Bool.noConfusion word

/-- `createCommand` and the commands themselves drop the same `&`. -/
theorem clean_eq (s : Text) :
    (if isBackground (trim s) then removeBackground (trim s) else trim s) = removeBackground s := by
  rw [removeBackground_trim]
  split_ifs with bg
  · rfl
  · unfold removeBackground
    simp only [isBackground, trim_trim, beq_iff_eq] at bg
    rw [if_neg bg]

/-- **A built-in command has no operator**, and its first word is its name. -/
theorem createCommand_builtIn {s t : Text} {b : BuiltIn} (h : createCommand s = some (.builtIn b t)) :
    t = trim s ∧ bar ∉ t ∧ gt ∉ t ∧ ∃ args, argsOf t = b.name :: args := by
  simp only [createCommand, clean_eq] at h
  split_ifs at h with empty pipeErr pipe append truncate
  · exact nomatch Option.some_inj.mp h
  · exact nomatch Option.some_inj.mp h
  · exact nomatch Option.some_inj.mp h
  · exact nomatch Option.some_inj.mp h
  · split at h
    · exact nomatch h
    · next cmdName args words =>
      split at h
      · next b' found =>
        obtain ⟨rfl, rfl⟩ := Command.builtIn.inj (Option.some_inj.mp h)
        refine ⟨rfl, ?_, ?_, args, ?_⟩
        · exact not_mem_of_no_operator (Option.not_isSome_iff_eq_none.mp pipeErr) (Option.not_isSome_iff_eq_none.mp pipe)
        · exact not_mem_of_no_operator (Option.not_isSome_iff_eq_none.mp append) (Option.not_isSome_iff_eq_none.mp truncate)
        · rw [argsOf, removeBackground_trim, words, BuiltIn.name_of_ofName found]
      · exact nomatch Option.some_inj.mp h

/-- There is no command on an empty line. -/
theorem trim_ne_nil {s : SmashShell} {t : Text} {c : Command} (created : createCommand (s.resolveAlias (trim t)) = some c) : trim t ≠ [] := by
  intro empty
  rw [empty] at created
  cases created

/-- `createCommand` looks at the line without its blanks. -/
theorem createCommand_congr {r t : Text} (same : trim r = trim t) : createCommand r = createCommand t := by
  unfold createCommand
  rw [same]

/-- A line without operators that starts with the name of a built-in command. -/
theorem createCommand_of_args {s : Text} {b : BuiltIn} {args : List Text} (noBar : bar ∉ trim s) (noGt : gt ∉ trim s)
    (words : argsOf s = b.name :: args) : createCommand s = some (.builtIn b (trim s)) := by
  have nonempty : trim s ≠ [] := by
    intro empty
    have none : argsOf s = [] := by
      rw [argsOf, ← removeBackground_trim, empty]
      rfl
    rw [none] at words
    exact List.noConfusion rfl (heq_of_eq words)
  have pipeErr : find (lit "|&") (trim s) = none := find_eq_none (b := bar) (by decide) noBar
  have append : find (lit ">>") (trim s) = none := find_eq_none (b := gt) (by decide) noGt
  have words' : split (removeBackground s) = b.name :: args := words
  simp only [createCommand, clean_eq, if_neg nonempty, pipeErr, findSingle_eq_none noBar, append, findSingle_eq_none noGt,
    Option.isSome_none, Bool.false_eq_true, if_false, words', BuiltIn.ofName_name]

section Execute

variable (os : Os)

/-- What the child of an external command executes. -/
def programOf (effective : Text) : Program :=
  if isComplex effective then .bash effective else .exec (split effective)

/-- `ExternalCommand::execute`. -/
def externalCommand (cmdLine : Text) (isBackground : Bool) (w : World) : Outcome :=
  let effective := if isBackground then removeBackground cmdLine else trim cmdLine
  match w.fork os (.program (programOf effective)) with
  | .error e => .returned (w.tick.perror "smash error: fork failed" e)
  | .ok (pid, w) => if isBackground then w.addJob os pid cmdLine else .returned (w.foreground os pid effective)

/-- The two sides of an operator of `width` characters at `pos`. -/
def sides (trimmed : Text) (width pos : Nat) : Text × Text :=
  (trim (trimmed.take pos), trim (trimmed.drop (pos + width)))

/-- The command and the file of a redirection. -/
def redirectionSides (cmdLine : Text) (append : Bool) : Option (Text × Text) :=
  let trimmed := trim cmdLine
  if append then (find (lit ">>") trimmed).map (sides trimmed 2) else (findSingle gt gt trimmed).map (sides trimmed 1)

/-- `RedirectionCommand::execute`, in the shell. -/
def redirectionCommand (cmdLine : Text) (append : Bool) (w : World) : Outcome :=
  match redirectionSides cmdLine append with
  | none => .returned w
  | some (left, filename) =>
    let left := w.shell.resolveAlias left
    match w.fork os (.redirected filename append left) with
    | .error e => .returned (w.tick.perror "smash error: fork failed" e)
    | .ok (pid, w) => .returned (w.foreground os pid left)

/-- The commands of a pipe. -/
def pipeSides (cmdLine : Text) (stderrPipe : Bool) : Option (Text × Text) :=
  let trimmed := trim cmdLine
  if stderrPipe then (find (lit "|&") trimmed).map (sides trimmed 2) else (findSingle bar amp trimmed).map (sides trimmed 1)

/-- `PipeCommand::execute`, in the shell. When the second `fork` fails the first child is left alone. -/
def pipeCommand (cmdLine : Text) (stderrPipe : Bool) (w : World) : Outcome :=
  match pipeSides cmdLine stderrPipe with
  | none => .returned w
  | some (cmd1, cmd2) =>
    let cmd1 := w.shell.resolveAlias cmd1
    let cmd2 := w.shell.resolveAlias cmd2
    match (w.sys os).pipe with
    | some e => .returned (w.tick.perror "smash error: pipe failed" e)
    | none =>
      match w.tick.fork os (.piped stderrPipe cmd1) with
      | .error e => .returned (w.tick.tick.perror "smash error: fork failed" e)
      | .ok (pid1, w) =>
        match w.fork os (.reading cmd2) with
        | .error e => .returned (w.tick.perror "smash error: fork failed" e)
        | .ok (pid2, w) =>
          let w := { w with shell.fgPid := pid1 }
          let w := (w.waitpid os pid1).2
          let w := (w.waitpid os pid2).2
          .returned { w with shell.fgPid := -1, shell.fgCmd := [] }

/-- `execute` of any command. -/
def Command.execute (w : World) : Command → Outcome
  | .builtIn b cmdLine => b.execute os cmdLine w
  | .external cmdLine isBackground => externalCommand os cmdLine isBackground w
  | .pipe cmdLine stderrPipe => pipeCommand os cmdLine stderrPipe w
  | .redirection cmdLine append => redirectionCommand os cmdLine append w

/-- `executeCommand`. -/
def executeCommand (cmdLine : Text) (w : World) : Outcome :=
  let trimmed := trim cmdLine
  if trimmed = [] then .returned w
  else
    let w := w.removeFinishedJobs os
    match createCommand (w.shell.resolveAlias trimmed) with
    | none => .returned w
    | some cmd => cmd.execute os w

/-! ## Children -/

/-- A child that executes a program. -/
def World.exec (w : World) (p : Program) : World :=
  match (w.sys os).stdout p, p with
  | .ok text, _ => w.print text
  | .error e, .bash _ => w.perror "smash error: execv failed" e
  | .error e, .exec _ => w.perror "smash error: execvp failed" e

/-- The left side of an operator: bash, a built-in command, or a program. -/
def runLeft (left : Text) (w : World) : World :=
  if isComplex left then w.exec os (.bash left)
  else
    match split left with
    | [] => w.exec os (.exec [])
    | cmdName :: _ =>
      if SmashShell.isReservedKeyword cmdName then
        match createCommand left with
        | none => w
        | some cmd => (cmd.execute os w).world
      else w.exec os (.exec (split left))

/-- A child from its `fork` to its end. -/
def Spawn.run (s : Spawn) : World :=
  let w : World := ⟨s.shell, s.proc, [], [], [], []⟩
  match s.task with
  | .program p => w.exec os p
  | .redirected filename append left =>
    match (w.sys os).openOut filename append with
    | .error e => w.perror "smash error: open failed" e
    | .ok _ =>
      match (w.sys os).dup2 with
      | some e => w.perror "smash error: dup2 failed" e
      | none => runLeft os left { w.tick with proc.stdout := some (filename, append) }
  | .piped _ cmd1 =>
    match (w.sys os).dup2 with
    | some e => w.perror "smash error: dup2 failed" e
    | none => runLeft os cmd1 w.tick
  | .reading cmd2 =>
    match (w.sys os).dup2 with
    | some e => w.perror "smash error: dup2 failed" e
    | none => w.tick.exec os (programOf cmd2)

/-! ## Runs -/

/-- One round of the loop of `main`, with a line that `std::getline` has read. -/
def mainStep (line : Text) (w : World) : Outcome :=
  executeCommand os line (w.print (w.shell.prompt ++ lit "> "))

/-- A process that has just been started. -/
structure World.Starts (w : World) : Prop where
  shell : w.shell = SmashShell.start
  added : w.added = []

/-- The states between two lines of input. -/
inductive Reachable : World → Prop where
  | start {w : World} (fresh : w.Starts) : Reachable w
  | line {w w' : World} {line : Text} (reach : Reachable w) (noBreak : 10 ∉ line)
      (step : mainStep os line w = .returned w') : Reachable w'

end Execute

end OsProjects.Shell
