import OsProjects.Shell.Commands

/-!
# Numbers on a command line

`_isNumber` accepts digits of any length, with or without a sign; `std::stoi` throws for what
is no `int`. Nobody catches it, so a number that is accepted and too large ends the shell.
-/

namespace OsProjects.Shell

open CText

variable {os : Os} {w : World} {line cmdLine s id sig job : Text} {b : BuiltIn} {args : List Text}

/-- The number is an `int`. -/
def FitsInt (s : Text) : Prop := -2147483648 ≤ readInt s ∧ readInt s ≤ intMax

instance (s : Text) : Decidable (FitsInt s) := inferInstanceAs (Decidable (_ ∧ _))

/-- What `_isNumber` accepts: digits, after a sign or not. -/
theorem isNumber_iff : isNumber s = true ↔ ∃ ds, ds ≠ [] ∧ (∀ d ∈ ds, isDigit d = true) ∧ (s = ds ∨ s = 45 :: ds) := by
  cases s with
  | nil => simp [isNumber]
  | cons c rest =>
    by_cases sign : c = 45
    · subst sign
      simp only [isNumber, List.head?_cons, if_true, List.tail_cons, Bool.and_eq_true, Bool.not_eq_true', List.all_eq_true,
        List.isEmpty_eq_false_iff]
      constructor
      · rintro ⟨some, digits⟩
        exact ⟨rest, some, digits, .inr rfl⟩
      · rintro ⟨ds, some, digits, rfl | same⟩
        · exact absurd (digits 45 List.mem_cons_self) (by decide)
        · obtain rfl := (List.cons.inj same).2
          exact ⟨some, digits⟩
    · have noSign : (c :: rest).head? ≠ some 45 := by simpa using sign
      simp only [isNumber, if_neg noSign, Bool.and_eq_true, Bool.not_eq_true', List.all_eq_true, List.isEmpty_eq_false_iff]
      constructor
      · rintro ⟨some, digits⟩
        exact ⟨_, some, digits, .inl rfl⟩
      · rintro ⟨ds, some, digits, rfl | same⟩
        · exact ⟨some, digits⟩
        · exact absurd (List.cons.inj same).1 sign

theorem digit_ne {c d : UInt8} (digit : isDigit d = true) (low : c.toNat < 48) : d ≠ c := by
  rintro rfl
  have := digit_range digit
  omega

theorem strtol_digits {d : UInt8} (digit : isDigit d = true) (rest : Text) : strtol (d :: rest) = some (readNat (d :: rest) : Int) := by
  have start : (d :: rest).dropWhile isSpace = d :: rest := List.dropWhile_cons_of_neg (digit_not_space digit)
  have minus := digit_ne digit (show (45 : UInt8).toNat < 48 by decide)
  have plus := digit_ne digit (show (43 : UInt8).toNat < 48 by decide)
  simp [strtol, start, minus, plus, digit]

theorem strtol_minus {d : UInt8} (digit : isDigit d = true) (rest : Text) :
    strtol (45 :: d :: rest) = some (-(readNat (d :: rest) : Int)) := by
  have start : (45 :: d :: rest).dropWhile isSpace = 45 :: d :: rest := List.dropWhile_cons_of_neg (by decide)
  simp [strtol, start, digit]

/-- `strtol` reads all of an accepted number. -/
theorem strtol_of_isNumber (number : isNumber s = true) : strtol s = some (readInt s) := by
  obtain ⟨ds, some, digits, form⟩ := isNumber_iff.mp number
  cases ds with
  | nil => exact absurd rfl some
  | cons d rest =>
    have digit := digits d List.mem_cons_self
    rcases form with rfl | rfl
    · rw [strtol_digits digit, readInt, if_neg]
      simpa using digit_ne digit (show (45 : UInt8).toNat < 48 by decide)
    · rw [strtol_minus digit]
      rfl

/-- **`std::stoi` of an accepted number**: its value, if it is an `int`. -/
theorem stoi_of_isNumber (number : isNumber s = true) : stoi s = if FitsInt s then some (readInt s) else none := by
  rw [stoi, strtol_of_isNumber number]
  rfl

/-- The numbers that `fg` and `kill` convert are ints. -/
def Convertible (args : List Text) : BuiltIn → Prop
  | .fg => ∀ c id, args = [c, id] → isNumber id = true → id.head? ≠ some 45 → FitsInt id
  | .kill => ∀ c sig job, args = [c, sig, job] → sig.head? = some 45 → isNumber sig.tail = true → isNumber job = true →
      FitsInt sig.tail ∧ FitsInt job
  | _ => True

/-- The command returns to the loop of `main`. -/
def Outcome.Returns (o : Outcome) : Prop := ∃ w, o = .returned w

theorem returns_returned (w : World) : (Outcome.returned w).Returns := ⟨w, rfl⟩

theorem not_returns_aborted (w : World) : ¬(Outcome.aborted w).Returns := by
  rintro ⟨w', e⟩
  exact Outcome.noConfusion e

theorem foregroundCommand_returns_iff (os : Os) (cmdLine : Text) (w : World) :
    (foregroundCommand os cmdLine w).Returns ↔ Convertible (argsOf cmdLine) .fg := by
  unfold foregroundCommand Convertible
  generalize argsOf cmdLine = args
  by_cases many : 2 < args.length
  · simp only [if_pos many]
    refine ⟨fun _ c id eq => ?_, fun _ => returns_returned _⟩
    rw [eq] at many
    exact absurd many (by simp)
  · simp only [if_neg many]
    constructor
    · intro returns c id eq number plain
      by_contra large
      subst eq
      have throws : chooseJob [c, id] (w.removeFinishedJobs os).shell.jobs = .throws := by
        simp [chooseJob, number, plain, stoi_of_isNumber number, large]
      rw [throws] at returns
      exact not_returns_aborted _ returns
    · intro fits
      cases choice : chooseJob args (w.removeFinishedJobs os).shell.jobs with
      | job j => exact returns_returned _
      | refused message => exact returns_returned _
      | throws =>
        unfold chooseJob at choice
        split at choice
        · next c id rest =>
          obtain rfl : rest = [] := by simpa using many
          split_ifs at choice with bad
          have accepted : isNumber id = true ∧ id.head? ≠ some 45 := by simpa using bad
          obtain ⟨number, plain⟩ := accepted
          rw [stoi_of_isNumber number, if_pos (fits c id rfl number plain)] at choice
          simp only at choice
          split at choice
          · exact Choice.noConfusion choice
          · exact Choice.noConfusion choice
        · split at choice
          · exact Choice.noConfusion choice
          · exact Choice.noConfusion choice

theorem killCommand_returns_iff (os : Os) (cmdLine : Text) (w : World) :
    (killCommand os cmdLine w).Returns ↔ Convertible (argsOf cmdLine) .kill := by
  unfold killCommand Convertible
  generalize argsOf cmdLine = args
  constructor
  · intro returns c sig job eq minus number number'
    by_contra large
    subst eq
    have throws : stoi sig.tail = none ∨ stoi job = none := by
      rw [stoi_of_isNumber number, stoi_of_isNumber number']
      rcases not_and_or.mp large with large | large
      · exact .inl (if_neg large)
      · exact .inr (if_neg large)
    simp only [minus, number, number', ne_eq, not_true_eq_false, if_false, Bool.not_true, Bool.false_eq_true] at returns
    rcases throws with throws | throws
    · rw [throws] at returns
      exact not_returns_aborted _ returns
    · rw [throws] at returns
      cases converted : stoi sig.tail with
      | none =>
        rw [converted] at returns
        exact not_returns_aborted _ returns
      | some signum =>
        rw [converted] at returns
        exact not_returns_aborted _ returns
  · intro fits
    split
    · next c sig job =>
      split_ifs with minus number number'
      · exact returns_returned _
      · exact returns_returned _
      · exact returns_returned _
      · obtain ⟨signal, id⟩ := fits c sig job rfl (by simpa using minus) (by simpa using number) (by simpa using number')
        rw [stoi_of_isNumber (by simpa using number), stoi_of_isNumber (by simpa using number'), if_pos signal, if_pos id]
        simp only
        split
        · exact returns_returned _
        · split
          · exact returns_returned _
          · exact returns_returned _
    · exact returns_returned _

/-- The commands that the shell process executes itself and goes on after. -/
def localCommands : List BuiltIn := [.fg, .kill, .jobs, .alias', .unalias, .cd, .chprompt]

/-- One of these commands, by itself. -/
theorem execute_returns_iff (os : Os) (cmdLine : Text) (w : World) (isLocal : b ∈ localCommands) :
    (b.execute os cmdLine w).Returns ↔ Convertible (argsOf cmdLine) b := by
  have always : ∀ {o : Outcome}, o.Returns → (o.Returns ↔ True) := fun returns => iff_of_true returns trivial
  simp only [localCommands, List.mem_cons, List.not_mem_nil, or_false] at isLocal
  rcases isLocal with rfl | rfl | rfl | rfl | rfl | rfl | rfl
  · exact foregroundCommand_returns_iff os cmdLine w
  · exact killCommand_returns_iff os cmdLine w
  · exact always (returns_returned _)
  · apply always
    simp only [BuiltIn.execute, aliasCommand]
    split_ifs
    · exact returns_returned _
    · exact returns_returned _
    · exact returns_returned _
    · exact returns_returned _
  · apply always
    simp only [BuiltIn.execute, unaliasCommand]
    split
    · exact returns_returned _
    · exact returns_returned _
  · apply always
    simp only [BuiltIn.execute, changeDirCommand]
    split
    · exact returns_returned _
    · split
      · exact returns_returned _
      · exact returns_returned _
    · exact returns_returned _
  · apply always
    simp only [BuiltIn.execute, chpromptCommand]
    split
    · exact returns_returned _
    · exact returns_returned _

/-- **When a line returns to the shell**: the numbers it converts are ints. -/
theorem executeCommand_returns_iff (isLocal : b ∈ localCommands)
    (line_is : createCommand (w.shell.resolveAlias (trim line)) = some (.builtIn b cmdLine)) :
    (executeCommand os line w).Returns ↔ Convertible (argsOf cmdLine) b := by
  have nonempty := trim_ne_nil line_is
  have swept : createCommand ((w.removeFinishedJobs os).shell.resolveAlias (trim line)) = some (.builtIn b cmdLine) := line_is
  unfold executeCommand
  simp only [if_neg nonempty, swept, Command.execute]
  exact execute_returns_iff os cmdLine _ isLocal

/-- The largest `int` is a number for `kill`. -/
theorem executeCommand_returns_kill : (executeCommand (fun _ => calmSys) (lit "kill -9 2147483647") (World.startIn (lit "/"))).Returns ↔
    Convertible (argsOf (lit "kill -9 2147483647")) .kill :=
  executeCommand_returns_iff (by decide) rfl

/-- **A job number that is no `int`** ends the shell. -/
theorem fg_aborts : ¬∀ (os : Os) (w : World) (line cmdLine : Text) (b : BuiltIn), b ∈ localCommands →
    createCommand (w.shell.resolveAlias (trim line)) = some (.builtIn b cmdLine) → (executeCommand os line w).Returns := by
  intro claim
  have returns := claim (fun _ => calmSys) (World.startIn (lit "/")) (lit "fg 2147483648") (lit "fg 2147483648") .fg (by decide) rfl
  have aborts : ∃ w, executeCommand (fun _ => calmSys) (lit "fg 2147483648") (World.startIn (lit "/")) = .aborted w := ⟨_, rfl⟩
  obtain ⟨w, aborts⟩ := aborts
  rw [aborts] at returns
  exact not_returns_aborted w returns

end OsProjects.Shell
