import OsProjects.Shell.Aliases
import OsProjects.Shell.Operators

/-!
# Aliases and operators

`executeCommand` resolves the first word of a whole line. When the line has an operator, its
command resolves the left side once more, so an alias whose value starts with another alias
is followed two steps with the operator and one step without it. A definition whose value has
an operator is such a line itself, and never reaches `alias`.
-/

namespace OsProjects.Shell

open CText

variable {os : Os} {w : World} {s : SmashShell} {op : Operator} {c f front t u tail value : Text}

/-! ## First words -/

/-- The characters of an alias's name. -/
def key (t : Text) : Text := t.takeWhile fun b => !SmashShell.endsWord b

theorem resolveAlias_of_none (none : s.aliases (key (trim t)) = none) : s.resolveAlias t = t := by
  unfold SmashShell.resolveAlias
  unfold key at none
  simp only [none, ite_self]

theorem resolveAlias_of_some (nonempty : trim t ≠ []) (some : s.aliases (key (trim t)) = some value) :
    s.resolveAlias t = value ++ (trim t).dropWhile fun b => !SmashShell.endsWord b := by
  unfold SmashShell.resolveAlias
  unfold key at some
  simp only [some, if_neg nonempty]

/-- An alias's name does not reach beyond a character that is not of a word. -/
theorem AliasOk.key_append (h : AliasOk s) (found : s.aliases (key (t ++ tail)) = some value)
    (stop : ∀ x ∈ tail.head?, isWordChar x = false) : key (t ++ tail) = key t ∧
      ((t ++ tail).dropWhile fun b => !SmashShell.endsWord b) =
        (t.dropWhile fun b => !SmashShell.endsWord b) ++ tail := by
  apply (Words.span_append (fun b => !SmashShell.endsWord b) t tail).resolve_right
  intro ⟨x, head, mem⟩
  have word := (h.names _ (h.mem_of_alias found)).chars x mem
  rw [stop x head] at word
  exact Bool.noConfusion word

theorem AliasOk.ne_nil_of_key (h : AliasOk s) (found : s.aliases (key t) = some value) : t ≠ [] := by
  rintro rfl
  exact (h.names _ (h.mem_of_alias found)).nonempty rfl

/-- A word ends where a character that ends words stands behind it. -/
theorem key_append_of_endsWord (ends : ∀ x ∈ tail.head?, SmashShell.endsWord x = true) : key (t ++ tail) = key t ∧
    ((t ++ tail).dropWhile fun b => !SmashShell.endsWord b) = (t.dropWhile fun b => !SmashShell.endsWord b) ++ tail := by
  apply (Words.span_append (fun b => !SmashShell.endsWord b) t tail).resolve_right
  intro ⟨x, head, mem⟩
  have runs := List.mem_takeWhile_imp mem
  rw [ends x head] at runs
  exact Bool.noConfusion runs

/-- The first word of `u` has no alias, or one that stands for itself. -/
def SmashShell.Settled (s : SmashShell) (u : Text) : Prop := ∀ value, s.aliases (key u) = some value → value = key u

theorem AliasOk.resolveAlias_eq_self (h : AliasOk s) (trimmed : Trimmed u) : s.resolveAlias u = u ↔ s.Settled u := by
  have eq := trim_of_trimmed trimmed
  unfold SmashShell.Settled
  cases found : s.aliases (key u) with
  | none =>
    apply iff_of_true
    · apply resolveAlias_of_none
      rw [eq, found]
    · exact fun value e => nomatch e
  | some value =>
    have nonempty := h.ne_nil_of_key found
    rw [← eq] at found nonempty
    have split : u = key u ++ u.dropWhile fun b => !SmashShell.endsWord b := List.takeWhile_append_dropWhile.symm
    rw [resolveAlias_of_some nonempty found, eq]
    constructor
    · intro same value' e
      obtain rfl := Option.some_inj.mp e
      conv_rhs at same => rw [split]
      exact List.append_cancel_right same
    · intro settled
      rw [settled value rfl]
      exact split.symm

/-- When the first word runs on into `tail`, there is nothing else in `t`. -/
theorem dropWhile_of_key_ne (ne : key (t ++ tail) ≠ key t) : (t.dropWhile fun b => !SmashShell.endsWord b) = [] := by
  unfold key at ne
  rw [List.takeWhile_append] at ne
  split_ifs at ne with whole
  · rw [← List.length_eq_zero_iff]
    have := congrArg List.length (List.takeWhile_append_dropWhile (p := fun b => !SmashShell.endsWord b) (l := t))
    rw [List.length_append] at this
    omega
  · exact absurd rfl ne

/-! ## What is executed -/

/-- The text that a line without an operator is executed as: it is trimmed, resolved and trimmed again. -/
def SmashShell.expand (s : SmashShell) (line : Text) : Text := trim (s.resolveAlias (trim line))

/-- What the left side of an operator is executed as. -/
def Command.left (s : SmashShell) : Command → Option Text
  | .builtIn _ _ | .external _ _ => none
  | .pipe cmdLine stderrPipe => (pipeSides cmdLine stderrPipe).map fun sides => s.resolveAlias sides.1
  | .redirection cmdLine append => (redirectionSides cmdLine append).map fun sides => s.resolveAlias sides.1

/-- The text that the left side of a line is executed as. -/
def SmashShell.expandLeft (s : SmashShell) (line : Text) : Option Text :=
  (createCommand (s.resolveAlias (trim line))).bind (Command.left s)

/-- A built-in command and an external one get the text that the line is expanded to. -/
theorem eq_expand_of_created (created : (∃ b, createCommand (s.resolveAlias (trim c)) = some (.builtIn b u)) ∨
    ∃ bg, createCommand (s.resolveAlias (trim c)) = some (.external u bg)) : u = s.expand c := by
  rcases created with ⟨b, created⟩ | ⟨bg, created⟩
  · exact (createCommand_builtIn created).1
  · simp only [createCommand] at created
    split_ifs at created
    · cases created
    · cases created
    · cases created
    · cases created
    all_goals
      split at created
      · cases created
      · split at created
        · cases created
        · exact (Command.external.inj (Option.some_inj.mp created)).1.symm

/-- The line of a left side in a child. -/
def Task.left : Task → Option Text
  | .redirected _ _ left => some left
  | .piped _ cmd1 => some cmd1
  | .program _ | .reading _ => none

theorem Operator.left_command (op : Operator) (s : SmashShell) (u : Text) :
    (op.command u).left s = (op.sidesOf u).map fun sides => s.resolveAlias sides.1 := by
  cases op with
  | write => rfl
  | append => rfl
  | pipe => rfl
  | pipeErr => rfl

theorem redirectionCommand_left (os : Os) (append : Bool) (w : World) : ∀ child ∈ (redirectionCommand os u append w).world.spawned,
    child ∈ w.spawned ∨ ∀ t, child.task.left = some t → (Command.redirection u append).left w.shell = some t := by
  intro child mem
  unfold redirectionCommand at mem
  cases sides : redirectionSides u append with
  | none =>
    rw [sides] at mem
    exact .inl mem
  | some both =>
    simp only [sides] at mem
    cases forked : w.fork os (.redirected both.2 append (w.shell.resolveAlias both.1)) with
    | error e =>
      rw [forked] at mem
      exact .inl mem
    | ok result =>
      obtain ⟨sp, task, spawned⟩ := World.fork_spawned forked
      simp only [forked, Outcome.world, World.foreground_spawned, spawned] at mem
      apply (List.mem_append.mp mem).imp_right
      intro mem t left
      rw [List.mem_singleton.mp mem, task] at left
      simp only [Command.left, sides, Option.map_some]
      exact left

theorem pipeCommand_left (os : Os) (stderrPipe : Bool) (w : World) : ∀ child ∈ (pipeCommand os u stderrPipe w).world.spawned,
    child ∈ w.spawned ∨ ∀ t, child.task.left = some t → (Command.pipe u stderrPipe).left w.shell = some t := by
  intro child mem
  unfold pipeCommand at mem
  cases sides : pipeSides u stderrPipe with
  | none =>
    rw [sides] at mem
    exact .inl mem
  | some both =>
    simp only [sides] at mem
    cases failed : (w.sys os).pipe with
    | some e =>
      rw [failed] at mem
      exact .inl mem
    | none =>
      simp only [failed] at mem
      cases forked : w.tick.fork os (.piped stderrPipe (w.shell.resolveAlias both.1)) with
      | error e =>
        rw [forked] at mem
        exact .inl mem
      | ok result =>
        obtain ⟨first, task, spawned⟩ := World.fork_spawned forked
        have one : ∀ sp ∈ result.2.spawned, sp ∈ w.spawned ∨ ∀ t, sp.task.left = some t →
            (Command.pipe u stderrPipe).left w.shell = some t := by
          intro sp mem
          rw [spawned] at mem
          apply (List.mem_append.mp mem).imp_right
          intro mem t left
          rw [List.mem_singleton.mp mem, task] at left
          simp only [Command.left, sides, Option.map_some]
          exact left
        simp only [forked] at mem
        cases forked' : result.2.fork os (.reading (w.shell.resolveAlias both.2)) with
        | error e =>
          rw [forked'] at mem
          exact one child mem
        | ok result' =>
          obtain ⟨second, task', spawned'⟩ := World.fork_spawned forked'
          simp only [forked', Outcome.world, World.waitpid_spawned, spawned'] at mem
          rcases List.mem_append.mp mem with mem | mem
          · exact one child mem
          · right
            intro t left
            rw [List.mem_singleton.mp mem, task'] at left
            exact nomatch left

/-- **The children of a command with an operator** execute its left side as `Command.left` says. -/
theorem Operator.execute_left (os : Os) (op : Operator) (u : Text) (w : World) :
    ∀ child ∈ ((op.command u).execute os w).world.spawned,
      child ∈ w.spawned ∨ ∀ t, child.task.left = some t → (op.command u).left w.shell = some t := by
  cases op with
  | write => exact redirectionCommand_left os false w
  | append => exact redirectionCommand_left os true w
  | pipe => exact pipeCommand_left os false w
  | pipeErr => exact pipeCommand_left os true w

/-- What ends words is kept when the first word is resolved. -/
theorem mem_resolveAlias {x : UInt8} (ends : SmashShell.endsWord x = true) (no : isBlank x = false) (mem : x ∈ u) :
    x ∈ s.resolveAlias (trim u) := by
  have inTrimmed : x ∈ trim u := Words.mem_trim_of_mem mem no
  unfold SmashShell.resolveAlias
  simp only [trim_trim, if_neg (List.ne_nil_of_mem inTrimmed)]
  split
  · apply List.mem_append_right
    rw [← List.takeWhile_append_dropWhile (p := fun b => !SmashShell.endsWord b) (l := trim u)] at inTrimmed
    apply (List.mem_append.mp inTrimmed).resolve_left
    intro inWord
    have runs := List.mem_takeWhile_imp inWord
    rw [ends] at runs
    exact Bool.noConfusion runs
  · exact inTrimmed

theorem pipe_left {stderrPipe : Bool} (left : (Command.pipe u stderrPipe).left s = some t) : ∃ front rest,
    trim u = front ++ bar :: rest ∧ t = s.resolveAlias (trim front) ∧ (stderrPipe = true → rest.head? = some amp) := by
  obtain ⟨both, sides, rfl⟩ := Option.map_eq_some_iff.mp left
  obtain ⟨front, rest, eq, first, next⟩ := pipeSides_some sides
  exact ⟨front, rest, eq, congrArg _ first, next⟩

theorem redirection_left {append : Bool} (left : (Command.redirection u append).left s = some t) : ∃ front rest,
    trim u = front ++ gt :: rest ∧ t = s.resolveAlias (trim front) ∧ (append = true → rest.head? = some gt) := by
  obtain ⟨both, sides, rfl⟩ := Option.map_eq_some_iff.mp left
  obtain ⟨front, rest, eq, first, next⟩ := redirectionSides_some sides
  exact ⟨front, rest, eq, congrArg _ first, next⟩

/-- When the operator is not the one that is found, it stands in the left side. -/
theorem Operator.Line.mem_left (l : op.Line front tail) (other : ¬op.Cuts tail)
    (left : (createCommand (front ++ (op.sign ++ tail))).bind (Command.left s) = some t) : bar ∈ t ∨ gt ∈ t := by
  have line := trim_of_trimmed l.trimmed
  -- a `|` behind a `>`
  have piped : ∀ {rest : Text}, front ++ (op.sign ++ tail) = front ++ gt :: rest → bar ∈ rest → gt ∈ t := by
    intro rest eq mem
    rw [eq] at line left
    have created : createCommand (front ++ gt :: rest) = _ :=
      createCommand_of_bar (by rw [line]; exact List.mem_append_right _ (List.mem_cons_of_mem _ mem))
    rw [created, line, Option.bind_some] at left
    obtain ⟨front', rest', cut, rfl, -⟩ := pipe_left left
    rw [line] at cut
    exact mem_resolveAlias rfl rfl (mem_of_cuts cut l.noBar fun e => absurd (List.cons.inj e).1 (by decide))
  cases op with
  | write =>
    by_cases barIn : bar ∈ tail
    · exact .inr (piped rfl barIn)
    · right
      simp only [Operator.sign] at line left
      have twice : [gt, gt] <:+: front ++ ([gt] ++ tail) := by
        have inTail : [gt, gt] <:+: tail := by
          by_contra no
          exact other ⟨barIn, no⟩
        exact inTail.trans ((List.suffix_append [gt] tail).isInfix.trans (List.suffix_append front _).isInfix)
      have noBar : bar ∉ front ++ ([gt] ++ tail) := by
        simp only [List.mem_append, List.mem_singleton, not_or]
        exact ⟨l.noBar, by decide, barIn⟩
      have created : createCommand (front ++ ([gt] ++ tail)) = _ :=
        createCommand_of_gt (by rw [line]; exact noBar) (by rw [line]; exact List.mem_append_right _ List.mem_cons_self)
      rw [line, find_isSome_iff.mpr twice] at created
      rw [created, Option.bind_some] at left
      obtain ⟨front', rest', cut, rfl, next⟩ := redirection_left left
      rw [line] at cut
      apply mem_resolveAlias rfl rfl
      apply mem_of_cuts cut l.noGt
      intro e
      rw [← (List.cons.inj e).2] at next
      exact l.next (by decide) (next rfl)
  | append =>
    have barIn : bar ∈ tail := by
      by_contra no
      exact other no
    exact .inr (piped rfl (List.mem_cons_of_mem gt barIn))
  | pipe =>
    apply Or.inl
    simp only [Operator.sign] at line left
    have pair : [bar, amp] <:+: front ++ ([bar] ++ tail) := by
      have inTail : [bar, amp] <:+: tail := by
        by_contra no
        exact other no
      exact inTail.trans ((List.suffix_append [bar] tail).isInfix.trans (List.suffix_append front _).isInfix)
    have created : createCommand (front ++ ([bar] ++ tail)) = _ :=
      createCommand_of_bar (by rw [line]; exact List.mem_append_right _ List.mem_cons_self)
    rw [line, find_isSome_iff.mpr pair] at created
    rw [created, Option.bind_some] at left
    obtain ⟨front', rest', cut, rfl, next⟩ := pipe_left left
    rw [line] at cut
    apply mem_resolveAlias rfl rfl
    apply mem_of_cuts cut l.noBar
    intro e
    rw [← (List.cons.inj e).2] at next
    exact l.next (by decide) (next rfl)
  | pipeErr => exact absurd trivial other

/-- The first word of a line with an operator is the first word of what stands before it. -/
theorem key_operator (op : Operator) (c f : Text) : key (trim (c ++ op.text ++ f)) = key (c.dropWhile isBlank) := by
  rw [trim_operator, List.dropWhile_append]
  split_ifs with empty
  · rw [List.isEmpty_iff.mp empty]
    exact (key_append_of_endsWord (op.endsWord_sign _)).1
  · rw [List.append_assoc]
    apply And.left
    apply key_append_of_endsWord
    intro x head
    obtain rfl : 32 = x := Option.some_inj.mp head
    rfl

/-- An alias that is found with the blanks behind it is the first word of `c`. -/
theorem AliasOk.key_dropWhile (h : AliasOk s) (found : s.aliases (key (c.dropWhile isBlank)) = some value) :
    key (c.dropWhile isBlank) = key (trim c) ∧ ∃ after, (∀ x ∈ after, isBlank x = true) ∧
      ((c.dropWhile isBlank).dropWhile fun b => !SmashShell.endsWord b) =
        ((trim c).dropWhile fun b => !SmashShell.endsWord b) ++ after := by
  have cut : c.dropWhile isBlank = trim c ++ (c.dropWhile isBlank).rtakeWhile isBlank :=
    (List.rdropWhile_append_rtakeWhile ..).symm
  have blanks : ∀ x ∈ (c.dropWhile isBlank).rtakeWhile isBlank, isBlank x = true := fun x => List.mem_rtakeWhile_imp
  rw [cut] at found
  obtain ⟨take, drop⟩ := h.key_append found fun x head => isWordChar_of_blank (blanks x (List.mem_of_mem_head? head))
  rw [← cut] at take drop
  exact ⟨take, _, blanks, drop⟩

/-- What stands before an operator behind `c` when the line has been resolved. -/
def SmashShell.leftSide (s : SmashShell) (c : Text) : Text :=
  match s.aliases (key (c.dropWhile isBlank)) with
  | none => trim c
  | some _ => trim (s.resolveAlias (trim c))

/-- The resolved line has the same operator behind the left side. -/
theorem AliasOk.resolveAlias_operator (h : AliasOk s) (op : Operator) (c f : Text) : ∃ r, trim r = s.leftSide c ∧
    (∀ x ∈ r, x = bar ∨ x = gt → x ∈ c) ∧
    trim (s.resolveAlias (trim (c ++ op.text ++ f))) = trim (r ++ op.text ++ f) := by
  unfold SmashShell.leftSide
  cases found : s.aliases (key (c.dropWhile isBlank)) with
  | none =>
    refine ⟨c, rfl, fun x mem _ => mem, ?_⟩
    rw [resolveAlias_of_none, trim_trim]
    rw [trim_trim, key_operator, found]
  | some value =>
    obtain ⟨same, after, blanks, drop⟩ := h.key_dropWhile found
    refine ⟨value ++ (c.dropWhile isBlank).dropWhile fun b => !SmashShell.endsWord b, ?_, ?_, ?_⟩
    · have found' : s.aliases (key (trim (trim c))) = some value := by rw [trim_trim, ← same, found]
      simp only
      rw [resolveAlias_of_some (h.ne_nil_of_key found') found', trim_trim, drop, ← List.append_assoc]
      exact Words.trim_append_blanks blanks
    · intro x mem operator
      obtain ⟨-, -, noBar, noGt⟩ := h.values _ _ found
      rcases List.mem_append.mp mem with mem | mem
      · rcases operator with rfl | rfl
        · exact absurd mem noBar
        · exact absurd mem noGt
      · exact (List.dropWhile_sublist _).subset ((List.dropWhile_sublist _).subset mem)
    · have line : trim (c ++ op.text ++ f) =
          c.dropWhile isBlank ++ (32 :: (op.sign ++ (32 :: f).rdropWhile isBlank)) := by
        rw [trim_operator, List.dropWhile_append, if_neg (by simpa using h.ne_nil_of_key found), List.append_assoc]
        rfl
      have ends : ∀ x ∈ (32 :: (op.sign ++ (32 :: f).rdropWhile isBlank)).head?, SmashShell.endsWord x = true := by
        intro x head
        obtain rfl : 32 = x := Option.some_inj.mp head
        rfl
      have found' : s.aliases (key (trim (trim (c ++ op.text ++ f)))) = some value := by
        rw [trim_trim, key_operator, found]
      rw [resolveAlias_of_some (h.ne_nil_of_key found') found', trim_trim, line, (key_append_of_endsWord ends).2,
        trim_operator, ← List.append_assoc]
      have again : ((32 :: f).rdropWhile isBlank).rdropWhile isBlank = (32 :: f).rdropWhile isBlank :=
        List.rdropWhile_idempotent ..
      have around : trim (value ++ ((c.dropWhile isBlank).dropWhile fun b => !SmashShell.endsWord b) ++ [32] ++ op.sign ++
          (32 :: f).rdropWhile isBlank) = _ := Words.trim_append_append op.sign_trimmed op.sign_ne_nil
      rw [again] at around
      simp only [List.append_assoc, List.singleton_append] at around ⊢
      exact around

/-- **The resolved line** is a command with the same operator, and the left side is resolved or not. -/
theorem AliasOk.createCommand_resolved (h : AliasOk s) (op : Operator) (noBar : bar ∉ c) (noGt : gt ∉ c)
    (cuts : op.Cuts f) :
    createCommand (s.resolveAlias (trim (c ++ op.text ++ f))) =
        some (op.command (trim (s.resolveAlias (trim (c ++ op.text ++ f))))) ∧
      op.sidesOf (trim (s.resolveAlias (trim (c ++ op.text ++ f)))) = some (s.leftSide c, trim f) := by
  obtain ⟨r, left, mem, same⟩ := h.resolveAlias_operator op c f
  have noBar' : bar ∉ r := fun inR => noBar (mem _ inR (.inl rfl))
  have noGt' : gt ∉ r := fun inR => noGt (mem _ inR (.inr rfl))
  obtain ⟨created, sides⟩ := createCommand_operator op noBar' noGt' cuts
  rw [createCommand_congr same, same, ← left]
  exact ⟨created, sides⟩

/-- With an operator the left side is resolved twice, the first time with the blanks behind it. -/
theorem AliasOk.expandLeft_operator (h : AliasOk s) (noBar : bar ∉ c) (noGt : gt ∉ c) (cuts : op.Cuts f) :
    s.expandLeft (c ++ op.text ++ f) = some (s.resolveAlias (s.leftSide c)) := by
  obtain ⟨created, sides⟩ := h.createCommand_resolved op noBar noGt cuts
  rw [SmashShell.expandLeft, created, Option.bind_some, op.left_command, sides]
  rfl

/-- When resolving twice is resolving once. In the last case the first pass misses the alias. -/
def SmashShell.ExpandsOnce (s : SmashShell) (c : Text) : Prop := ∀ value, s.aliases (key (trim c)) = some value →
  if key (c.dropWhile isBlank) = key (trim c) then
    s.Settled (trim (value ++ (trim c).dropWhile fun b => !SmashShell.endsWord b))
  else Trimmed value

/-- The second pass over the left side. -/
theorem AliasOk.resolveAlias_leftSide_iff (h : AliasOk s) : s.resolveAlias (s.leftSide c) = s.expand c ↔ s.ExpandsOnce c := by
  unfold SmashShell.ExpandsOnce SmashShell.expand SmashShell.leftSide
  cases found : s.aliases (key (c.dropWhile isBlank)) with
  | some value =>
    obtain ⟨same, -⟩ := h.key_dropWhile found
    rw [same] at found
    have found' : s.aliases (key (trim (trim c))) = some value := by rw [trim_trim, found]
    simp only
    rw [h.resolveAlias_eq_self (trimmed_trim _), resolveAlias_of_some (h.ne_nil_of_key found') found', trim_trim]
    simp only [found, same, if_true, Option.some_inj, forall_eq']
  | none =>
    simp only
    cases found' : s.aliases (key (trim c)) with
    | none =>
      apply iff_of_true
      · rw [resolveAlias_of_none (by rw [trim_trim, found']), trim_trim]
      · exact fun value e => nomatch e
    | some value =>
      -- the first pass sees a longer word
      have ne : key (c.dropWhile isBlank) ≠ key (trim c) := by
        intro same
        rw [same, found'] at found
        exact nomatch found
      have rest : ((trim c).dropWhile fun b => !SmashShell.endsWord b) = [] := by
        have cut : c.dropWhile isBlank = trim c ++ (c.dropWhile isBlank).rtakeWhile isBlank :=
          (List.rdropWhile_append_rtakeWhile ..).symm
        rw [cut] at ne
        exact dropWhile_of_key_ne ne
      have found'' : s.aliases (key (trim (trim c))) = some value := by rw [trim_trim, found']
      rw [resolveAlias_of_some (h.ne_nil_of_key found'') found'', trim_trim, rest, List.append_nil]
      simp only [ne, if_false, Option.some_inj, forall_eq']
      constructor
      · intro same
        exact same ▸ trimmed_trim value
      · exact fun trimmed => (trim_of_trimmed trimmed).symm

/-- Resolving brings in no operator. -/
theorem AliasOk.mem_of_mem_expand (h : AliasOk s) {x : UInt8} (mem : x ∈ s.expand c) (operator : x = bar ∨ x = gt) : x ∈ c := by
  have mem' : x ∈ s.resolveAlias (trim c) := mem_of_mem_trim mem
  unfold SmashShell.resolveAlias at mem'
  simp only [trim_trim] at mem'
  split_ifs at mem' with empty
  · exact mem_of_mem_trim mem'
  · split at mem'
    · next value found =>
      obtain ⟨-, -, noBar, noGt⟩ := h.values _ _ found
      rcases List.mem_append.mp mem' with inValue | inRest
      · rcases operator with rfl | rfl
        · exact absurd inValue noBar
        · exact absurd inValue noGt
      · exact mem_of_mem_trim ((List.dropWhile_sublist _).subset inRest)
    · exact mem_of_mem_trim mem'

/-- When another operator is found, the left side is another text: it has an operator in it. -/
theorem AliasOk.expandLeft_ne (h : AliasOk s) (noBar : bar ∉ c) (noGt : gt ∉ c) (other : ¬op.Cuts f) :
    s.expandLeft (c ++ op.text ++ f) ≠ some (s.expand c) := by
  intro same
  obtain ⟨r, -, mem, resolved⟩ := h.resolveAlias_operator op c f
  have noBar' : bar ∉ r := fun inR => noBar (mem _ inR (.inl rfl))
  have noGt' : gt ∉ r := fun inR => noGt (mem _ inR (.inr rfl))
  rw [SmashShell.expandLeft, createCommand_congr (resolved.trans (trim_trim _).symm), trim_operator] at same
  rcases (op.line noBar' noGt' f).mem_left (fun cuts => other (Operator.cuts_tail.mp cuts)) same with inText | inText
  · exact noBar (h.mem_of_mem_expand inText (.inl rfl))
  · exact noGt (h.mem_of_mem_expand inText (.inr rfl))

/-- **Aliases with an operator and without.** For every reachable table, a command with an operator behind it is
expanded to the text that it is expanded to alone exactly when the operator is the one at which the line is cut and the
second pass changes nothing. -/
theorem expandLeft_operator_iff (reach : Reachable os w) (noBar : bar ∉ c) (noGt : gt ∉ c) (op : Operator) (f : Text) :
    w.shell.expandLeft (c ++ op.text ++ f) = some (w.shell.expand c) ↔ op.Cuts f ∧ w.shell.ExpandsOnce c := by
  have h := reach.aliasOk
  by_cases cuts : op.Cuts f
  · rw [h.expandLeft_operator noBar noGt cuts, Option.some_inj, h.resolveAlias_leftSide_iff]
    exact (and_iff_right cuts).symm
  · exact iff_of_false (h.expandLeft_ne noBar noGt cuts) fun both => cuts both.1

/-- An alias behind which a pipe is put. -/
theorem expandLeft_operator_pipe : ∃ w, Reachable (fun _ => calmSys) w ∧ w.shell.aliasOrder = [lit "ll"] ∧
    w.shell.expandLeft (lit "ll x" ++ Operator.pipe.text ++ lit "wc") = some (w.shell.expand (lit "ll x")) := by
  have reach : Reachable (fun _ => calmSys) _ := (Reachable.start (w := World.startIn (lit "/")) ⟨rfl, rfl⟩).line
    (by decide : 10 ∉ lit "alias ll='ls -l'") rfl
  refine ⟨_, reach, by decide, (expandLeft_operator_iff reach (by decide) (by decide) .pipe _).mpr ⟨?_, ?_⟩⟩
  · exact (by decide : ¬[bar, amp] <:+: lit "wc")
  · intro value found
    obtain rfl : lit "ls -l" = value := Option.some_inj.mp found
    rw [if_pos (by decide)]
    intro value' found'
    exact nomatch found'

/-- **An alias of an alias.** With `a` for `b` and `b` for `c`, the line `a` executes `b`; with any operator behind it,
`a` executes `c`. -/
theorem alias_expanded_twice : ∃ w, Reachable (fun _ => calmSys) w ∧ w.shell.expand (lit "a") = lit "b" ∧
    ∀ op : Operator, w.shell.expandLeft (lit "a" ++ op.text ++ lit "f") = some (lit "c") := by
  have first : Reachable (fun _ => calmSys) _ := (Reachable.start (w := World.startIn (lit "/")) ⟨rfl, rfl⟩).line
    (by decide : 10 ∉ lit "alias a='b'") rfl
  have second : Reachable (fun _ => calmSys) _ := first.line (by decide : 10 ∉ lit "alias b='c'") rfl
  refine ⟨_, second, by decide, fun op => ?_⟩
  cases op <;> decide

/-! ## Definitions -/

/-- A line with a `|` is a pipe, and one with a `>` a redirection if it is no pipe. -/
theorem createCommand_of_mem (mem : bar ∈ trim u ∨ gt ∈ trim u) :
    (∃ stderrPipe, createCommand u = some (.pipe (trim u) stderrPipe)) ∨
      ∃ append, createCommand u = some (.redirection (trim u) append) := by
  by_cases barIn : bar ∈ trim u
  · exact .inl ⟨_, createCommand_of_bar barIn⟩
  · exact .inr ⟨_, createCommand_of_gt barIn (mem.resolve_left barIn)⟩

/-- The definition of `name` is carried out: the alias is new at the end of the list, and the others stay. -/
def Defines (os : Os) (name value : Text) (w : World) : Prop :=
  ∃ w', executeCommand os (definition name value) w = .returned w' ∧
    w'.shell.aliases = Function.update w.shell.aliases name (some value) ∧
    w'.shell.aliasOrder = w.shell.aliasOrder ++ [name]

variable {name : Text}

/-- A definition with an operator in its value does not reach `alias`. -/
theorem AliasOk.not_defines (h : AliasOk w.shell) (operator : bar ∈ value ∨ gt ∈ value)
    (new : w.shell.aliasExists name = false) : ¬Defines os name value w := by
  rintro ⟨w', run, aliases, -⟩
  have swept : AliasOk (w.removeFinishedJobs os).shell := h.congr rfl rfl
  have trimmed := trim_of_trimmed (trimmed_definition name value)
  have nonempty : definition name value ≠ [] := by
    rw [definition_eq]
    exact List.cons_ne_nil _ _
  have inLine : ∀ {x : UInt8}, x ∈ value → x ∈ trim (definition name value) := fun mem => by
    rw [trimmed]
    exact mem_definition.mpr (.inr (.inr (.inr mem)))
  have same : SameAliases (w.removeFinishedJobs os) w' := by
    simp only [Shell.executeCommand, trimmed, if_neg nonempty, resolveAlias_definition swept] at run
    rcases createCommand_of_mem (operator.imp inLine inLine) with ⟨stderrPipe, created⟩ | ⟨append, created⟩
    · rw [created] at run
      exact pipeCommand_aliases run
    · rw [created] at run
      exact redirectionCommand_aliases run
  have unchanged : w'.shell.aliases name = w.shell.aliases name := congrFun same.1 name
  have none : w.shell.aliases name = none := Option.not_isSome_iff_eq_none.mp (by
    rw [← Bool.not_eq_true] at new
    exact new)
  rw [aliases, Function.update_self, none] at unchanged
  cases unchanged

/-- **Which definitions take effect.** In every state between two lines, for every new name and every value that the
regular expression accepts, the definition is carried out exactly when there is no operator in the value. -/
theorem executeCommand_define_iff (reach : Reachable os w) (isName : IsName name)
    (free : SmashShell.isReservedKeyword name = false) (new : w.shell.aliasExists name = false) (plain : quote ∉ value) :
    Defines os name value w ↔ bar ∉ value ∧ gt ∉ value := by
  have h := reach.aliasOk
  constructor
  · intro defines
    constructor
    · exact fun mem => h.not_defines (.inl mem) new defines
    · exact fun mem => h.not_defines (.inr mem) new defines
  · intro ⟨noBar, noGt⟩
    exact ⟨_, executeCommand_define os h isName free new plain noBar noGt, rfl, rfl⟩

/-- `alias ll='ls -l & #'` in a fresh shell. -/
theorem executeCommand_define_ll : Defines (fun _ => calmSys) (lit "ll") (lit "ls -l & #") (World.startIn (lit "/")) ↔
    bar ∉ lit "ls -l & #" ∧ gt ∉ lit "ls -l & #" :=
  executeCommand_define_iff (.start ⟨rfl, rfl⟩) ⟨by decide, List.all_eq_true.mp (by decide)⟩ (by decide) rfl (by decide)

/-- **A definition that is lost**: `alias n='ls | wc'` is a pipe. -/
theorem piped_definition_lost : aliasFormat (definition (lit "n") (lit "ls | wc")) = true ∧
    ¬Defines (fun _ => calmSys) (lit "n") (lit "ls | wc") (World.startIn (lit "/")) := by
  constructor
  · decide
  · exact AliasOk.start.not_defines (.inl (by decide)) rfl

end OsProjects.Shell
