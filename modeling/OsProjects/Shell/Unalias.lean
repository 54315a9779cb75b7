import OsProjects.Shell.Aliases

/-!
# Taking aliases back

`unalias` takes its names one after the other and stops at the first one that is no alias
(any more): the names before it are gone from the table, and nothing else is (`unalias_line`).
So definitions of new names, and one `unalias` of these names in any order, leave the
table as it was (`alias_undone`).
-/

namespace OsProjects.Shell

open CText

variable {os : Os} {w w' : World} {name value : Text} {names : List Text}

/-- A word of a line without operators. -/
structure IsPlain (name : Text) : Prop where
  nonempty : name ≠ []
  chars : ∀ c ∈ name, isBlank c = false ∧ c ≠ bar ∧ c ≠ gt ∧ c ≠ amp

theorem IsName.plain (h : IsName name) : IsPlain name where
  nonempty := h.nonempty
  chars c mem := by
    have word := h.chars c mem
    exact ⟨isBlank_of_wordChar word, wordChar_ne word (by decide), wordChar_ne word (by decide), wordChar_ne word (by decide)⟩

/-! ## The line -/

/-- The line that takes aliases back. -/
def unaliasLine (names : List Text) : Text := lit "unalias" ++ (names.map (32 :: ·)).flatten

theorem head_spaced (names : List Text) : ∀ x ∈ (names.map (32 :: ·)).flatten.head?, isBlank x = true := by
  cases names with
  | nil => exact fun x mem => nomatch mem
  | cons name names =>
    intro x mem
    obtain rfl : 32 = x := Option.some_inj.mp mem
    rfl

theorem split_spaced (plain : ∀ name ∈ names, IsPlain name) : split (names.map (32 :: ·)).flatten = names := by
  induction names with
  | nil => rfl
  | cons name names ih =>
    have first := plain name List.mem_cons_self
    have rest := ih fun other mem => plain other (List.mem_cons_of_mem name mem)
    rw [List.map_cons, List.flatten_cons]
    have blank : split (32 :: name ++ (names.map (32 :: ·)).flatten) = split (name ++ (names.map (32 :: ·)).flatten) :=
      Words.words_blanks_append (a := [32]) (by decide +kernel)
    have word : split (name ++ (names.map (32 :: ·)).flatten) = name :: split (names.map (32 :: ·)).flatten := by
      apply Words.words_word_append
      · exact fun c mem => (first.chars c mem).1
      · exact first.nonempty
      · exact head_spaced names
    rw [blank, word, rest]

theorem split_unaliasLine (plain : ∀ name ∈ names, IsPlain name) : split (unaliasLine names) = lit "unalias" :: names := by
  have word : split (unaliasLine names) = lit "unalias" :: split (names.map (32 :: ·)).flatten := by
    apply Words.words_word_append
    · exact fun c mem => isBlank_of_wordChar (BuiltIn.unalias.name_chars c mem)
    · decide
    · exact head_spaced names
  rw [word, split_spaced plain]

theorem mem_unaliasLine {b : UInt8} (mem : b ∈ unaliasLine names) : b ∈ lit "unalias" ∨ b = 32 ∨ ∃ name ∈ names, b ∈ name := by
  unfold unaliasLine at mem
  rcases List.mem_append.mp mem with mem | mem
  · exact .inl mem
  · obtain ⟨part, mem, inside⟩ := List.mem_flatten.mp mem
    obtain ⟨name, listed, rfl⟩ := List.mem_map.mp mem
    rcases List.mem_cons.mp inside with rfl | inside
    · exact .inr (.inl rfl)
    · exact .inr (.inr ⟨name, listed, inside⟩)

/-- There are no operators on the line, and no `&`. -/
theorem notMem_unaliasLine (plain : ∀ name ∈ names, IsPlain name) {b : UInt8} (operator : b = bar ∨ b = gt ∨ b = amp) :
    b ∉ unaliasLine names := by
  intro mem
  rcases mem_unaliasLine mem with fixed | rfl | ⟨name, mem, inside⟩
  · have word := BuiltIn.unalias.name_chars b fixed
    rcases operator with rfl | rfl | rfl
    · exact absurd word (by decide)
    · exact absurd word (by decide)
    · exact absurd word (by decide)
  · exact absurd operator (by decide)
  · obtain ⟨-, notBar, notGt, notAmp⟩ := (plain name mem).chars b inside
    rcases operator with rfl | rfl | rfl
    · exact notBar rfl
    · exact notGt rfl
    · exact notAmp rfl

theorem trimmed_unaliasLine (plain : ∀ name ∈ names, IsPlain name) : Trimmed (unaliasLine names) := by
  constructor
  · intro b mem
    obtain rfl : 117 = b := Option.some_inj.mp mem
    rfl
  · cases names using List.reverseRecOn with
    | nil => decide +kernel
    | append_singleton names last =>
      have word := plain last (List.mem_append_right _ List.mem_cons_self)
      have eq : unaliasLine (names ++ [last]) = (unaliasLine names ++ [32]) ++ last := by
        simp [unaliasLine]
      intro b mem
      rw [eq, List.getLast?_append_of_ne_nil _ word.nonempty] at mem
      exact (word.chars b (List.mem_of_mem_getLast? mem)).1

theorem removeBackground_unaliasLine (plain : ∀ name ∈ names, IsPlain name) :
    removeBackground (unaliasLine names) = unaliasLine names := by
  apply removeBackground_of_last (trimmed_unaliasLine plain)
  intro last
  exact notMem_unaliasLine plain (.inr (.inr rfl)) (List.mem_of_mem_getLast? last)

theorem resolveAlias_unaliasLine {s : SmashShell} (h : AliasOk s) (ne : names ≠ []) (plain : ∀ name ∈ names, IsPlain name) :
    s.resolveAlias (unaliasLine names) = unaliasLine names := by
  have word : (unaliasLine names).takeWhile (fun b => !SmashShell.endsWord b) = lit "unalias" := by
    have inWord : ∀ c ∈ lit "unalias", (!SmashShell.endsWord c) = true := by
      intro c mem
      rw [endsWord_of_wordChar (BuiltIn.unalias.name_chars c mem)]
      rfl
    obtain ⟨name, rest, rfl⟩ := List.exists_cons_of_ne_nil ne
    rw [unaliasLine, List.takeWhile_append_of_pos inWord, List.map_cons, List.flatten_cons, List.cons_append,
      List.takeWhile_cons_of_neg (by decide), List.append_nil]
  have none : s.aliases (lit "unalias") = none := h.reserved (by decide)
  unfold SmashShell.resolveAlias
  simp only [trim_of_trimmed (trimmed_unaliasLine plain), word, none, ite_self]

/-- The line is the built-in command. -/
theorem executeCommand_unalias (os : Os) (h : AliasOk w.shell) (ne : names ≠ []) (plain : ∀ name ∈ names, IsPlain name) :
    executeCommand os (unaliasLine names) w = .returned (unaliasLoop (w.removeFinishedJobs os) names) := by
  have swept : AliasOk (w.removeFinishedJobs os).shell := h.congr rfl rfl
  have trimmed := trim_of_trimmed (trimmed_unaliasLine plain)
  have nonempty : unaliasLine names ≠ [] := List.cons_ne_nil _ _
  have args : argsOf (unaliasLine names) = BuiltIn.name .unalias :: names := by
    rw [argsOf, removeBackground_unaliasLine plain, split_unaliasLine plain]
    rfl
  have created : createCommand (unaliasLine names) = some (.builtIn .unalias (unaliasLine names)) := by
    have command := createCommand_of_args (s := unaliasLine names) (b := .unalias)
      (by rw [trimmed]; exact notMem_unaliasLine plain (.inl rfl))
      (by rw [trimmed]; exact notMem_unaliasLine plain (.inr (.inl rfl))) args
    rwa [trimmed] at command
  obtain ⟨name, rest, rfl⟩ := List.exists_cons_of_ne_nil ne
  simp only [executeCommand, trimmed, if_neg nonempty, resolveAlias_unaliasLine swept ne plain, created, Command.execute,
    BuiltIn.execute, unaliasCommand, args]

/-! ## The loop -/

/-- The table without some of its names. -/
def SmashShell.without (done : List Text) (s : SmashShell) : SmashShell :=
  { s with
    aliases := fun name => if name ∈ done then none else s.aliases name
    aliasOrder := s.aliasOrder.filter fun name => name ∉ done }

/-- The aliases that `unalias` takes back: those named before the first name that is no alias, or no longer. -/
inductive TakenBack (w w' : World) (names : List Text) : Prop where
  | all (nodup : names.Nodup) (known : ∀ name ∈ names, w.shell.aliasExists name = true)
      (shell : w'.shell = w.shell.without names) (err : w'.err = w.err) : TakenBack w w' names
  | stopped (done : List Text) (bad : Text) (more : List Text) (split : names = done ++ bad :: more) (nodup : done.Nodup)
      (known : ∀ name ∈ done, w.shell.aliasExists name = true) (missing : bad ∈ done ∨ w.shell.aliasExists bad = false)
      (shell : w'.shell = w.shell.without done)
      (err : w'.err = w.err ++ (lit "smash error: unalias: " ++ bad ++ lit " alias does not exist\n")) : TakenBack w w' names

theorem SmashShell.without_nil (s : SmashShell) : s.without [] = s := by
  simp [SmashShell.without]

theorem SmashShell.without_cons (s : SmashShell) (name : Text) (done : List Text) :
    (s.removeAlias name).without done = s.without (name :: done) := by
  have aliases : ∀ other, (if other ∈ done then none else Function.update s.aliases name none other) =
      if other ∈ name :: done then none else s.aliases other := by
    intro other
    by_cases same : other = name
    · rw [same, Function.update_self, ite_self, if_pos List.mem_cons_self]
    · rw [Function.update_of_ne same]
      simp [same]
  have order : (s.aliasOrder.filter (· ≠ name)).filter (fun other => other ∉ done) =
      s.aliasOrder.filter fun other => other ∉ name :: done := by
    rw [List.filter_filter]
    apply List.filter_congr
    intro other _
    simp [Bool.and_comm]
  unfold SmashShell.without SmashShell.removeAlias
  simp only [order]
  congr 1
  funext other
  exact aliases other

theorem SmashShell.exists_without {s : SmashShell} {name other : Text} :
    (s.removeAlias name).aliasExists other = true ↔ other ≠ name ∧ s.aliasExists other = true := by
  unfold aliasExists removeAlias
  by_cases same : other = name
  · simp [same]
  · simp [same]

/-- **The loop of `unalias`.** -/
theorem unaliasLoop_takenBack (w : World) (names : List Text) : TakenBack w (unaliasLoop w names) names := by
  induction names generalizing w with
  | nil => exact .all List.nodup_nil (fun _ mem => absurd mem List.not_mem_nil) w.shell.without_nil.symm rfl
  | cons name names ih =>
    unfold unaliasLoop
    split_ifs with known
    · have others : ∀ {done : List Text}, (∀ other ∈ done, (w.shell.removeAlias name).aliasExists other = true) →
          name ∉ done ∧ ∀ other ∈ name :: done, w.shell.aliasExists other = true := by
        intro done all
        refine ⟨fun mem => (SmashShell.exists_without.mp (all name mem)).1 rfl, fun other mem => ?_⟩
        rcases List.mem_cons.mp mem with rfl | mem
        · exact known
        · exact (SmashShell.exists_without.mp (all other mem)).2
      cases ih { w with shell := w.shell.removeAlias name } with
      | all nodup all shell err =>
        obtain ⟨out, all'⟩ := others all
        refine .all (List.nodup_cons.mpr ⟨out, nodup⟩) all' ?_ err
        rw [shell]
        exact w.shell.without_cons name names
      | stopped done bad more split nodup all missing shell err =>
        obtain ⟨out, all'⟩ := others all
        refine .stopped (name :: done) bad more (by rw [split]; rfl) (List.nodup_cons.mpr ⟨out, nodup⟩) all' ?_ ?_ err
        · rcases missing with mem | absent
          · exact .inl (List.mem_cons_of_mem name mem)
          · by_cases same : bad = name
            · exact .inl (same ▸ List.mem_cons_self)
            · right
              rw [Bool.eq_false_iff] at absent ⊢
              exact fun found => absent (SmashShell.exists_without.mpr ⟨same, found⟩)
        · rw [shell]
          exact w.shell.without_cons name done
    · refine .stopped [] name names rfl List.nodup_nil (fun _ mem => absurd mem List.not_mem_nil) ?_ w.shell.without_nil.symm rfl
      exact .inr (Bool.eq_false_iff.mpr known)

theorem unaliasLoop_silent (w : World) (names : List Text) : (unaliasLoop w names).out = w.out := by
  induction names generalizing w with
  | nil => rfl
  | cons name names ih =>
    unfold unaliasLoop
    split_ifs
    · exact ih _
    · rfl

/-! ## In every run -/

/-- **`unalias` in every state.** The names before the first one that is no alias, or that has been given before, are gone;
the rest of the table is as it was, in its order, and the first bad name is reported. -/
theorem unalias_line (reach : Reachable os w) (os' : Os) (ne : names ≠ []) (plain : ∀ name ∈ names, IsPlain name) :
    ∃ w', executeCommand os' (unaliasLine names) w = .returned w' ∧ w'.out = w.out ∧
      TakenBack (w.removeFinishedJobs os') w' names :=
  ⟨_, executeCommand_unalias os' reach.aliasOk ne plain, unaliasLoop_silent _ names, unaliasLoop_takenBack _ names⟩

/-- The second name is no alias. -/
theorem unalias_line_unknown : ∃ w w', Reachable (fun _ => calmSys) w ∧ w.shell.aliasOrder = [lit "ll"] ∧
    executeCommand (fun _ => calmSys) (unaliasLine [lit "ll", lit "la"]) w = .returned w' ∧
    TakenBack (w.removeFinishedJobs fun _ => calmSys) w' [lit "ll", lit "la"] := by
  have reach : Reachable (fun _ => calmSys) _ := (Reachable.start (w := World.startIn (lit "/")) ⟨rfl, rfl⟩).line
    (by decide : 10 ∉ lit "alias ll='ls -l'") rfl
  have words : ∀ name ∈ [lit "ll", lit "la"], name ≠ [] ∧ ∀ c ∈ name, isWordChar c = true := by decide +kernel
  have plain : ∀ name ∈ [lit "ll", lit "la"], IsPlain name := fun name mem =>
    IsName.plain ⟨(words name mem).1, (words name mem).2⟩
  obtain ⟨w', run, -, taken⟩ := unalias_line reach (fun _ => calmSys) (List.cons_ne_nil _ _) plain
  exact ⟨_, w', reach, by decide, run, taken⟩

/-! ## Definitions and their undoing -/

theorem IsEntry.noBreak_definition (entry : IsEntry name value) : 10 ∉ definition name value := by
  intro mem
  rcases mem_definition.mp mem with fixed | blank | mem | mem
  · exact absurd fixed (by decide)
  · exact absurd blank (by decide)
  · exact entry.isName.not_mem (by decide) mem
  · exact entry.noBreak mem

theorem AliasOk.feed {lines : List Text} (h : AliasOk w.shell) (noBreak : ∀ line ∈ lines, 10 ∉ line)
    (run : feed os lines w = some w') : AliasOk w'.shell := by
  induction lines generalizing w with
  | nil =>
    obtain rfl := Option.some_inj.mp run
    exact h
  | cons line lines ih =>
    unfold Shell.feed at run
    split at run
    · next step =>
      exact ih (h.executeCommand (noBreak line List.mem_cons_self) step)
        (fun other mem => noBreak other (List.mem_cons_of_mem line mem)) run
    · exact nomatch run

theorem feed_append (os : Os) (lines : List Text) (line : Text) (w : World) : feed os (lines ++ [line]) w =
    (feed os lines w).bind fun w => feed os [line] w := by
  induction lines generalizing w with
  | nil => rfl
  | cons first lines ih =>
    simp only [List.cons_append, feed]
    split
    · exact ih _
    · rfl

/-- Distinct names that are all in the table are taken back. -/
theorem TakenBack.shell_eq (taken : TakenBack w w' names) (nodup : names.Nodup)
    (known : ∀ name ∈ names, w.shell.aliasExists name = true) : w'.shell = w.shell.without names := by
  cases taken with
  | all _ _ shell _ => exact shell
  | stopped done bad more split _ _ missing _ _ =>
    have mem : bad ∈ names := by
      rw [split]
      exact List.mem_append_right _ List.mem_cons_self
    rw [split] at nodup
    rcases missing with twice | absent
    · exact absurd rfl ((List.nodup_append.mp nodup).2.2 bad twice bad List.mem_cons_self)
    · rw [known bad mem] at absent
      exact Bool.noConfusion absent

/-- Names that were not in the table are out of it again. -/
theorem aliases_without {names' : List Text} {values : Text → Text} {s s₁ : SmashShell} (same : ∀ name, name ∈ names' ↔ name ∈ names)
    (new : ∀ name ∈ names, s.aliasExists name = false)
    (aliases : ∀ name, s₁.aliases name = if name ∈ names then some (values name) else s.aliases name) :
    (s₁.without names').aliases = s.aliases := by
  funext name
  change (if name ∈ names' then none else s₁.aliases name) = s.aliases name
  rw [aliases]
  by_cases mem : name ∈ names
  · have absent := new name mem
    unfold SmashShell.aliasExists at absent
    rw [if_pos ((same name).mpr mem)]
    exact (Option.not_isSome_iff_eq_none.mp (Bool.eq_false_iff.mp absent)).symm
  · rw [if_neg fun mem' => mem ((same name).mp mem'), if_neg mem]

theorem aliasOrder_without {names' : List Text} {s s₁ : SmashShell} (ok : AliasOk s) (same : ∀ name, name ∈ names' ↔ name ∈ names)
    (new : ∀ name ∈ names, s.aliasExists name = false) (order : s₁.aliasOrder = s.aliasOrder ++ names) :
    (s₁.without names').aliasOrder = s.aliasOrder := by
  have old : s.aliasOrder.filter (fun name => name ∉ names') = s.aliasOrder := by
    apply List.filter_eq_self.mpr
    intro name mem
    have found := (ok.keys name).mp mem
    apply decide_eq_true
    intro mem'
    rw [new name ((same name).mp mem')] at found
    exact Bool.noConfusion found
  have gone : names.filter (fun name => name ∉ names') = [] := by
    apply List.filter_eq_nil_iff.mpr
    intro name mem
    simpa using (same name).mpr mem
  change s₁.aliasOrder.filter (fun name => name ∉ names') = s.aliasOrder
  rw [order, List.filter_append, old, gone, List.append_nil]

/-- **Definitions can be undone.** In every reachable state, definitions of new names and then one `unalias` of the same
names, in whatever order, leave the aliases and their order as they were. -/
theorem alias_undone (reach : Reachable os w) (os' : Os) {values : Text → Text} {names' : List Text} (ne : names ≠ [])
    (nodup : names.Nodup) (entries : ∀ name ∈ names, IsEntry name (values name))
    (new : ∀ name ∈ names, w.shell.aliasExists name = false) (same : names'.Perm names) :
    ∃ w', feed os' (names.map (fun name => definition name (values name)) ++ [unaliasLine names']) w = some w' ∧
      w'.shell.aliases = w.shell.aliases ∧ w'.shell.aliasOrder = w.shell.aliasOrder := by
  obtain ⟨w₁, run, order, aliases⟩ := feed_definitions os' reach.aliasOk nodup entries new
  have ok : AliasOk w₁.shell := by
    refine reach.aliasOk.feed (fun line mem => ?_) run
    obtain ⟨name, listed, rfl⟩ := List.mem_map.mp mem
    exact (entries name listed).noBreak_definition
  have ne' : names' ≠ [] := by
    rintro rfl
    exact ne same.nil_eq.symm
  have plain : ∀ name ∈ names', IsPlain name := fun name mem => (entries name (same.subset mem)).isName.plain
  have known : ∀ name ∈ names', w₁.shell.aliasExists name = true := by
    intro name mem
    unfold SmashShell.aliasExists
    rw [aliases, if_pos (same.subset mem)]
    rfl
  have taken := (unaliasLoop_takenBack (w₁.removeFinishedJobs os') names').shell_eq (same.nodup_iff.mpr nodup) known
  refine ⟨unaliasLoop (w₁.removeFinishedJobs os') names', ?_, ?_, ?_⟩
  · rw [feed_append, run, Option.bind_some, feed, executeCommand_unalias os' ok ne' plain]
    rfl
  · rw [taken]
    exact aliases_without (fun _ => same.mem_iff) new aliases
  · rw [taken]
    exact aliasOrder_without reach.aliasOk (fun _ => same.mem_iff) new order

/-- Two aliases, taken back in the other order. -/
theorem alias_undone_two : ∃ w', feed (fun _ => calmSys) ([lit "a", lit "b"].map (fun name => definition name (lit "ls")) ++
      [unaliasLine [lit "b", lit "a"]]) (World.startIn (lit "/")) = some w' ∧ w'.shell.aliasOrder = [] := by
  have entries : ∀ name ∈ [lit "a", lit "b"], IsEntry name (lit "ls") := by
    have words : ∀ name ∈ [lit "a", lit "b"], name ≠ [] ∧ (∀ c ∈ name, isWordChar c = true) ∧
        SmashShell.isReservedKeyword name = false := by decide +kernel
    intro name mem
    obtain ⟨ne, chars, free⟩ := words name mem
    exact ⟨⟨ne, chars⟩, free, by decide, by decide, by decide, by decide⟩
  have reach : Reachable (fun _ => calmSys) (World.startIn (lit "/")) := .start ⟨rfl, rfl⟩
  obtain ⟨w', run, -, order⟩ := alias_undone reach (fun _ => calmSys) (List.cons_ne_nil _ _) (by decide) entries
    (fun _ _ => rfl) (List.Perm.swap (lit "a") (lit "b") [])
  exact ⟨w', run, order⟩

end OsProjects.Shell
