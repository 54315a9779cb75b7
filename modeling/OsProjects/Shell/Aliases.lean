import OsProjects.Shell.Effects

/-!
# Aliases

The table of aliases in every run, and its listing. A definition goes through trimming,
alias resolution, the search for operators and the removal of `&` before `alias` parses
it; the line that `alias` prints for an entry passes all of them and is parsed to the
entry it came from (`executeCommand_define`).
-/

namespace OsProjects.Shell

open CText

variable {os : Os} {w w' : World} {s : SmashShell} {name value line t : Text}

/-! ## Definitions as text -/

/-- A name over `[a-zA-Z0-9_]`. -/
structure IsName (name : Text) : Prop where
  nonempty : name ≠ []
  chars : ∀ c ∈ name, isWordChar c = true

/-- What `alias` prints for an entry, without the line feed. -/
def entryText (name value : Text) : Text := name ++ lit "='" ++ value ++ lit "'"

/-- The line that defines an alias. -/
def definition (name value : Text) : Text := lit "alias " ++ entryText name value

theorem definition_eq (name value : Text) :
    definition name value = lit "alias" ++ 32 :: (name ++ 61 :: 39 :: (value ++ [39])) := by
  have : lit "alias " = lit "alias" ++ [32] := rfl
  simp only [definition, entryText, this, List.append_assoc, show lit "='" = [61, 39] from rfl,
    show lit "'" = [39] from rfl, List.cons_append, List.nil_append]

theorem mem_definition {b : UInt8} : b ∈ definition name value ↔ b ∈ lit "alias='" ∨ b = 32 ∨ b ∈ name ∨ b ∈ value := by
  rw [definition_eq]
  have : lit "alias='" = lit "alias" ++ [61, 39] := rfl
  simp only [this, List.mem_append, List.mem_cons, List.not_mem_nil, or_false]
  constructor
  · rintro (h | h | h | h | h | h | h) <;> simp [h]
  · rintro ((h | h | h) | h | h | h) <;> simp [h]

theorem trimmed_definition (name value : Text) : Trimmed (definition name value) := by
  rw [definition_eq]
  constructor
  · intro b mem
    obtain rfl : 97 = b := Option.some_inj.mp mem
    rfl
  · intro b mem
    rw [← List.cons_append, ← List.cons_append, ← List.append_assoc, ← List.cons_append, ← List.append_assoc,
      List.getLast?_concat] at mem
    obtain rfl : 39 = b := Option.some_inj.mp mem
    rfl

theorem wordChar_ne {c d : UInt8} (word : isWordChar c = true) (no : isWordChar d = false) : c ≠ d := by
  rintro rfl
  rw [word] at no
  exact Bool.noConfusion no

theorem IsName.not_mem (h : IsName name) {d : UInt8} (no : isWordChar d = false) : d ∉ name :=
  fun mem => wordChar_ne (h.chars d mem) no rfl

/-- A name ends at the `=`. -/
theorem IsName.takeWhile (h : IsName name) (rest : Text) :
    (name ++ 61 :: rest).takeWhile isWordChar = name ∧ (name ++ 61 :: rest).dropWhile isWordChar = 61 :: rest := by
  constructor
  · rw [List.takeWhile_append_of_pos h.chars, List.takeWhile_cons_of_neg (by decide), List.append_nil]
  · rw [List.dropWhile_append_of_pos h.chars, List.dropWhile_cons_of_neg (by decide)]

/-- **The regular expression accepts exactly the definitions.** -/
theorem aliasFormat_iff : aliasFormat t = true ↔ ∃ name value, t = definition name value ∧ IsName name ∧ quote ∉ value := by
  constructor
  · intro format
    simp only [aliasFormat, Bool.and_eq_true, Bool.not_eq_true', beq_iff_eq, List.isPrefixOf_iff_prefix] at format
    obtain ⟨⟨⟨⟨⟨rest, rfl⟩, some⟩, ⟨tail, opening⟩⟩, closing⟩, plain⟩ := format
    have six : (lit "alias " ++ rest).drop 6 = rest := rfl
    rw [six] at some opening closing plain
    have cut : (rest.dropWhile isWordChar).drop 2 = tail := by
      rw [← opening]
      rfl
    rw [cut] at closing plain
    obtain ⟨value, rfl⟩ : ∃ value, tail = value ++ [quote] := ⟨tail.dropLast, (List.dropLast_append_getLast? _ closing).symm⟩
    rw [List.dropLast_concat] at plain
    refine ⟨rest.takeWhile isWordChar, value, ?_, ⟨?_, fun c mem => List.mem_takeWhile_imp mem⟩, ?_⟩
    · have whole : rest = rest.takeWhile isWordChar ++ rest.dropWhile isWordChar := List.takeWhile_append_dropWhile.symm
      rw [← opening] at whole
      conv_lhs => rw [whole]
      simp only [definition, entryText, List.append_assoc]
      rfl
    · exact fun e => by simp [e] at some
    · simpa using plain
  · rintro ⟨name, value, rfl, isName, plain⟩
    have six : (definition name value).drop 6 = name ++ 61 :: 39 :: (value ++ [39]) := by
      rw [definition_eq]
      rfl
    obtain ⟨take, drop⟩ := isName.takeWhile (39 :: (value ++ [39]))
    have pre : (lit "alias ").isPrefixOf (definition name value) = true :=
      List.isPrefixOf_iff_prefix.mpr (List.prefix_append _ _)
    have nonempty : name.isEmpty = false := by
      rw [List.isEmpty_eq_false_iff]
      exact isName.nonempty
    simp only [aliasFormat, six, take, drop, pre, nonempty]
    have opening : (lit "='").isPrefixOf (61 :: 39 :: (value ++ [39])) = true := rfl
    have value' : (61 :: 39 :: (value ++ [39])).drop 2 = value ++ [quote] := rfl
    rw [opening, value', List.getLast?_concat, List.dropLast_concat]
    simpa using plain

/-- **Cutting a definition into its parts.** -/
theorem aliasParts_definition (isName : IsName name) (value : Text) :
    aliasParts (definition name value) = (name, value) := by
  have eq := definition_eq name value
  have blank : (definition name value).idxOf 32 = 5 := by
    rw [eq]
    rfl
  have equals : (definition name value).idxOf 61 = 6 + name.length := by
    have front : (61 : UInt8) ∉ lit "alias " ++ name := by
      intro mem
      rcases List.mem_append.mp mem with mem | mem
      · exact absurd mem (by decide)
      · exact isName.not_mem (by decide) mem
    have eq' : definition name value = (lit "alias " ++ name) ++ 61 :: 39 :: (value ++ [39]) := by
      rw [eq]
      simp only [List.append_assoc]
      rfl
    rw [eq', List.idxOf_append_of_notMem front, List.idxOf_cons_self, List.length_append]
    rfl
  have size : (definition name value).length = name.length + value.length + 9 := by
    rw [eq]
    simp only [List.length_append, List.length_cons, List.length_nil, show (lit "alias").length = 5 from rfl]
    omega
  have tail : (definition name value).drop (6 + name.length) = 61 :: 39 :: (value ++ [39]) := by
    rw [eq, ← List.drop_drop]
    exact List.drop_left
  have first : ((definition name value).drop (6 + name.length)).idxOf quote = 1 := by
    rw [tail]
    rfl
  have last : (definition name value).reverse.idxOf quote = 0 := by
    have eq' : definition name value = (lit "alias" ++ 32 :: (name ++ 61 :: 39 :: value)) ++ [39] := by
      rw [eq]
      simp only [List.append_assoc, List.cons_append]
    rw [eq', List.reverse_append]
    rfl
  have inner : (definition name value).drop (6 + name.length + 1 + 1) = value ++ [39] := by
    rw [Nat.add_assoc, ← List.drop_drop, tail]
    rfl
  have named : (definition name value).drop 6 = name ++ 61 :: 39 :: (value ++ [39]) := by
    rw [eq]
    rfl
  simp only [aliasParts, blank, equals, first, last, size, named, inner]
  refine Prod.ext ?_ ?_
  · simp only
    rw [show 6 + name.length - 5 - 1 = name.length by omega]
    exact List.take_left
  · simp only
    rw [show name.length + value.length + 9 - 1 - 0 - (6 + name.length + 1) - 1 = value.length by omega]
    exact List.take_left

/-! ## The table -/

/-- The names in `alias_order` are the keys of the table, without repetition; they are names and not reserved. The
values have no quote, and nothing that would have kept their definition from reaching `alias` on one line. -/
structure AliasOk (s : SmashShell) : Prop where
  nodup : s.aliasOrder.Nodup
  keys : ∀ name, name ∈ s.aliasOrder ↔ s.aliasExists name = true
  names : ∀ name ∈ s.aliasOrder, IsName name
  free : ∀ name ∈ s.aliasOrder, SmashShell.isReservedKeyword name = false
  values : ∀ name value, s.aliases name = some value → quote ∉ value ∧ 10 ∉ value ∧ bar ∉ value ∧ gt ∉ value

namespace AliasOk

theorem congr {s' : SmashShell} (h : AliasOk s) (aliases : s'.aliases = s.aliases)
    (order : s'.aliasOrder = s.aliasOrder) : AliasOk s' := by
  have exists' : ∀ name, s'.aliasExists name = s.aliasExists name := fun name => by
    unfold SmashShell.aliasExists
    rw [aliases]
  refine ⟨?_, fun name => ?_, ?_, ?_, ?_⟩
  · rw [order]
    exact h.nodup
  · rw [order, exists']
    exact h.keys name
  · rw [order]
    exact h.names
  · rw [order]
    exact h.free
  · rw [aliases]
    exact h.values

theorem start : AliasOk SmashShell.start where
  nodup := List.nodup_nil
  keys name := by simp [SmashShell.start, SmashShell.aliasExists]
  names name mem := absurd mem List.not_mem_nil
  free name mem := absurd mem List.not_mem_nil
  values name value e := nomatch e

theorem mem_of_alias (h : AliasOk s) (e : s.aliases name = some value) : name ∈ s.aliasOrder := by
  rw [h.keys, SmashShell.aliasExists, e]
  rfl

/-- A reserved word has no alias. -/
theorem reserved (h : AliasOk s) (reserved : SmashShell.isReservedKeyword name = true) : s.aliases name = none := by
  cases e : s.aliases name with
  | none => rfl
  | some value =>
    have := h.free name (h.mem_of_alias e)
    rw [reserved] at this
    exact Bool.noConfusion this

theorem addAlias (h : AliasOk s) (isName : IsName name) (free : SmashShell.isReservedKeyword name = false)
    (new : s.aliasExists name = false) (plain : quote ∉ value ∧ 10 ∉ value ∧ bar ∉ value ∧ gt ∉ value) :
    AliasOk (s.addAlias name value) := by
  have out : name ∉ s.aliasOrder := fun mem => by
    rw [h.keys, new] at mem
    exact Bool.noConfusion mem
  have cases : ∀ other, other ∈ (s.addAlias name value).aliasOrder → other ∈ s.aliasOrder ∨ other = name := fun other mem =>
    (List.mem_append.mp mem).imp_right List.mem_singleton.mp
  refine ⟨?_, fun other => ?_, fun other mem => ?_, fun other mem => ?_, fun other v e => ?_⟩
  · refine List.nodup_append.mpr ⟨h.nodup, List.nodup_singleton _, fun a ha b hb => ?_⟩
    rw [List.mem_singleton.mp hb]
    exact fun e => out (e ▸ ha)
  · change other ∈ s.aliasOrder ++ [name] ↔ (Function.update s.aliases name (some value) other).isSome = true
    by_cases e : other = name
    · rw [e, Function.update_self]
      simp
    · rw [Function.update_of_ne e, List.mem_append, h.keys]
      simp [e, SmashShell.aliasExists]
  · rcases cases other mem with mem | rfl
    · exact h.names other mem
    · exact isName
  · rcases cases other mem with mem | rfl
    · exact h.free other mem
    · exact free
  · change Function.update s.aliases name (some value) other = some v at e
    by_cases same : other = name
    · rw [same, Function.update_self] at e
      obtain rfl := Option.some_inj.mp e
      exact plain
    · rw [Function.update_of_ne same] at e
      exact h.values other v e

theorem removeAlias (h : AliasOk s) (name : Text) : AliasOk (s.removeAlias name) := by
  have sub : ∀ other, other ∈ (s.removeAlias name).aliasOrder → other ∈ s.aliasOrder := fun other mem =>
    List.mem_of_mem_filter mem
  refine ⟨h.nodup.filter _, fun other => ?_, fun other mem => h.names other (sub other mem),
    fun other mem => h.free other (sub other mem), fun other v e => ?_⟩
  · change other ∈ s.aliasOrder.filter (· ≠ name) ↔ (Function.update s.aliases name none other).isSome = true
    rw [List.mem_filter]
    by_cases e : other = name
    · rw [e, Function.update_self]
      simp
    · rw [Function.update_of_ne e, h.keys]
      simp [e, SmashShell.aliasExists]
  · change Function.update s.aliases name none other = some v at e
    by_cases same : other = name
    · rw [same, Function.update_self] at e
      exact nomatch e
    · rw [Function.update_of_ne same] at e
      exact h.values other v e

theorem unaliasLoop (h : AliasOk w.shell) (names : List Text) : AliasOk (unaliasLoop w names).shell := by
  induction names generalizing w with
  | nil => exact h
  | cons name names ih =>
    unfold Shell.unaliasLoop
    split_ifs
    · apply ih
      exact h.removeAlias name
    · exact h

/-- Every built-in command keeps the table in order: an accepted definition comes from one line without operators. -/
theorem effect (h : AliasOk w.shell) (effect : Effect os line w w') (noBar : bar ∉ line) (noGt : gt ∉ line)
    (noBreak : 10 ∉ line) : AliasOk w'.shell := by
  cases effect with
  | same same => exact h.congr same.aliases same.aliasOrder
  | swept same => exact h.congr same.aliases same.aliasOrder
  | taken j _ eq =>
    rw [eq]
    obtain ⟨aliases, order⟩ := World.foreground_aliases os { (w.removeFinishedJobs os).print _ with
      shell.jobs := removeJobById j.jobId (w.removeFinishedJobs os).shell.jobs } j.pid j.cmdLine
    exact h.congr aliases order
  | aliased format free new eq =>
    obtain ⟨name, value, parsed, isName, plain⟩ := aliasFormat_iff.mp format
    have from' : ∀ b ∈ value, b ∈ line := fun b mem =>
      mem_of_mem_removeBackground (parsed ▸ mem_definition.mpr (.inr (.inr (.inr mem))))
    rw [parsed, aliasParts_definition isName] at free new
    rw [eq, parsed, aliasParts_definition isName]
    exact h.addAlias isName free new ⟨plain, fun mem => noBreak (from' _ mem), fun mem => noBar (from' _ mem),
      fun mem => noGt (from' _ mem)⟩
  | unaliased names eq =>
    rw [eq]
    exact h.unaliasLoop names

/-- Resolving an alias brings in no line feed. -/
theorem resolveAlias (h : AliasOk s) (noBreak : 10 ∉ line) : 10 ∉ s.resolveAlias line := by
  unfold SmashShell.resolveAlias
  simp only
  split_ifs
  · exact noBreak
  · split
    · next value found =>
      intro mem
      rcases List.mem_append.mp mem with mem | mem
      · exact (h.values _ _ found).2.1 mem
      · exact noBreak (mem_of_mem_trim ((List.dropWhile_sublist _).subset mem))
    · exact noBreak

/-- **Every line keeps the table in order.** -/
theorem executeCommand (h : AliasOk w.shell) (noBreak : 10 ∉ line) (run : executeCommand os line w = .returned w') :
    AliasOk w'.shell := by
  simp only [Shell.executeCommand] at run
  split_ifs at run
  · obtain rfl := Outcome.returned.inj run
    exact h
  · split at run
    · obtain rfl := Outcome.returned.inj run
      exact h.congr rfl rfl
    · next cmd created =>
      cases cmd with
      | builtIn b cmdLine =>
        obtain ⟨eq, noBar, noGt, -⟩ := createCommand_builtIn created
        have noBreak' : 10 ∉ cmdLine := by
          rw [eq]
          intro mem
          refine h.resolveAlias (s := w.shell) ?_ (mem_of_mem_trim mem)
          exact fun mem => noBreak (mem_of_mem_trim mem)
        have swept : AliasOk (w.removeFinishedJobs os).shell := h.congr rfl rfl
        exact swept.effect (BuiltIn.effect run) noBar noGt noBreak'
      | external cmdLine isBackground =>
        obtain ⟨aliases, order⟩ := externalCommand_aliases run
        exact h.congr aliases order
      | pipe cmdLine stderrPipe =>
        obtain ⟨aliases, order⟩ := pipeCommand_aliases run
        exact h.congr aliases order
      | redirection cmdLine append =>
        obtain ⟨aliases, order⟩ := redirectionCommand_aliases run
        exact h.congr aliases order

end AliasOk

theorem Reachable.aliasOk (reach : Reachable os w) : AliasOk w.shell := by
  induction reach with
  | start started =>
    rw [started.shell]
    exact AliasOk.start
  | @line w w' line _ noBreak step ih =>
    have printed : AliasOk (w.print (w.shell.prompt ++ lit "> ")).shell := ih
    exact printed.executeCommand noBreak step

/-! ## The listing -/

theorem split_definition (name value : Text) : ∃ word rest, split (definition name value) = lit "alias" :: word :: rest := by
  have words : split (definition name value) =
      lit "alias" :: split (32 :: (name ++ 61 :: 39 :: (value ++ [39]))) := by
    rw [definition_eq]
    apply Words.words_word_append
    · exact fun c mem => isBlank_of_wordChar (BuiltIn.alias'.name_chars c mem)
    · decide
    · intro b mem
      obtain rfl : 32 = b := Option.some_inj.mp mem
      rfl
  cases eq : split (32 :: (name ++ 61 :: 39 :: (value ++ [39]))) with
  | nil =>
    have blank := Words.words_eq_nil.mp eq 61 (by simp)
    exact absurd blank (by decide)
  | cons word rest => exact ⟨word, rest, by rw [words, eq]⟩

theorem removeBackground_definition (name value : Text) : removeBackground (definition name value) = definition name value := by
  refine removeBackground_of_last (trimmed_definition name value) ?_
  have eq : definition name value = (lit "alias " ++ name ++ lit "='" ++ value) ++ [39] := by
    simp only [definition, entryText, List.append_assoc]
    rfl
  rw [eq, List.getLast?_concat]
  decide

/-- The first word of a definition is `alias`, which has no alias itself. -/
theorem resolveAlias_definition (h : AliasOk s) (name value : Text) :
    s.resolveAlias (definition name value) = definition name value := by
  have word : (definition name value).takeWhile (fun b => !SmashShell.endsWord b) = lit "alias" := by
    have inWord : ∀ c ∈ lit "alias", (!SmashShell.endsWord c) = true := by
      intro c mem
      rw [endsWord_of_wordChar (BuiltIn.alias'.name_chars c mem)]
      rfl
    rw [definition_eq, List.takeWhile_append_of_pos inWord, List.takeWhile_cons_of_neg (by decide), List.append_nil]
  have none : s.aliases (lit "alias") = none := h.reserved (by decide)
  unfold SmashShell.resolveAlias
  simp only [trim_of_trimmed (trimmed_definition name value), word, none, ite_self]

/-- **A definition on a line of its own** is carried out. -/
theorem executeCommand_define (os : Os) (h : AliasOk w.shell) (isName : IsName name)
    (free : SmashShell.isReservedKeyword name = false) (new : w.shell.aliasExists name = false)
    (plain : quote ∉ value) (noBar : bar ∉ value) (noGt : gt ∉ value) :
    executeCommand os (definition name value) w = .returned { w.removeFinishedJobs os with
      shell := (w.removeFinishedJobs os).shell.addAlias name value } := by
  have swept : AliasOk (w.removeFinishedJobs os).shell := h.congr rfl rfl
  have trimmed := trim_of_trimmed (trimmed_definition name value)
  have nonempty : definition name value ≠ [] := by
    rw [definition_eq]
    exact List.cons_ne_nil _ _
  have absent : ∀ {b : UInt8}, b ∉ lit "alias=' " → isWordChar b = false → b ∉ value → b ∉ definition name value := by
    intro b fixed notWord notValue mem
    rcases mem_definition.mp mem with mem | rfl | mem | mem
    · refine fixed ?_
      have : lit "alias=' " = lit "alias='" ++ [32] := rfl
      rw [this]
      exact List.mem_append_left _ mem
    · exact fixed (by decide)
    · exact isName.not_mem notWord mem
    · exact notValue mem
  obtain ⟨word, rest, words⟩ := split_definition name value
  have args : argsOf (definition name value) = BuiltIn.name .alias' :: word :: rest := by
    rw [argsOf, removeBackground_definition, words]
    rfl
  have created : createCommand (definition name value) = some (.builtIn .alias' (definition name value)) := by
    have := createCommand_of_args (s := definition name value) (b := .alias')
      (by rw [trimmed]; exact absent (by decide) (by decide) noBar)
      (by rw [trimmed]; exact absent (by decide) (by decide) noGt) args
    rwa [trimmed] at this
  have format : aliasFormat (definition name value) = true := aliasFormat_iff.mpr ⟨name, value, rfl, isName, plain⟩
  have new' : (w.removeFinishedJobs os).shell.aliasExists name = false := new
  simp only [executeCommand, trimmed, if_neg nonempty, resolveAlias_definition swept, created, Command.execute,
    BuiltIn.execute, aliasCommand, removeBackground_definition, words, List.length_cons, format,
    aliasParts_definition isName, free, new']
  simp

/-- Lines given to `executeCommand` one after the other, as long as the shell goes on. -/
def feed (os : Os) : List Text → World → Option World
  | [], w => some w
  | line :: lines, w =>
    match executeCommand os line w with
    | .returned w => feed os lines w
    | _ => none

/-- An entry that may be printed and read back. -/
structure IsEntry (name value : Text) : Prop where
  isName : IsName name
  free : SmashShell.isReservedKeyword name = false
  plain : quote ∉ value
  noBreak : 10 ∉ value
  noBar : bar ∉ value
  noGt : gt ∉ value

theorem AliasOk.isEntry (h : AliasOk s) (e : s.aliases name = some value) : IsEntry name value := by
  have mem := h.mem_of_alias e
  obtain ⟨plain, noBreak, noBar, noGt⟩ := h.values name value e
  exact ⟨h.names name mem, h.free name mem, plain, noBreak, noBar, noGt⟩

/-- Definitions of new names, one after the other. -/
theorem feed_definitions (os : Os) {values : Text → Text} {names : List Text} (h : AliasOk w.shell) (nodup : names.Nodup)
    (entries : ∀ name ∈ names, IsEntry name (values name)) (new : ∀ name ∈ names, w.shell.aliasExists name = false) :
    ∃ w', feed os (names.map fun name => definition name (values name)) w = some w' ∧
      w'.shell.aliasOrder = w.shell.aliasOrder ++ names ∧
      ∀ name, w'.shell.aliases name = if name ∈ names then some (values name) else w.shell.aliases name := by
  induction names generalizing w with
  | nil => exact ⟨w, rfl, (List.append_nil _).symm, fun name => (if_neg List.not_mem_nil).symm⟩
  | cons first names ih =>
    obtain ⟨out, nodup⟩ := List.nodup_cons.mp nodup
    have entry := entries first List.mem_cons_self
    have new' := new first List.mem_cons_self
    have step := executeCommand_define os h entry.isName entry.free new' entry.plain entry.noBar entry.noGt
    have ok : AliasOk ((w.removeFinishedJobs os).shell.addAlias first (values first)) := by
      apply AliasOk.addAlias
      · exact h.congr rfl rfl
      · exact entry.isName
      · exact entry.free
      · exact new'
      · exact ⟨entry.plain, entry.noBreak, entry.noBar, entry.noGt⟩
    obtain ⟨w', run, order, aliases⟩ := ih (w := { w.removeFinishedJobs os with
      shell := (w.removeFinishedJobs os).shell.addAlias first (values first) }) ok nodup
      (fun name mem => entries name (List.mem_cons_of_mem first mem)) fun name mem => by
        have other : name ≠ first := fun e => out (e ▸ mem)
        change (Function.update w.shell.aliases first (some (values first)) name).isSome = false
        rw [Function.update_of_ne other]
        exact new name (List.mem_cons_of_mem first mem)
    refine ⟨w', ?_, ?_, fun name => ?_⟩
    · rw [List.map_cons, feed, step]
      exact run
    · rw [order]
      exact List.append_assoc w.shell.aliasOrder [first] names
    · rw [aliases]
      change (if name ∈ names then _ else Function.update w.shell.aliases first (some (values first)) name) = _
      by_cases e : name = first
      · rw [e, if_neg out, Function.update_self, if_pos List.mem_cons_self]
      · rw [Function.update_of_ne e]
        simp [e]

/-- A text of complete lines, cut into its lines. -/
theorem getlines_flatten {lines : List Text} (noBreak : ∀ line ∈ lines, 10 ∉ line) :
    getlines 10 (lines.map (· ++ [10])).flatten = lines := by
  have cut : (lines.map (· ++ [10])).flatten.splitOn 10 = lines ++ [[]] := by
    induction lines with
    | nil => rfl
    | cons line lines ih =>
      rw [List.map_cons, List.flatten_cons, List.append_assoc, List.singleton_append,
        splitOn_line (noBreak line List.mem_cons_self), ih fun other mem => noBreak other (List.mem_cons_of_mem line mem)]
      rfl
  simp only [getlines, cut, List.getLast?_concat, List.dropLast_concat, if_true]

/-- The value of an alias. -/
def valueOf (s : SmashShell) (name : Text) : Text := (s.aliases name).getD []

theorem AliasOk.value_eq (h : AliasOk s) (mem : name ∈ s.aliasOrder) : s.aliases name = some (valueOf s name) := by
  rw [h.keys, SmashShell.aliasExists, Option.isSome_iff_exists] at mem
  obtain ⟨value, e⟩ := mem
  rw [Shell.valueOf, e]
  rfl

theorem AliasOk.listing (h : AliasOk s) : aliasListing s =
    ((s.aliasOrder.map fun name => entryText name (valueOf s name)).map (· ++ [10])).flatten := by
  unfold aliasListing
  rw [List.map_map]
  congr 1
  apply List.map_congr_left
  intro name mem
  rw [h.value_eq mem]
  simp only [Option.map_some, Option.getD_some, aliasLine, entryText, Function.comp_apply, List.append_assoc]
  rfl

/-- **The bare `alias` command** prints one line for each entry. -/
theorem executeCommand_listing (os : Os) (h : AliasOk w.shell) : executeCommand os (lit "alias") w =
    .returned ((w.removeFinishedJobs os).print
      ((w.shell.aliasOrder.map fun name => entryText name (valueOf w.shell name)).map (· ++ [10])).flatten) := by
  have swept : AliasOk (w.removeFinishedJobs os).shell := h.congr rfl rfl
  have word : trim (lit "alias") = lit "alias" := rfl
  have resolved : (w.removeFinishedJobs os).shell.resolveAlias (lit "alias") = lit "alias" := by
    have none : (w.removeFinishedJobs os).shell.aliases (lit "alias") = none := swept.reserved (by decide)
    have first : (lit "alias").takeWhile (fun b => !SmashShell.endsWord b) = lit "alias" := by decide
    unfold SmashShell.resolveAlias
    simp only [word, first, none, ite_self]
  have created : createCommand (lit "alias") = some (.builtIn .alias' (lit "alias")) := rfl
  have listing : aliasListing (w.removeFinishedJobs os).shell = aliasListing w.shell := rfl
  have single : (split (removeBackground (lit "alias"))).length = 1 := by decide
  simp only [executeCommand, word, show lit "alias" ≠ [] by decide, if_false, resolved, created, Command.execute,
    BuiltIn.execute, aliasCommand, single, if_true, listing, h.listing]

/-! ## Runs -/

/-- What the shell promises about its aliases. -/
structure AliasTable (s : SmashShell) : Prop where
  nodup : s.aliasOrder.Nodup
  keys : ∀ name, name ∈ s.aliasOrder ↔ s.aliasExists name = true
  names : ∀ name, s.aliasExists name = true → name ≠ [] ∧ (∀ c ∈ name, isWordChar c = true) ∧
    SmashShell.isReservedKeyword name = false
  values : ∀ name value, s.aliases name = some value → quote ∉ value

theorem AliasOk.table (h : AliasOk s) : AliasTable s where
  nodup := h.nodup
  keys := h.keys
  names name e := by
    have mem := (h.keys name).mpr e
    exact ⟨(h.names name mem).nonempty, (h.names name mem).chars, h.free name mem⟩
  values name value e := (h.values name value e).1

/-- **The table of aliases and its listing.** In every state between two lines the table is in order, and feeding the
lines that the bare `alias` command prints, each behind `alias`, to a fresh shell gives the same table in the same order. -/
theorem aliases_listed (reach : Reachable os w) : AliasTable w.shell ∧
    ∀ (os₁ os₂ : Os) (w₀ : World), w₀.shell = SmashShell.start → ∃ listed w₁,
      executeCommand os₁ (lit "alias") { w with out := [] } = .returned listed ∧
      feed os₂ ((getlines 10 listed.out).map (lit "alias " ++ ·)) w₀ = some w₁ ∧
      w₁.shell.aliases = w.shell.aliases ∧ w₁.shell.aliasOrder = w.shell.aliasOrder := by
  have h := reach.aliasOk
  refine ⟨h.table, fun os₁ os₂ w₀ fresh => ?_⟩
  have listing := executeCommand_listing os₁ (w := { w with out := [] }) h
  have entries : ∀ name ∈ w.shell.aliasOrder, IsEntry name (valueOf w.shell name) := fun name mem =>
    h.isEntry (h.value_eq mem)
  have start : AliasOk w₀.shell := fresh ▸ AliasOk.start
  have new : ∀ name ∈ w.shell.aliasOrder, w₀.shell.aliasExists name = false := fun name _ => by
    rw [fresh]
    rfl
  obtain ⟨w₁, run, order, aliases⟩ := feed_definitions os₂ start h.nodup entries new
  refine ⟨_, w₁, listing, ?_, ?_, ?_⟩
  · have lines : getlines 10 ([] ++ ((w.shell.aliasOrder.map fun name =>
        entryText name (valueOf w.shell name)).map (· ++ [10])).flatten) =
        w.shell.aliasOrder.map fun name => entryText name (valueOf w.shell name) := by
      rw [List.nil_append]
      apply getlines_flatten
      intro line mem
      obtain ⟨name, mem', rfl⟩ := List.mem_map.mp mem
      have entry := entries name mem'
      simp only [entryText, List.mem_append, not_or]
      exact ⟨⟨⟨entry.isName.not_mem (by decide), by decide⟩, entry.noBreak⟩, by decide⟩
    change feed os₂ ((getlines 10 ([] ++ ((w.shell.aliasOrder.map fun name =>
      entryText name (valueOf w.shell name)).map (· ++ [10])).flatten)).map (lit "alias " ++ ·)) w₀ = some w₁
    rw [lines, List.map_map]
    exact run
  · funext name
    rw [aliases, fresh]
    split_ifs with mem
    · exact (h.value_eq mem).symm
    · rw [h.keys, SmashShell.aliasExists] at mem
      exact (Option.not_isSome_iff_eq_none.mp mem).symm
  · rw [order, fresh]
    rfl

/-- Two aliases, one of them defined through the other. -/
theorem aliases_listed_two : ∃ w, Reachable (fun _ => calmSys) w ∧ w.shell.aliasOrder = [lit "a", lit "ll"] ∧
    w.shell.aliases (lit "ll") = some (lit "ls -l &") ∧ AliasTable w.shell := by
  have first : Reachable (fun _ => calmSys) _ := (Reachable.start (w := World.startIn (lit "/")) ⟨rfl, rfl⟩).line
    (by decide : 10 ∉ lit "alias a='alias'") rfl
  have second : Reachable (fun _ => calmSys) _ := first.line (by decide : 10 ∉ lit " a ll='ls -l &' & ") rfl
  exact ⟨_, second, by decide, by decide, (aliases_listed second).1⟩

end OsProjects.Shell
