import OsProjects.Shell.BuiltIns

/-!
# `unsetenv`

A variable is looked up in `/proc/self/environ`, of which one `read` gets the first 65535 bytes:
the environment that the process was started with. It is removed from the array `__environ`, whose
pointers move up. Here the array has its null pointer and what stands behind it (`Cells`), and the
entries of `Process.environ` are what comes before the null pointer.
-/

namespace OsProjects.Shell

open CText

/-- The array `__environ`. -/
abbrev Cells := List (Option Text)

variable {w : World} {name pre entry : Text} {names environ initial before after : List Text} {cells junk : Cells}
  {block : Option Text} {n : Nat}

/-! ## The array -/

/-- The loop that moves the pointers up: `__environ[k] = __environ[k + 1]` until the null pointer. -/
def shiftUp : Cells → Cells
  | some _ :: next :: rest => next :: shiftUp (next :: rest)
  | cells => cells

/-- The loop that removes the first entry that starts with `pre`. -/
def removeEntry (pre : Text) : Cells → Cells
  | some entry :: rest => if pre.isPrefixOf entry then shiftUp (some entry :: rest) else some entry :: removeEntry pre rest
  | cells => cells

/-- What an entry for a variable starts with. -/
def opening (name : Text) : Text := name ++ lit "="

/-- One argument of `unsetenv`: the array behind it, and whether it is reported as missing. -/
def unsetenvArgument (block : Option Text) (cells : Cells) (name : Text) : Cells × Bool :=
  if envVarExists block name then (removeEntry (opening name) cells, false) else (cells, true)

/-- All arguments, up to the first that is missing. -/
def unsetenvArray (block : Option Text) : Cells → List Text → Cells × Option Text
  | cells, [] => (cells, none)
  | cells, name :: names =>
    match unsetenvArgument block cells name with
    | (cells, true) => (cells, some name)
    | (cells, false) => unsetenvArray block cells names

/-- The entries of an array. -/
def entries : Cells → List Text
  | some entry :: rest => entry :: entries rest
  | _ => []

@[simp] theorem entries_array (environ : List Text) (junk : Cells) : entries (environ.map some ++ none :: junk) = environ := by
  induction environ with
  | nil => rfl
  | cons entry environ ih => exact congrArg (entry :: ·) ih

theorem opening_ne_nil (name : Text) : opening name ≠ [] := by simp [opening, lit]

/-- **The pointers behind an entry move up**, and the null pointer with them. -/
theorem shiftUp_array (entry : Text) (after : List Text) (junk : Cells) :
    shiftUp (some entry :: (after.map some ++ none :: junk)) = after.map some ++ none :: none :: junk := by
  induction after generalizing entry with
  | nil =>
    rw [List.map_nil, List.nil_append, shiftUp]
    rfl
  | cons next after ih =>
    rw [List.map_cons, List.cons_append, shiftUp, ih]
    rfl

/-- Removing the first entry of a variable. -/
theorem removeEntry_first (found : pre <+: entry) (first : ∀ e ∈ before, ¬pre <+: e) :
    removeEntry pre ((before ++ entry :: after).map some ++ none :: junk) =
      (before ++ after).map some ++ none :: none :: junk := by
  induction before with
  | nil =>
    rw [List.nil_append, List.map_cons, List.cons_append, removeEntry, if_pos (List.isPrefixOf_iff_prefix.mpr found),
      shiftUp_array]
    rfl
  | cons e before ih =>
    have other : ¬pre.isPrefixOf e = true := fun pre' =>
      first e List.mem_cons_self (List.isPrefixOf_iff_prefix.mp pre')
    rw [List.cons_append, List.map_cons, List.cons_append, removeEntry, if_neg other,
      ih fun e mem => first e (List.mem_cons_of_mem _ mem)]
    rfl

theorem removeEntry_absent (absent : ∀ e ∈ environ, ¬pre <+: e) :
    removeEntry pre (environ.map some ++ none :: junk) = environ.map some ++ none :: junk := by
  induction environ with
  | nil => rfl
  | cons e environ ih =>
    have other : ¬pre.isPrefixOf e = true := fun pre' =>
      absent e List.mem_cons_self (List.isPrefixOf_iff_prefix.mp pre')
    rw [List.map_cons, List.cons_append, removeEntry, if_neg other, ih fun e mem => absent e (List.mem_cons_of_mem _ mem)]

/-- Either no entry is the variable's, or there is a first one. -/
theorem exists_first (pre : Text) (environ : List Text) : (∀ e ∈ environ, ¬pre <+: e) ∨
    ∃ before entry after, environ = before ++ entry :: after ∧ pre <+: entry ∧ ∀ e ∈ before, ¬pre <+: e := by
  induction environ with
  | nil => exact .inl fun e mem => absurd mem List.not_mem_nil
  | cons e environ ih =>
    by_cases here : pre <+: e
    · exact .inr ⟨[], e, environ, rfl, here, fun e mem => absurd mem List.not_mem_nil⟩
    · rcases ih with absent | ⟨before, entry, after, rfl, found, first⟩
      · exact .inl (List.forall_mem_cons.mpr ⟨here, absent⟩)
      · exact .inr ⟨e :: before, entry, after, rfl, found, List.forall_mem_cons.mpr ⟨here, first⟩⟩

/-- **The entries are those of the list** that the process has. -/
theorem removeEntry_eraseP (pre : Text) (environ : List Text) (junk : Cells) : ∃ junk',
    removeEntry pre (environ.map some ++ none :: junk) = (environ.eraseP pre.isPrefixOf).map some ++ none :: junk' := by
  rcases exists_first pre environ with absent | ⟨before, entry, after, rfl, found, first⟩
  · refine ⟨junk, ?_⟩
    rw [removeEntry_absent absent, List.eraseP_of_forall_not]
    exact fun e mem pre' => absent e mem (List.isPrefixOf_iff_prefix.mp pre')
  · refine ⟨none :: junk, ?_⟩
    rw [removeEntry_first found first, List.eraseP_append_right _ fun e mem pre' =>
      first e mem (List.isPrefixOf_iff_prefix.mp pre'), List.eraseP_cons_of_pos (List.isPrefixOf_iff_prefix.mpr found)]

/-- **The loop of `unsetenv` on the array** is its loop on the list of the process. -/
theorem unsetenvArray_refines (w : World) (names : List Text) (junk : Cells) : ∃ junk',
    (unsetenvArray w.proc.environBlock (w.proc.environ.map some ++ none :: junk) names).1 =
      (unsetenvLoop w names).proc.environ.map some ++ none :: junk' ∧
    (unsetenvLoop w names).err = w.err ++
      ((unsetenvArray w.proc.environBlock (w.proc.environ.map some ++ none :: junk) names).2.elim [] fun name =>
        lit "smash error: unsetenv: " ++ name ++ lit " does not exist\n") := by
  induction names generalizing w junk with
  | nil => exact ⟨junk, rfl, (List.append_nil _).symm⟩
  | cons name names ih =>
    unfold unsetenvLoop unsetenvArray unsetenvArgument
    split_ifs
    · obtain ⟨junk', removed⟩ := removeEntry_eraseP (opening name) w.proc.environ junk
      rw [removed]
      exact ih { w with proc.environ := w.proc.environ.eraseP (opening name).isPrefixOf } junk'
    · exact ⟨junk, rfl, rfl⟩

/-! ## The snapshot -/

/-- What `/proc/self/environ` shows of an environment. -/
def environText (initial : List Text) : Text := (initial.map (· ++ [0])).flatten

/-- One of the entries starts with `pre`, within the first `n` bytes. -/
def Shown (n : Nat) (pre : Text) (initial : List Text) : Prop :=
  ∃ before entry after, initial = before ++ entry :: after ∧ pre <+: entry ∧ (environText before).length + pre.length ≤ n

theorem environText_cons (entry : Text) (after : List Text) : environText (entry :: after) = entry ++ 0 :: environText after := by
  rw [environText, List.map_cons, List.flatten_cons, List.append_assoc]
  rfl

/-- Only the first entry is within reach. -/
theorem shown_first (short : n ≤ entry.length) : Shown n pre (entry :: after) ↔ pre <+: entry ∧ pre.length ≤ n := by
  constructor
  · rintro ⟨before, found, rest, eq, starts, within⟩
    cases before with
    | nil =>
      obtain ⟨rfl, -⟩ := List.cons.inj eq
      have none : (environText []).length = 0 := rfl
      exact ⟨starts, by omega⟩
    | cons e before =>
      obtain ⟨rfl, -⟩ := List.cons.inj eq
      rw [environText_cons, List.length_append, List.length_cons] at within
      omega
  · intro ⟨starts, within⟩
    refine ⟨[], entry, after, rfl, starts, ?_⟩
    have none : (environText []).length = 0 := rfl
    omega

/-- Behind the first entry. -/
theorem shown_cons : Shown (entry.length + 1 + n) pre (entry :: after) ↔ pre <+: entry ∨ Shown n pre after := by
  constructor
  · rintro ⟨before, found, rest, eq, starts, within⟩
    cases before with
    | nil =>
      obtain ⟨rfl, -⟩ := List.cons.inj eq
      exact .inl starts
    | cons e before =>
      obtain ⟨rfl, rfl⟩ := List.cons.inj eq
      rw [environText_cons, List.length_append, List.length_cons] at within
      exact .inr ⟨before, found, rest, rfl, starts, by omega⟩
  · rintro (starts | ⟨before, found, rest, rfl, starts, within⟩)
    · refine ⟨[], entry, after, rfl, starts, ?_⟩
      have none : (environText []).length = 0 := rfl
      have := starts.length_le
      omega
    · refine ⟨entry :: before, found, rest, rfl, starts, ?_⟩
      rw [environText_cons, List.length_append, List.length_cons]
      omega

theorem isPrefixOf_nil (ne : pre ≠ []) : pre.isPrefixOf [] = false := by
  cases pre with
  | nil => exact absurd rfl ne
  | cons x pre => rfl

theorem any_splitOn_nil (ne : pre ≠ []) : (([] : Text).splitOn 0).any pre.isPrefixOf = false := by
  have empty : ([] : Text).splitOn 0 = [[]] := rfl
  rw [empty, List.any_cons, isPrefixOf_nil ne]
  rfl

/-- The buffer's pieces show a variable when its `name=` lies within the buffer. -/
theorem any_splitOn_iff (ne : pre ≠ []) (noNul : ∀ e ∈ initial, 0 ∉ e) :
    (((environText initial).take n).splitOn 0).any pre.isPrefixOf = true ↔ Shown n pre initial := by
  induction initial generalizing n with
  | nil =>
    have empty : (environText []).take n = [] := List.take_nil
    rw [empty, any_splitOn_nil ne]
    constructor
    · exact fun found => Bool.noConfusion found
    · rintro ⟨before, entry, after, eq, -⟩
      simp at eq
  | cons entry initial ih =>
    have plain : 0 ∉ entry := noNul entry List.mem_cons_self
    have noNul' : ∀ e ∈ initial, 0 ∉ e := fun e mem => noNul e (List.mem_cons_of_mem entry mem)
    rcases Nat.lt_or_ge entry.length n with long | short
    · obtain ⟨m, rfl⟩ : ∃ m, n = entry.length + 1 + m := ⟨n - entry.length - 1, by omega⟩
      have cut : (environText (entry :: initial)).take (entry.length + 1 + m) =
          entry ++ 0 :: (environText initial).take m := by
        rw [environText_cons, Nat.add_assoc, List.take_length_add_append, Nat.add_comm, List.take_succ_cons]
      rw [cut, List.splitOn_append_cons_self_of_not_mem plain, List.any_cons, Bool.or_eq_true, ih noNul', shown_cons,
        List.isPrefixOf_iff_prefix]
    · have cut : (environText (entry :: initial)).take n = entry.take n := by
        rw [environText_cons, List.take_append_of_le_length short]
      have plain' : 0 ∉ entry.take n := fun mem => plain (List.mem_of_mem_take mem)
      rw [cut, List.splitOn_eq_singleton plain', shown_first short, List.any_cons, List.any_nil, Bool.or_false,
        List.isPrefixOf_iff_prefix, List.prefix_take_iff]

/-- The last piece does not matter when it is empty. -/
theorem any_getlines (ne : pre ≠ []) (text : Text) : (getlines 0 text).any pre.isPrefixOf = (text.splitOn 0).any pre.isPrefixOf := by
  simp only [getlines]
  split_ifs with last
  · obtain ⟨pieces, eq⟩ := List.getLast?_eq_some_iff.mp last
    rw [eq, List.dropLast_concat, List.any_append]
    simp [ne]
  · rfl

/-- The loop of `_envVarExists` over the buffer, with fuel for its iterations. -/
def environLoop (buf pre : Text) : Nat → Nat → Bool
  | 0, _ => false
  | fuel + 1, i =>
    if i < buf.length then
      let entry := cString (buf.drop i)
      if pre.isPrefixOf entry then true else environLoop buf pre fuel (i + entry.length + 1)
    else false

/-- The first piece is the string at the start of the buffer. -/
theorem any_splitOn_cString (ne : pre ≠ []) (text : Text) : (text.splitOn 0).any pre.isPrefixOf =
    (pre.isPrefixOf (cString text) || ((text.drop ((cString text).length + 1)).splitOn 0).any pre.isPrefixOf) := by
  have plain : 0 ∉ cString text := fun mem => by simpa using List.mem_takeWhile_imp mem
  have cut : text = cString text ++ text.dropWhile (· ≠ 0) := List.takeWhile_append_dropWhile.symm
  have stop := Words.head_dropWhile (fun x : UInt8 => x ≠ 0) text
  generalize cString text = first at *
  generalize text.dropWhile (· ≠ 0) = rest at *
  subst cut
  cases rest with
  | nil =>
    rw [List.append_nil, List.splitOn_eq_singleton plain, List.drop_eq_nil_of_le (Nat.le_succ _), any_splitOn_nil ne]
    rfl
  | cons x rest =>
    obtain rfl : x = 0 := by simpa using stop x rfl
    rw [List.splitOn_append_cons_self_of_not_mem plain, List.any_cons, ← List.drop_drop, List.drop_left]
    rfl

theorem environLoop_eq {buf : Text} {fuel i : Nat} (ne : pre ≠ []) (enough : buf.length < i + fuel) :
    environLoop buf pre fuel i = ((buf.drop i).splitOn 0).any pre.isPrefixOf := by
  induction fuel generalizing i with
  | zero =>
    rw [List.drop_eq_nil_of_le (by omega), any_splitOn_nil ne]
    rfl
  | succ fuel ih =>
    rcases Nat.lt_or_ge i buf.length with inside | ended
    · rw [environLoop, if_pos inside, any_splitOn_cString ne, List.drop_drop, ← Nat.add_assoc]
      have next := ih (i := i + (cString (buf.drop i)).length + 1) (by omega)
      cases found : pre.isPrefixOf (cString (buf.drop i)) with
      | true => simp only [found, if_true, Bool.true_or]
      | false => simp only [found, Bool.false_eq_true, if_false, Bool.false_or, next]
    · rw [environLoop, if_neg (by omega), List.drop_eq_nil_of_le ended, any_splitOn_nil ne]

/-- **`_envVarExists` is its loop** over what one `read` gets. -/
theorem envVarExists_loop (text name : Text) : envVarExists (some text) name =
    environLoop (text.take 65535) (opening name) ((text.take 65535).length + 1) 0 := by
  have ne := opening_ne_nil name
  rw [environLoop_eq ne (by omega), List.drop_zero, ← any_getlines ne]
  rfl

/-- **What `_envVarExists` finds**: a variable whose `name=` is within the first 65535 bytes. -/
theorem envVarExists_iff (noNul : ∀ e ∈ initial, 0 ∉ e) (name : Text) :
    envVarExists (some (environText initial)) name = true ↔ Shown 65535 (opening name) initial := by
  rw [← any_splitOn_iff (opening_ne_nil name) noNul, ← any_getlines (opening_ne_nil name)]
  rfl

/-! ## Runs -/

/-- The array is terminated, and holds some of the entries at the start in their order. -/
def Terminated (initial : List Text) (cells : Cells) : Prop :=
  ∃ (environ : List Text) (junk : Cells), cells = environ.map some ++ none :: junk ∧ environ.Sublist initial

/-- The arguments that a command processes, each with the array before it. -/
def processed (block : Option Text) : Cells → List Text → List (Cells × Text)
  | _, [] => []
  | cells, name :: names => (cells, name) ::
    match unsetenvArgument block cells name with
    | (_, true) => []
    | (cells, false) => processed block cells names

/-- The arguments that a run of commands processes. -/
def processedIn (block : Option Text) : Cells → List (List Text) → List (Cells × Text)
  | _, [] => []
  | cells, args :: commands => processed block cells args ++ processedIn block (unsetenvArray block cells args).1 commands

theorem Terminated.argument (h : Terminated initial cells) (block : Option Text) (name : Text) :
    Terminated initial (unsetenvArgument block cells name).1 := by
  obtain ⟨environ, junk, rfl, sub⟩ := h
  unfold unsetenvArgument
  split_ifs
  · obtain ⟨junk', removed⟩ := removeEntry_eraseP (opening name) environ junk
    exact ⟨_, junk', removed, List.eraseP_sublist.trans sub⟩
  · exact ⟨environ, junk, rfl, sub⟩

theorem Terminated.array (h : Terminated initial cells) (block : Option Text) (names : List Text) :
    Terminated initial (unsetenvArray block cells names).1 := by
  induction names generalizing cells with
  | nil => exact h
  | cons name names ih =>
    have step := h.argument block name
    rw [unsetenvArray]
    obtain ⟨cells', missing, result⟩ : ∃ cells' missing, unsetenvArgument block cells name = (cells', missing) := ⟨_, _, rfl⟩
    rw [result] at step ⊢
    cases missing with
    | true => exact step
    | false => exact ih step

theorem Terminated.processed (h : Terminated initial cells) (block : Option Text) (names : List Text) :
    ∀ p ∈ processed block cells names, Terminated initial p.1 := by
  induction names generalizing cells with
  | nil => exact fun p mem => absurd mem List.not_mem_nil
  | cons name names ih =>
    have step := h.argument block name
    intro p mem
    rw [Shell.processed] at mem
    rcases List.mem_cons.mp mem with rfl | mem
    · exact h
    · obtain ⟨cells', missing, result⟩ : ∃ cells' missing, unsetenvArgument block cells name = (cells', missing) :=
        ⟨_, _, rfl⟩
      rw [result] at step mem
      cases missing with
      | true => exact absurd mem List.not_mem_nil
      | false => exact ih step p mem

theorem terminated_start (initial : List Text) (junk : Cells) : Terminated initial (initial.map some ++ none :: junk) :=
  ⟨initial, junk, rfl, List.Sublist.refl initial⟩

/-- **The array stays terminated** over every run of commands. -/
theorem Terminated.processedIn (h : Terminated initial cells) (block : Option Text) (commands : List (List Text)) :
    ∀ p ∈ processedIn block cells commands, Terminated initial p.1 := by
  induction commands generalizing cells with
  | nil => exact fun p mem => absurd mem List.not_mem_nil
  | cons args commands ih =>
    intro p mem
    rcases List.mem_append.mp mem with mem | mem
    · exact h.processed block args p mem
    · exact ih (h.array block args) p mem

/-- The argument is processed as it should be: it is reported exactly when there is no entry for it, and otherwise its
first entry is removed, with the others in their order and the null pointer behind them. -/
inductive Consistent (block : Option Text) (cells : Cells) (name : Text) : Prop where
  | missing (none : ∀ e ∈ entries cells, ¬opening name <+: e)
      (reported : unsetenvArgument block cells name = (cells, true))
  | removed (before after : List Text) (entry : Text) (junk : Cells) (eq : entries cells = before ++ entry :: after)
      (found : opening name <+: entry) (first : ∀ e ∈ before, ¬opening name <+: e)
      (result : unsetenvArgument block cells name = ((before ++ after).map some ++ none :: junk, false))

/-- An entry for the variable is in the array. -/
def Present (cells : Cells) (name : Text) : Prop := ∃ e ∈ entries cells, opening name <+: e

/-- One argument: the snapshot and the array have to agree. -/
theorem Terminated.consistent_iff (h : Terminated initial cells) :
    Consistent block cells name ↔ (envVarExists block name = true ↔ Present cells name) := by
  obtain ⟨environ, junk, rfl, -⟩ := h
  unfold Present
  constructor
  · intro consistent
    cases consistent with
    | missing none reported =>
      apply iff_of_false
      · intro found
        rw [unsetenvArgument, if_pos found] at reported
        exact Bool.noConfusion (Prod.mk.inj reported).2
      · rintro ⟨e, mem, pre'⟩
        exact none e mem pre'
    | removed before after entry junk' eq found first result =>
      apply iff_of_true
      · by_contra unseen
        rw [unsetenvArgument, if_neg unseen] at result
        exact Bool.noConfusion (Prod.mk.inj result).2
      · refine ⟨entry, ?_, found⟩
        rw [eq]
        exact List.mem_append_right before List.mem_cons_self
  · rw [entries_array]
    intro agree
    rcases exists_first (opening name) environ with absent | ⟨before, entry, after, eq, found, first⟩
    · apply Consistent.missing
      · rwa [entries_array]
      · rw [unsetenvArgument, if_neg]
        intro seen
        obtain ⟨e, mem, pre'⟩ := agree.mp seen
        exact absent e mem pre'
    · have seen : envVarExists block name = true :=
        agree.mpr ⟨entry, by rw [eq]; exact List.mem_append_right before List.mem_cons_self, found⟩
      apply Consistent.removed before after entry (none :: junk)
      · rw [entries_array, eq]
      · exact found
      · exact first
      · rw [unsetenvArgument, if_pos seen, eq, removeEntry_first found first]

/-- **`unsetenv` over a run.** In every run of `unsetenv` commands from any environment, an argument is processed as it
should be exactly when the first 65535 bytes of the environment at the start and the current array agree on it. -/
theorem unsetenv_consistent_iff (initial : List Text) (noNul : ∀ e ∈ initial, 0 ∉ e) (junk : Cells) (commands : List (List Text)) :
    ∀ p ∈ processedIn (some (environText initial)) (initial.map some ++ none :: junk) commands,
      Consistent (some (environText initial)) p.1 p.2 ↔ (Shown 65535 (opening p.2) initial ↔ Present p.1 p.2) := by
  intro p mem
  have terminated := (terminated_start initial junk).processedIn _ commands p mem
  rw [terminated.consistent_iff, envVarExists_iff noNul]

/-- Two variables, removed one after the other. -/
theorem unsetenv_consistent_path : Consistent (some (environText [lit "PATH=/bin", lit "HOME=/root"]))
    [some (lit "PATH=/bin"), none, none] (lit "PATH") := by
  have step := unsetenv_consistent_iff [lit "PATH=/bin", lit "HOME=/root"] (by decide) []
    [[lit "HOME"], [lit "PATH"]] ([some (lit "PATH=/bin"), none, none], lit "PATH") (by decide)
  apply step.mpr
  apply iff_of_true
  · exact ⟨[], _, _, rfl, by decide, by decide⟩
  · exact ⟨_, List.mem_cons_self, by decide⟩

/-- **The same variable a second time**: the snapshot still has it, so it is not reported. -/
theorem unsetenv_twice : ∃ p ∈ processedIn (some (environText [lit "PATH=/bin", lit "HOME=/root"]))
    [some (lit "PATH=/bin"), some (lit "HOME=/root"), none] [[lit "HOME"], [lit "HOME"]],
    ¬Consistent (some (environText [lit "PATH=/bin", lit "HOME=/root"])) p.1 p.2 := by
  refine ⟨([some (lit "PATH=/bin"), none, none], lit "HOME"), by decide, fun consistent => ?_⟩
  cases consistent with
  | missing none reported => exact absurd reported (by decide)
  | removed before after entry junk eq found =>
    have only : entry ∈ entries [some (lit "PATH=/bin"), Option.none, Option.none] := by
      rw [eq]
      exact List.mem_append_right before List.mem_cons_self
    rw [List.mem_singleton.mp only] at found
    exact absurd found (by decide)

theorem shown_of_fits (fits : (environText initial).length ≤ n) : Shown n pre initial ↔ ∃ e ∈ initial, pre <+: e := by
  constructor
  · rintro ⟨before, entry, after, rfl, starts, -⟩
    exact ⟨entry, List.mem_append_right before List.mem_cons_self, starts⟩
  · rintro ⟨entry, mem, starts⟩
    obtain ⟨before, after, rfl⟩ := List.append_of_mem mem
    refine ⟨before, entry, after, rfl, starts, ?_⟩
    have whole : environText (before ++ entry :: after) = environText before ++ (entry ++ 0 :: environText after) := by
      rw [← environText_cons, environText, List.map_append, List.flatten_append]
      rfl
    rw [whole, List.length_append, List.length_append] at fits
    have := starts.length_le
    omega

/-- **An environment that the buffer can hold**: only a variable that was there and has lost all its entries is not
processed as it should be. -/
theorem consistent_of_fits (noNul : ∀ e ∈ initial, 0 ∉ e) (fits : (environText initial).length ≤ 65535) (junk : Cells)
    (commands : List (List Text)) :
    ∀ p ∈ processedIn (some (environText initial)) (initial.map some ++ none :: junk) commands,
      Consistent (some (environText initial)) p.1 p.2 ↔ ((∃ e ∈ initial, opening p.2 <+: e) → Present p.1 p.2) := by
  intro p mem
  have terminated := (terminated_start initial junk).processedIn _ commands p mem
  rw [terminated.consistent_iff, envVarExists_iff noNul, shown_of_fits fits]
  obtain ⟨environ, junk', eq, sub⟩ := terminated
  refine ⟨Iff.mp, fun kept => ⟨kept, ?_⟩⟩
  rintro ⟨e, left, starts⟩
  rw [eq, entries_array] at left
  exact ⟨e, sub.subset left, starts⟩

end OsProjects.Shell
