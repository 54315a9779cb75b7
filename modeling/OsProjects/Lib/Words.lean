import Mathlib.Data.List.DropRight
import Mathlib.Data.List.Infix

/-!
# Trimming and splitting at blanks

A list over any alphabet with a test for its blanks. `trim` drops the blanks at both ends,
`words` reads the maximal runs without blanks from left to right. Blanks at the ends of a
list are no part of its words (`words_trim`).
-/

namespace OsProjects.Words

variable {α : Type*} (blank : α → Bool)

def trim (l : List α) : List α := (l.dropWhile blank).rdropWhile blank

/-- The loop that collects the words, with fuel for its iterations. -/
def wordsLoop : Nat → List α → List (List α)
  | 0, _ => []
  | n + 1, l =>
    match l.dropWhile blank with
    | [] => []
    | x :: rest =>
      ((x :: rest).takeWhile fun y => !blank y) :: wordsLoop n ((x :: rest).dropWhile fun y => !blank y)

/-- Every iteration takes at least one element off the list. -/
def words (l : List α) : List (List α) := wordsLoop blank l.length l

/-- No blank at either end. -/
structure Trimmed (l : List α) : Prop where
  head : ∀ x ∈ l.head?, blank x = false
  last : ∀ x ∈ l.getLast?, blank x = false

variable {blank} {a c l m : List α} {x : α}

/-! ## Trimming -/

theorem dropWhile_append_blanks (blanks : ∀ x ∈ a, blank x = true) : (a ++ l).dropWhile blank = l.dropWhile blank := by
  rw [List.dropWhile_append_of_pos blanks]

theorem dropWhile_eq_self (head : ∀ x ∈ l.head?, blank x = false) : l.dropWhile blank = l := by
  cases l with
  | nil => rfl
  | cons x l => rw [List.dropWhile_cons_of_neg (by simp [head x rfl])]

theorem rdropWhile_append_blanks (blanks : ∀ x ∈ c, blank x = true) :
    (l ++ c).rdropWhile blank = l.rdropWhile blank := by
  rw [List.rdropWhile, List.reverse_append, dropWhile_append_blanks fun x mem => blanks x (List.mem_reverse.mp mem)]
  rfl

theorem rdropWhile_eq_self (last : ∀ x ∈ l.getLast?, blank x = false) : l.rdropWhile blank = l := by
  rw [List.rdropWhile, dropWhile_eq_self, List.reverse_reverse]
  rw [List.head?_reverse]
  exact last

theorem head_dropWhile (blank : α → Bool) (l : List α) : ∀ x ∈ (l.dropWhile blank).head?, blank x = false := by
  intro x mem
  have := List.head?_dropWhile_not blank l
  rw [Option.mem_def.mp mem] at this
  simpa using this

/-- What stands up to an element that is no blank stays. -/
theorem rdropWhile_append_cons (no : blank x = false) : (l ++ x :: c).rdropWhile blank = l ++ x :: c.rdropWhile blank := by
  have cut : l ++ x :: c = (l ++ x :: c.rdropWhile blank) ++ c.rtakeWhile blank := by
    conv_lhs => rw [← List.rdropWhile_append_rtakeWhile (p := blank) (l := c)]
    rw [List.append_assoc, List.cons_append]
  rw [cut, rdropWhile_append_blanks fun y => List.mem_rtakeWhile_imp, rdropWhile_eq_self]
  intro y last
  cases back : (c.rdropWhile blank).getLast? with
  | none =>
    rw [List.getLast?_eq_none_iff.mp back, List.getLast?_concat] at last
    obtain rfl : x = y := Option.some_inj.mp last
    exact no
  | some z =>
    rw [List.getLast?_append_of_ne_nil _ (List.cons_ne_nil _ _), List.getLast?_cons, back] at last
    obtain rfl : z = y := Option.some_inj.mp last
    rw [List.rdropWhile, List.getLast?_reverse] at back
    exact head_dropWhile blank c.reverse z back

/-- **Trimming takes the blanks off both ends** and nothing else. -/
theorem trim_eq (before : ∀ x ∈ a, blank x = true) (after : ∀ x ∈ c, blank x = true) (h : Trimmed blank m) :
    trim blank (a ++ m ++ c) = m := by
  unfold trim
  rw [List.append_assoc, dropWhile_append_blanks before]
  cases m with
  | nil =>
    rw [List.nil_append, List.dropWhile_eq_nil_iff.mpr after]
    rfl
  | cons x m =>
    rw [dropWhile_eq_self, rdropWhile_append_blanks after, rdropWhile_eq_self h.last]
    exact h.head

theorem trim_of_trimmed (h : Trimmed blank l) : trim blank l = l := by
  have := trim_eq (a := []) (c := []) (fun x mem => absurd mem List.not_mem_nil)
    (fun x mem => absurd mem List.not_mem_nil) h
  rwa [List.nil_append, List.append_nil] at this

theorem trimmed_trim (l : List α) : Trimmed blank (trim blank l) := by
  constructor
  · intro x head
    have pre : trim blank l <+: l.dropWhile blank := List.rdropWhile_prefix _ _
    have first : x ∈ (l.dropWhile blank).head? := by
      obtain ⟨rest, eq⟩ := pre
      rw [← eq, List.head?_append]
      rw [Option.mem_def.mp head]
      rfl
    exact head_dropWhile blank l x first
  · intro x last
    rw [trim, List.rdropWhile, List.getLast?_reverse] at last
    exact head_dropWhile blank _ x last

/-- A list around what trimming leaves of it. -/
theorem exists_trim (blank : α → Bool) (l : List α) : ∃ a c, l = a ++ trim blank l ++ c ∧ (∀ x ∈ a, blank x = true) ∧
    ∀ x ∈ c, blank x = true := by
  refine ⟨l.takeWhile blank, (l.dropWhile blank).rtakeWhile blank, ?_, fun x => ?_, fun x => ?_⟩
  · rw [List.append_assoc, trim, List.rdropWhile_append_rtakeWhile, List.takeWhile_append_dropWhile]
  · exact List.mem_takeWhile_imp
  · exact List.mem_rtakeWhile_imp

@[simp] theorem trim_trim (l : List α) : trim blank (trim blank l) = trim blank l :=
  trim_of_trimmed (trimmed_trim l)

theorem mem_of_mem_trim (mem : x ∈ trim blank l) : x ∈ l := by
  obtain ⟨a, c, eq, -, -⟩ := exists_trim blank l
  rw [eq]
  exact List.mem_append_left c (List.mem_append_right a mem)

/-- What is no blank survives. -/
theorem mem_trim_of_mem (mem : x ∈ l) (no : blank x = false) : x ∈ trim blank l := by
  obtain ⟨a, c, eq, before, after⟩ := exists_trim blank l
  have blankless : ∀ {d : List α}, (∀ y ∈ d, blank y = true) → x ∉ d := fun blanks inD => by
    rw [blanks x inD] at no
    exact Bool.noConfusion no
  rw [eq] at mem
  rcases List.mem_append.mp mem with mem | mem
  · exact (List.mem_append.mp mem).resolve_left (blankless before)
  · exact absurd mem (blankless after)

theorem trim_append_blanks (blanks : ∀ x ∈ c, blank x = true) : trim blank (l ++ c) = trim blank l := by
  obtain ⟨a, c', eq, before, after⟩ := exists_trim blank l
  conv_lhs => rw [eq, List.append_assoc]
  apply trim_eq before
  · intro x mem
    exact (List.mem_append.mp mem).elim (after x) (blanks x)
  · exact trimmed_trim l

/-- What is trimmed around a core without blanks at its ends. -/
theorem trim_append_append (core : Trimmed blank m) (ne : m ≠ []) :
    trim blank (l ++ m ++ c) = l.dropWhile blank ++ m ++ c.rdropWhile blank := by
  have cut : l ++ m ++ c =
      l.takeWhile blank ++ (l.dropWhile blank ++ m ++ c.rdropWhile blank) ++ c.rtakeWhile blank := by
    conv_lhs => rw [← List.takeWhile_append_dropWhile (p := blank) (l := l),
      ← List.rdropWhile_append_rtakeWhile (p := blank) (l := c)]
    simp only [List.append_assoc]
  rw [cut]
  apply trim_eq
  · exact fun x => List.mem_takeWhile_imp
  · exact fun x => List.mem_rtakeWhile_imp
  · constructor
    · intro x head
      rw [List.append_assoc, List.head?_append] at head
      cases front : (l.dropWhile blank).head? with
      | none =>
        rw [front, Option.none_or, List.head?_append_of_ne_nil _ ne] at head
        exact core.head x head
      | some y =>
        rw [front] at head
        obtain rfl : y = x := Option.some_inj.mp head
        exact head_dropWhile blank l y front
    · intro x last
      rw [List.getLast?_append] at last
      cases back : (c.rdropWhile blank).getLast? with
      | none =>
        rw [back, Option.none_or, List.getLast?_append_of_ne_nil _ ne] at last
        exact core.last x last
      | some y =>
        rw [back] at last
        obtain rfl : y = x := Option.some_inj.mp last
        rw [List.rdropWhile, List.getLast?_reverse] at back
        exact head_dropWhile blank c.reverse y back

theorem trim_blanks_append (blanks : ∀ x ∈ a, blank x = true) : trim blank (a ++ l) = trim blank l := by
  rw [trim, dropWhile_append_blanks blanks]
  rfl

theorem trim_dropWhile (l : List α) : trim blank (l.dropWhile blank) = trim blank l := by
  conv_rhs => rw [← List.takeWhile_append_dropWhile (p := blank) (l := l)]
  exact (trim_blanks_append fun x => List.mem_takeWhile_imp).symm

theorem trim_rdropWhile (l : List α) : trim blank (l.rdropWhile blank) = trim blank l := by
  conv_rhs => rw [← List.rdropWhile_append_rtakeWhile (p := blank) (l := l)]
  exact (trim_append_blanks fun x => List.mem_rtakeWhile_imp).symm

/-- The run at the start of `l ++ m` ends before `m`, or takes in the first element of `m`. -/
theorem span_append (p : α → Bool) (l m : List α) :
    ((l ++ m).takeWhile p = l.takeWhile p ∧ (l ++ m).dropWhile p = l.dropWhile p ++ m) ∨
      ∃ x ∈ m.head?, x ∈ (l ++ m).takeWhile p := by
  induction l with
  | nil =>
    cases m with
    | nil => exact .inl ⟨rfl, rfl⟩
    | cons x m =>
      cases test : p x with
      | false => exact .inl ⟨by simp [test], by simp [test]⟩
      | true => exact .inr ⟨x, rfl, by simp [test]⟩
  | cons y l ih =>
    cases test : p y with
    | false => exact .inl ⟨by simp [test], by simp [test]⟩
    | true =>
      rcases ih with ⟨take, drop⟩ | ⟨x, head, mem⟩
      · exact .inl ⟨by simp [test, take], by simp [test, drop]⟩
      · exact .inr ⟨x, head, by simp [test, mem]⟩

/-! ## Splitting -/

theorem wordsLoop_eq {n k : Nat} (le : l.length ≤ n) (le' : l.length ≤ k) : wordsLoop blank n l = wordsLoop blank k l := by
  induction n generalizing l k with
  | zero =>
    obtain rfl : l = [] := List.length_eq_zero_iff.mp (Nat.le_zero.mp le)
    cases k with
    | zero => rfl
    | succ k => rfl
  | succ n ih =>
    cases k with
    | zero =>
      obtain rfl : l = [] := List.length_eq_zero_iff.mp (Nat.le_zero.mp le')
      rfl
    | succ k =>
      unfold wordsLoop
      cases eq : l.dropWhile blank with
      | nil => rfl
      | cons x rest =>
        have no : blank x = false := head_dropWhile blank l x (by rw [eq]; rfl)
        have short : ((x :: rest).dropWhile fun y => !blank y).length ≤ rest.length := by
          rw [List.dropWhile_cons_of_pos (by simp [no])]
          exact List.length_dropWhile_le _ _
        have drop : (x :: rest).length ≤ l.length := eq ▸ List.length_dropWhile_le _ _
        rw [List.length_cons] at drop
        simp only
        rw [ih (k := k) (by omega) (by omega)]

/-- The loop without its fuel. -/
theorem words_eq (l : List α) : words blank l =
    match l.dropWhile blank with
    | [] => []
    | x :: rest => ((x :: rest).takeWhile fun y => !blank y) :: words blank ((x :: rest).dropWhile fun y => !blank y) := by
  have step : words blank l = wordsLoop blank (l.length + 1) l := wordsLoop_eq (le_refl _) (Nat.le_succ _)
  rw [step, wordsLoop]
  cases eq : l.dropWhile blank with
  | nil => rfl
  | cons x rest =>
    have drop : (x :: rest).length ≤ l.length := eq ▸ List.length_dropWhile_le _ _
    have short := List.length_dropWhile_le (fun y => !blank y) (x :: rest)
    simp only
    rw [words, wordsLoop_eq (k := ((x :: rest).dropWhile fun y => !blank y).length) (by omega) (le_refl _)]

theorem words_eq_nil : words blank l = [] ↔ ∀ x ∈ l, blank x = true := by
  rw [words_eq, ← List.dropWhile_eq_nil_iff]
  cases l.dropWhile blank with
  | nil => simp
  | cons x rest => simp

theorem words_blanks_append (blanks : ∀ x ∈ a, blank x = true) : words blank (a ++ l) = words blank l := by
  rw [words_eq, words_eq l, dropWhile_append_blanks blanks]

/-- A word at the start, up to a blank or the end. -/
theorem words_word_append (word : ∀ x ∈ m, blank x = false) (ne : m ≠ []) (stop : ∀ x ∈ l.head?, blank x = true) :
    words blank (m ++ l) = m :: words blank l := by
  have stop' : ∀ x ∈ l.head?, (!blank x) = false := fun x mem => by rw [stop x mem]; rfl
  have word' : ∀ x ∈ m, (!blank x) = true := fun x mem => by rw [word x mem]; rfl
  have take : (m ++ l).takeWhile (fun y => !blank y) = m := by
    rw [List.takeWhile_append_of_pos word']
    cases l with
    | nil => simp
    | cons y l => rw [List.takeWhile_cons_of_neg (by simp [stop y rfl]), List.append_nil]
  have drop : (m ++ l).dropWhile (fun y => !blank y) = l := by
    rw [List.dropWhile_append_of_pos word', dropWhile_eq_self stop']
  rw [words_eq, dropWhile_eq_self]
  · cases m with
    | nil => exact absurd rfl ne
    | cons x m =>
      simp only [List.cons_append] at take drop ⊢
      rw [take, drop]
  · cases m with
    | nil => exact absurd rfl ne
    | cons x m =>
      intro y head
      obtain rfl : x = y := Option.some_inj.mp head
      exact word x List.mem_cons_self

/-- A list that does not start with a blank, at the end of its first word. -/
theorem exists_word (head : ∀ x ∈ l.head?, blank x = false) : ∃ m rest, l = m ++ rest ∧ (∀ x ∈ m, blank x = false) ∧
    (∀ x ∈ rest.head?, blank x = true) ∧ (l ≠ [] → m ≠ []) := by
  refine ⟨l.takeWhile fun y => !blank y, l.dropWhile fun y => !blank y, List.takeWhile_append_dropWhile.symm,
    fun x mem => ?_, fun x mem => ?_, fun ne => ?_⟩
  · simpa using List.mem_takeWhile_imp mem
  · simpa using head_dropWhile (fun y => !blank y) l x mem
  · cases l with
    | nil => exact absurd rfl ne
    | cons x l =>
      rw [List.takeWhile_cons_of_pos (by simp [head x rfl])]
      exact List.cons_ne_nil _ _

/-- Induction along the words of a list: it is blanks, or blanks, a word and what follows it. The length falls. -/
theorem words_induction (blank : α → Bool) {motive : List α → Prop} (blanks : ∀ l, (∀ x ∈ l, blank x = true) → motive l)
    (word : ∀ a m rest, (∀ x ∈ a, blank x = true) → (∀ x ∈ m, blank x = false) → m ≠ [] →
      (∀ x ∈ rest.head?, blank x = true) → motive rest → motive (a ++ (m ++ rest))) (l : List α) : motive l := by
  generalize size : l.length = n
  induction n using Nat.strong_induction_on generalizing l with
  | h n ih =>
    by_cases all : ∀ x ∈ l, blank x = true
    · exact blanks l all
    · have core : l.dropWhile blank ≠ [] := fun e => all (List.dropWhile_eq_nil_iff.mp e)
      obtain ⟨m, rest, eq, nonblank, stop, ne⟩ := exists_word (head_dropWhile blank l)
      have whole : l = l.takeWhile blank ++ (m ++ rest) := by rw [← eq, List.takeWhile_append_dropWhile]
      have pos : 0 < m.length := List.length_pos_iff.mpr (ne core)
      have short : rest.length < n := by
        have := congrArg List.length whole
        rw [List.length_append, List.length_append] at this
        omega
      rw [whole]
      exact word _ m rest (fun x => List.mem_takeWhile_imp) nonblank (ne core) stop (ih _ short rest rfl)

/-- The words behind blanks. -/
theorem words_cons (blanks : ∀ x ∈ a, blank x = true) (word : ∀ x ∈ m, blank x = false) (ne : m ≠ [])
    (stop : ∀ x ∈ l.head?, blank x = true) : words blank (a ++ (m ++ l)) = m :: words blank l := by
  rw [words_blanks_append blanks, words_word_append word ne stop]

/-- Blanks at the end are no part of a word. -/
theorem words_append_blanks (blanks : ∀ x ∈ c, blank x = true) : words blank (l ++ c) = words blank l := by
  induction l using words_induction blank with
  | blanks l all =>
    rw [words_eq_nil.mpr all, words_eq_nil.mpr]
    exact fun x mem => (List.mem_append.mp mem).elim (all x) (blanks x)
  | word a m rest before nonblank ne stop ih =>
    have stop' : ∀ x ∈ (rest ++ c).head?, blank x = true := by
      cases rest with
      | nil =>
        intro x mem
        exact blanks x (List.mem_of_mem_head? mem)
      | cons y rest => exact stop
    rw [List.append_assoc, List.append_assoc, words_cons before nonblank ne stop', words_cons before nonblank ne stop, ih]

/-- **Trimming does not change the words.** -/
theorem words_trim (l : List α) : words blank (trim blank l) = words blank l := by
  obtain ⟨a, c, eq, before, after⟩ := exists_trim blank l
  conv_rhs => rw [eq, List.append_assoc, words_blanks_append before, words_append_blanks after]

/-! ## Words as runs -/

/-- `m` is a run without blanks at place `k` of `l` that cannot be made longer. -/
def IsRun (blank : α → Bool) (l : List α) (k : Nat) (m : List α) : Prop :=
  m ≠ [] ∧ (∀ x ∈ m, blank x = false) ∧ ∃ before after, l = before ++ (m ++ after) ∧ before.length = k ∧
    (∀ x ∈ before.getLast?, blank x = true) ∧ ∀ x ∈ after.head?, blank x = true

/-- Two words at the start of a list, each up to a blank or the end, are the same. -/
theorem word_unique {m' l' : List α} (eq : m ++ l = m' ++ l') (word : ∀ x ∈ m, blank x = false)
    (word' : ∀ x ∈ m', blank x = false) (stop : ∀ x ∈ l.head?, blank x = true) (stop' : ∀ x ∈ l'.head?, blank x = true) :
    m = m' := by
  have take : ∀ {m l : List α}, (∀ x ∈ m, blank x = false) → (∀ x ∈ l.head?, blank x = true) →
      (m ++ l).takeWhile (fun y => !blank y) = m := by
    intro m l word stop
    rw [List.takeWhile_append_of_pos (by simpa using word)]
    cases l with
    | nil => simp
    | cons y l => rw [List.takeWhile_cons_of_neg (by simp [stop y rfl]), List.append_nil]
  rw [← take word stop, eq, take word' stop']

/-- The runs of a list are its first word and the runs behind it. -/
theorem isRun_iff {k : Nat} {u : List α} (blanks : ∀ x ∈ a, blank x = true) (word : ∀ x ∈ m, blank x = false) (ne : m ≠ [])
    (stop : ∀ x ∈ l.head?, blank x = true) : IsRun blank (a ++ (m ++ l)) k u ↔
      (k = a.length ∧ u = m) ∨ ∃ j, k = (a ++ m).length + j ∧ IsRun blank l j u := by
  constructor
  · rintro ⟨ne', word', before, after, eq, rfl, left, right⟩
    rcases List.append_eq_append_iff.mp eq with ⟨b, rfl, eq'⟩ | ⟨b, rfl, eq'⟩
    · -- the run starts behind the blanks
      rcases List.append_eq_append_iff.mp eq' with ⟨d, rfl, eq''⟩ | ⟨d, rfl, eq''⟩
      · right
        refine ⟨d.length, by rw [← List.append_assoc, List.length_append], ne', word', d, after, eq'', rfl, ?_, right⟩
        intro x last
        apply left
        rw [← List.append_assoc, List.getLast?_append, last]
        rfl
      · left
        cases b using List.reverseRecOn with
        | nil =>
          refine ⟨by rw [List.append_nil], ?_⟩
          rw [List.nil_append] at word ⊢
          exact word_unique eq'' word' word right stop
        | append_singleton b x =>
          have blank' := left x (by simp)
          rw [word x (by simp)] at blank'
          exact Bool.noConfusion blank'
    · -- it cannot start among them
      cases b with
      | nil =>
        left
        refine ⟨by rw [List.append_nil], ?_⟩
        rw [List.nil_append] at eq'
        exact word_unique eq' word' word right stop
      | cons x b =>
        cases u with
        | nil => exact absurd rfl ne'
        | cons y u =>
          obtain ⟨rfl, -⟩ := List.cons.inj eq'
          have blank' := blanks y (List.mem_append_right before List.mem_cons_self)
          rw [word' y List.mem_cons_self] at blank'
          exact Bool.noConfusion blank'
  · rintro (⟨rfl, rfl⟩ | ⟨j, rfl, ne', word', before, after, rfl, rfl, left, right⟩)
    · refine ⟨ne, word, a, l, rfl, rfl, ?_, stop⟩
      exact fun x last => blanks x (List.mem_of_getLast? last)
    · refine ⟨ne', word', a ++ m ++ before, after, by simp only [List.append_assoc], List.length_append, ?_, right⟩
      cases before with
      | nil =>
        cases u with
        | nil => exact absurd rfl ne'
        | cons y u =>
          have blank' := stop y rfl
          rw [word' y List.mem_cons_self] at blank'
          exact Bool.noConfusion blank'
      | cons y before =>
        intro x last
        rw [List.getLast?_append_of_ne_nil _ (List.cons_ne_nil y before)] at last
        exact left x last

/-- **The words of a list are its runs**, in their order. -/
theorem words_runs (blank : α → Bool) (l : List α) : ∃ runs : List (Nat × List α), words blank l = runs.map Prod.snd ∧
    runs.Pairwise (fun r r' => r.1 < r'.1) ∧ ∀ k m, (k, m) ∈ runs ↔ IsRun blank l k m := by
  induction l using words_induction blank with
  | blanks l all =>
    refine ⟨[], words_eq_nil.mpr all, List.Pairwise.nil, fun k m => ?_⟩
    apply iff_of_false List.not_mem_nil
    rintro ⟨ne, word, before, after, rfl, -⟩
    obtain ⟨x, mem⟩ := List.exists_mem_of_ne_nil m ne
    have blank' := all x (List.mem_append_right before (List.mem_append_left after mem))
    rw [word x mem] at blank'
    exact Bool.noConfusion blank'
  | word a m rest before nonblank ne stop ih =>
    obtain ⟨runs, words', sorted, mem⟩ := ih
    have pos : 0 < m.length := List.length_pos_iff.mpr ne
    -- the runs behind the first word are those of the rest, at their places in the whole list
    refine ⟨(a.length, m) :: runs.map fun r => ((a ++ m).length + r.1, r.2), ?_, ?_, ?_⟩
    · rw [words_cons before nonblank ne stop, words', List.map_cons, List.map_map]
      rfl
    · refine List.pairwise_cons.mpr ⟨fun r inRuns => ?_, List.pairwise_map.mpr (sorted.imp fun less => ?_)⟩
      · obtain ⟨r', -, rfl⟩ := List.mem_map.mp inRuns
        rw [List.length_append]
        omega
      · exact Nat.add_lt_add_left less _
    · intro k u
      rw [isRun_iff before nonblank ne stop, List.mem_cons, Prod.mk.injEq, List.mem_map]
      apply or_congr_right
      constructor
      · rintro ⟨⟨j, u'⟩, inRuns, eq⟩
        obtain ⟨rfl, rfl⟩ := Prod.mk.inj eq
        exact ⟨j, rfl, (mem j u').mp inRuns⟩
      · rintro ⟨j, rfl, run⟩
        exact ⟨(j, u), (mem j u).mpr run, rfl⟩

/-- A word is not empty and has no blanks. -/
theorem of_mem_words (mem : m ∈ words blank l) : m ≠ [] ∧ ∀ x ∈ m, blank x = false := by
  obtain ⟨runs, eq, -, isRun⟩ := words_runs blank l
  rw [eq] at mem
  obtain ⟨⟨k, m'⟩, inRuns, rfl⟩ := List.mem_map.mp mem
  obtain ⟨ne, word, -⟩ := (isRun k m').mp inRuns
  exact ⟨ne, word⟩

/-- **Joining words with single blanks** and splitting them again. -/
theorem words_intercalate {tokens : List (List α)} (isBlank : blank x = true)
    (tokens_ok : ∀ m ∈ tokens, m ≠ [] ∧ ∀ y ∈ m, blank y = false) : words blank ([x].intercalate tokens) = tokens := by
  induction tokens with
  | nil => rfl
  | cons m tokens ih =>
    obtain ⟨⟨ne, word⟩, others⟩ := List.forall_mem_cons.mp tokens_ok
    cases tokens with
    | nil =>
      have single := words_word_append (l := []) word ne fun y mem => absurd mem (Option.not_mem_none y)
      rw [List.append_nil] at single
      rw [List.intercalate_singleton, single]
      rfl
    | cons m' tokens =>
      have stop : ∀ y ∈ ([x] ++ [x].intercalate (m' :: tokens)).head?, blank y = true := by
        intro y head
        obtain rfl : x = y := Option.some_inj.mp head
        exact isBlank
      have blanks : ∀ y ∈ [x], blank y = true := fun y mem => by rw [List.mem_singleton.mp mem, isBlank]
      rw [List.intercalate_cons_cons, List.append_assoc, words_word_append word ne stop, words_blanks_append blanks,
        ih others]

/-- The words joined with single blanks take no more room than the list, and less if it starts with a blank. -/
theorem length_intercalate_words (x : α) (l : List α) : ([x].intercalate (words blank l)).length ≤ l.length ∧
    ((∃ y ∈ l.head?, blank y = true) → ([x].intercalate (words blank l)).length < l.length) := by
  induction l using words_induction blank with
  | blanks l all =>
    rw [words_eq_nil.mpr all]
    refine ⟨Nat.zero_le _, fun ⟨y, head, _⟩ => ?_⟩
    exact List.length_pos_iff.mpr (List.ne_nil_of_mem (List.mem_of_mem_head? head))
  | word a m rest before nonblank ne stop ih =>
    have joined : ([x].intercalate (words blank (a ++ (m ++ rest)))).length ≤ m.length + rest.length := by
      rw [words_cons before nonblank ne stop]
      cases tokens : words blank rest with
      | nil =>
        rw [List.intercalate_singleton]
        exact Nat.le_add_right _ _
      | cons m' tokens' =>
        have less : ([x].intercalate (words blank rest)).length < rest.length := by
          apply ih.2
          cases rest with
          | nil => exact nomatch tokens
          | cons y rest => exact ⟨y, rfl, stop y rfl⟩
        rw [tokens] at less
        rw [List.intercalate_cons_cons, List.length_append, List.length_append, List.length_singleton]
        omega
    rw [List.length_append, List.length_append]
    refine ⟨by omega, fun ⟨y, head, blank'⟩ => ?_⟩
    cases a with
    | nil =>
      rw [List.nil_append, List.head?_append_of_ne_nil _ ne] at head
      rw [nonblank y (List.mem_of_mem_head? head)] at blank'
      exact Bool.noConfusion blank'
    | cons z a =>
      rw [List.length_cons]
      omega

end OsProjects.Words
