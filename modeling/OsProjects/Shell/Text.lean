import OsProjects.Lib.CText
import OsProjects.Lib.Words

/-!
# Command lines

The helper functions at the top of `Commands.cpp`, and the searches for operators that
`createCommand` and the commands with an operator share.
-/

namespace OsProjects.Shell

open CText

abbrev Text := Bytes

def bar : UInt8 := 124
def amp : UInt8 := 38
def gt : UInt8 := 62
def quote : UInt8 := 39

/-- `WHITESPACE`: a blank, a tab, a carriage return or a line feed. -/
def isBlank (b : UInt8) : Bool := b == 32 || b == 9 || b == 13 || b == 10

/-- `_trim`. -/
def trim (s : Text) : Text := Words.trim isBlank s

/-- `_split`. -/
def split (s : Text) : List Text := Words.words isBlank s

/-- `_isNumber`. -/
def isNumber (s : Text) : Bool :=
  let digits := if s.head? = some 45 then s.tail else s
  !digits.isEmpty && digits.all isDigit

/-- `_isBackground`. -/
def isBackground (cmdLine : Text) : Bool := (trim cmdLine).getLast? == some amp

/-- `_removeBackground`. -/
def removeBackground (cmdLine : Text) : Text :=
  let trimmed := trim cmdLine
  if trimmed.getLast? = some amp then trim trimmed.dropLast else trimmed

/-- `strtol` in base 10, without its limits; `none` when there is no number. -/
def strtol (s : Text) : Option Int :=
  let s := s.dropWhile isSpace
  let (negative, s) :=
    match s with
    | 45 :: rest => (true, rest)
    | 43 :: rest => (false, rest)
    | _ => (false, s)
  if (s.head?.map isDigit).getD false then some (if negative then -(readNat s : Int) else readNat s) else none

/-- `std::stoi`; `none` is an exception. -/
def stoi (s : Text) : Option Int :=
  (strtol s).bind fun x => if -2147483648 ≤ x ∧ x ≤ 2147483647 then some x else none

/-- `text.find(part)`. -/
def find (part text : Text) : Option Nat := text.tails.findIdx? part.isPrefixOf

/-- The loop that looks for a `c` that is not followed by `after`, over pairs of the two. -/
def findSingle (c after : UInt8) : Text → Option Nat
  | [] => none
  | [x] => if x = c then some 0 else none
  | x :: y :: rest =>
    if x = c then if y = after then (findSingle c after rest).map (· + 2) else some 0
    else (findSingle c after (y :: rest)).map (· + 1)

/-- The test for the wildcards that only `/bin/bash` expands. -/
def isComplex (s : Text) : Bool := s.contains 42 || s.contains 63

/-! ## Trimming and splitting -/

theorem blank_of_isBlank {b : UInt8} (h : isBlank b = true) : b = 32 ∨ b = 9 ∨ b = 13 ∨ b = 10 := by
  simpa [isBlank, or_assoc] using h

@[simp] theorem trim_trim (s : Text) : trim (trim s) = trim s := Words.trim_trim s

/-- A text without surrounding blanks. -/
abbrev Trimmed (s : Text) : Prop := Words.Trimmed isBlank s

theorem trim_of_trimmed {s : Text} (h : Trimmed s) : trim s = s := Words.trim_of_trimmed h

theorem trimmed_trim (s : Text) : Trimmed (trim s) := Words.trimmed_trim s

theorem mem_of_mem_trim {s : Text} {b : UInt8} (mem : b ∈ trim s) : b ∈ s := Words.mem_of_mem_trim mem

/-- Removing the `&` of a trimmed line. -/
theorem removeBackground_eq {s : Text} (h : Trimmed s) :
    removeBackground s = if s.getLast? = some amp then trim s.dropLast else s := by
  unfold removeBackground
  rw [trim_of_trimmed h]

theorem removeBackground_trim (s : Text) : removeBackground (trim s) = removeBackground s := by
  unfold removeBackground
  rw [trim_trim]

theorem mem_of_mem_removeBackground {s : Text} {b : UInt8} (mem : b ∈ removeBackground s) : b ∈ s := by
  unfold removeBackground at mem
  simp only at mem
  split_ifs at mem
  · exact mem_of_mem_trim (List.mem_of_mem_dropLast (mem_of_mem_trim mem))
  · exact mem_of_mem_trim mem

/-- Without an `&` there is nothing to remove. -/
theorem removeBackground_of_last {s : Text} (h : Trimmed s) (last : s.getLast? ≠ some amp) : removeBackground s = s := by
  rw [removeBackground_eq h, if_neg last]

/-! ## Operators -/

theorem find_isSome_iff {part text : Text} : (find part text).isSome ↔ part <:+: text := by
  unfold find
  rw [List.findIdx?_isSome, List.any_eq_true]
  constructor
  · rintro ⟨tail, mem, pre⟩
    have suffix := (List.mem_tails _ _).mp mem
    obtain ⟨front, eq⟩ := suffix
    obtain ⟨rest, eq'⟩ := List.isPrefixOf_iff_prefix.mp pre
    exact ⟨front, rest, by rw [List.append_assoc, eq', eq]⟩
  · rintro ⟨front, rest, eq⟩
    refine ⟨part ++ rest, (List.mem_tails _ _).mpr ⟨front, ?_⟩, List.isPrefixOf_iff_prefix.mpr (List.prefix_append _ _)⟩
    rw [← List.append_assoc, eq]

theorem find_eq_none {part text : Text} {b : UInt8} (mem : b ∈ part) (no : b ∉ text) : find part text = none := by
  rw [← Option.not_isSome_iff_eq_none, find_isSome_iff]
  exact fun sub => no (sub.subset mem)

theorem find_cons {part text : Text} {x : UInt8} (no : ¬part <+: x :: text) :
    find part (x :: text) = (find part text).map (· + 1) := by
  have off : part.isPrefixOf (x :: text) = false := by
    rw [← Bool.not_eq_true, List.isPrefixOf_iff_prefix]
    exact no
  rw [find, List.tails_cons, List.findIdx?_cons, off]
  rfl

/-- The first place of an operator, behind a text without its first character. -/
theorem find_append {c : UInt8} {front part rest : Text} (no : c ∉ front) :
    find (c :: part) (front ++ (c :: part ++ rest)) = some front.length := by
  induction front with
  | nil =>
    have here : (c :: part).isPrefixOf (c :: (part ++ rest)) = true :=
      List.isPrefixOf_iff_prefix.mpr (List.prefix_append (c :: part) rest)
    rw [List.nil_append, List.cons_append, find, List.tails_cons, List.findIdx?_cons, here]
    rfl
  | cons x front ih =>
    have ne : c ≠ x := fun e => no (e ▸ List.mem_cons_self)
    rw [List.cons_append, find_cons fun pre => ne (List.cons_prefix_cons.mp pre).1,
      ih fun mem => no (List.mem_cons_of_mem x mem)]
    rfl

/-- An operator stands where it is found. -/
theorem find_some {c : UInt8} {part text : Text} {p : Nat} (found : find (c :: part) text = some p) :
    ∃ front rest, text = front ++ (c :: part ++ rest) ∧ front.length = p := by
  induction text generalizing p with
  | nil => exact nomatch found
  | cons x text ih =>
    by_cases here : c :: part <+: x :: text
    · obtain ⟨rest, eq⟩ := here
      have first : find (c :: part) ([] ++ (c :: part ++ rest)) = some 0 := find_append List.not_mem_nil
      rw [List.nil_append, eq, found] at first
      exact ⟨[], rest, eq.symm, (Option.some_inj.mp first).symm⟩
    · rw [find_cons here] at found
      obtain ⟨q, found', rfl⟩ := Option.map_eq_some_iff.mp found
      obtain ⟨front, rest, rfl, rfl⟩ := ih found'
      exact ⟨x :: front, rest, rfl, rfl⟩

/-- Another character is passed over. -/
theorem findSingle_cons {c after x : UInt8} (ne : x ≠ c) (rest : Text) :
    findSingle c after (x :: rest) = (findSingle c after rest).map (· + 1) := by
  cases rest with
  | nil => simp [findSingle, ne]
  | cons y rest => rw [findSingle, if_neg ne]

theorem findSingle_eq_none {c after : UInt8} {text : Text} (no : c ∉ text) : findSingle c after text = none := by
  induction text with
  | nil => rfl
  | cons x text ih =>
    have ne : x ≠ c := fun e => no (e ▸ List.mem_cons_self)
    rw [findSingle_cons ne, ih fun mem => no (List.mem_cons_of_mem x mem)]
    rfl

/-- The first `c` of a text, when it is followed by something else. -/
theorem findSingle_append {c after : UInt8} {front rest : Text} (no : c ∉ front) (stop : rest.head? ≠ some after) :
    findSingle c after (front ++ c :: rest) = some front.length := by
  induction front with
  | nil =>
    cases rest with
    | nil => simp [findSingle]
    | cons y rest =>
      have ne : y ≠ after := fun e => stop (by rw [e]; rfl)
      rw [List.nil_append, findSingle, if_pos rfl, if_neg ne]
      rfl
  | cons x front ih =>
    have ne : x ≠ c := fun e => no (e ▸ List.mem_cons_self)
    rw [List.cons_append, findSingle_cons ne, ih fun mem => no (List.mem_cons_of_mem x mem)]
    rfl

/-- The loop stops at the character it looks for. -/
theorem findSingle_some {c after : UInt8} {text : Text} {p : Nat} (found : findSingle c after text = some p) :
    ∃ front rest, text = front ++ c :: rest ∧ front.length = p := by
  induction text using findSingle.induct c after generalizing p with
  | case1 => exact nomatch found
  | case2 =>
    rw [findSingle, if_pos rfl] at found
    exact ⟨[], [], rfl, Option.some_inj.mp found⟩
  | case3 x ne =>
    rw [findSingle, if_neg ne] at found
    exact nomatch found
  | case4 rest ih =>
    rw [findSingle, if_pos rfl, if_pos rfl] at found
    obtain ⟨q, found', rfl⟩ := Option.map_eq_some_iff.mp found
    obtain ⟨front, rest', rfl, rfl⟩ := ih found'
    exact ⟨c :: after :: front, rest', rfl, rfl⟩
  | case5 y rest ne =>
    rw [findSingle, if_pos rfl, if_neg ne] at found
    exact ⟨[], y :: rest, rfl, Option.some_inj.mp found⟩
  | case6 x y rest ne ih =>
    rw [findSingle, if_neg ne] at found
    obtain ⟨q, found', rfl⟩ := Option.map_eq_some_iff.mp found
    obtain ⟨front, rest', eq, rfl⟩ := ih found'
    exact ⟨x :: front, rest', by rw [eq]; rfl, rfl⟩

/-- The first `c` of a text makes no pair with what follows it. -/
theorem not_infix_pair {c after : UInt8} {front rest : Text} (no : c ∉ front) (stop : rest.head? ≠ some after)
    (clean : ¬[c, after] <:+: rest) : ¬[c, after] <:+: front ++ c :: rest := by
  induction front with
  | nil =>
    have apart : ¬[after] <+: rest := by
      rintro ⟨tail, rfl⟩
      exact stop rfl
    rw [List.nil_append, List.infix_cons_iff, List.cons_prefix_cons]
    simp only [apart, and_false, false_or]
    exact clean
  | cons y front ih =>
    have ne : c ≠ y := fun e => no (e ▸ List.mem_cons_self)
    rw [List.cons_append, List.infix_cons_iff, List.cons_prefix_cons]
    simp only [ne, false_and, false_or]
    exact ih fun mem => no (List.mem_cons_of_mem y mem)

/-- A text in which neither search finds its operator does not have the first character of it. -/
theorem not_mem_of_no_operator {c after : UInt8} {text : Text} (pair : find [c, after] text = none)
    (single : findSingle c after text = none) : c ∉ text := by
  intro mem
  obtain ⟨front, rest, rfl, no⟩ := List.eq_append_cons_of_mem mem
  by_cases next : rest.head? = some after
  · have found : (find [c, after] (front ++ c :: rest)).isSome := by
      rw [find_isSome_iff]
      obtain ⟨rest', rfl⟩ := List.head?_eq_some_iff.mp next
      exact ⟨front, rest', by simp⟩
    rw [pair] at found
    exact Bool.noConfusion found
  · rw [findSingle_append no next] at single
    exact Option.noConfusion rfl (heq_of_eq single)

end OsProjects.Shell
