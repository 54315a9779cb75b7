import OsProjects.Shell.Commands

/-!
# Tokens by position

`_trim` and `_split` search for positions with `find_first_of` and its relatives and cut with
`substr`. `npos` is the position of nothing, and `_split` computes with it: `substr` cuts its count
off at the end of the string. Both are the functions on lists that the other modules use.
-/

namespace OsProjects.Shell

open CText

/-- `std::string::npos`, the largest `size_t`. -/
def npos : Nat := 18446744073709551615

/-- A `std::string`: its positions are positions. -/
def StdString : Type := { s : Text // s.length < npos }

namespace Positions

/-- `find_first_of` and `find_first_not_of`: the first place of such a character, from `pos` on. -/
def findFirst (p : UInt8 → Bool) (s : Text) (pos : Nat) : Nat :=
  let k := pos + (s.drop pos).findIdx p
  if k < s.length then k else npos

/-- `find_last_not_of`. -/
def findLast (p : UInt8 → Bool) (s : Text) : Nat :=
  let k := s.reverse.findIdx p
  if k < s.length then s.length - 1 - k else npos

/-- `substr`. -/
def substr (s : Text) (pos count : Nat) : Text := (s.drop pos).take count

/-- `_trim`. -/
def trim (s : Text) : Text :=
  let start := findFirst (fun b => !isBlank b) s 0
  if start = npos then []
  else substr s start (findLast (fun b => !isBlank b) s - start + 1)

/-- The loop of `_split`, with fuel for its iterations. -/
def splitLoop (s : Text) : Nat → Nat → List Text
  | 0, _ => []
  | fuel + 1, start =>
    if start = npos then []
    else
      let stop := findFirst isBlank s start
      substr s start (stop - start) ::
        splitLoop s fuel (if stop = npos then npos else findFirst (fun b => !isBlank b) s stop)

/-- `_split`. -/
def split (s : Text) : List Text := splitLoop s (s.length + 1) (findFirst (fun b => !isBlank b) s 0)

/-- `_removeBackground`. -/
def removeBackground (cmdLine : Text) : Text :=
  let trimmed := trim cmdLine
  if trimmed.getLast? = some amp then trim trimmed.dropLast else trimmed

/-- The tokens by which `createCommand` selects a command. -/
def selected (cmdLine : Text) : List Text :=
  let trimmed := trim cmdLine
  let bg := (trim trimmed).getLast? == some amp
  split (if bg then removeBackground trimmed else trimmed)

variable {s : Text} {pos fuel : Nat}

/-! ## Trimming -/

/-- Blanks are passed over. -/
theorem findIdx_blanks {a l : Text} (blanks : ∀ x ∈ a, isBlank x = true) (head : ∀ x ∈ l.head?, isBlank x = false)
    (ne : l ≠ []) : (a ++ l).findIdx (fun b => !isBlank b) = a.length := by
  have all : a.findIdx (fun b => !isBlank b) = a.length :=
    List.findIdx_eq_length_of_false fun x mem => by rw [blanks x mem]; rfl
  rw [List.findIdx_append, all, if_neg (Nat.lt_irrefl _)]
  cases l with
  | nil => exact absurd rfl ne
  | cons x l =>
    have here : (!isBlank x) = true := by rw [head x rfl]; rfl
    rw [List.findIdx_cons, here]
    exact Nat.zero_add _

theorem trim_blanks (blanks : ∀ x ∈ s, isBlank x = true) : trim s = [] := by
  have all : s.findIdx (fun b => !isBlank b) = s.length :=
    List.findIdx_eq_length_of_false fun x mem => by rw [blanks x mem]; rfl
  simp [trim, findFirst, all]

theorem trim_around {a m c : Text} (before : ∀ x ∈ a, isBlank x = true) (after : ∀ x ∈ c, isBlank x = true)
    (trimmed : Trimmed m) (ne : m ≠ []) (small : (a ++ (m ++ c)).length < npos) : trim (a ++ (m ++ c)) = m := by
  have pos : 0 < m.length := List.length_pos_iff.mpr ne
  have size : (a ++ (m ++ c)).length = a.length + (m.length + c.length) := by simp only [List.length_append]
  have front : (a ++ (m ++ c)).findIdx (fun b => !isBlank b) = a.length := by
    apply findIdx_blanks before
    · intro x head
      rw [List.head?_append_of_ne_nil _ ne] at head
      exact trimmed.head x head
    · simp [ne]
  have back : (a ++ (m ++ c)).reverse.findIdx (fun b => !isBlank b) = c.length := by
    rw [List.reverse_append, List.reverse_append, List.append_assoc, ← List.length_reverse]
    apply findIdx_blanks
    · exact fun x mem => after x (List.mem_reverse.mp mem)
    · intro x head
      rw [List.head?_append_of_ne_nil _ (by simpa using ne), List.head?_reverse] at head
      exact trimmed.last x head
    · simp [ne]
  have start : findFirst (fun b => !isBlank b) (a ++ (m ++ c)) 0 = a.length := by
    rw [findFirst, List.drop_zero, front, Nat.zero_add]
    exact if_pos (by omega)
  have last : findLast (fun b => !isBlank b) (a ++ (m ++ c)) = a.length + m.length - 1 := by
    rw [findLast, back, size, if_pos (by omega)]
    omega
  rw [trim, start, last, if_neg (by omega), substr, List.drop_left, show a.length + m.length - 1 - a.length + 1 = m.length by omega,
    List.take_left]

/-- **`_trim` by position** trims. -/
theorem trim_eq (small : s.length < npos) : trim s = Shell.trim s := by
  obtain ⟨a, c, eq, before, after⟩ := Words.exists_trim isBlank s
  by_cases empty : Shell.trim s = []
  · have none : Words.trim isBlank s = [] := empty
    rw [empty]
    apply trim_blanks
    intro x mem
    rw [eq, none, List.append_nil] at mem
    exact (List.mem_append.mp mem).elim (before x) (after x)
  · rw [List.append_assoc] at eq
    have around := trim_around before after (trimmed_trim s) empty (eq ▸ small)
    exact (congrArg trim eq).trans around

theorem length_trim_le (s : Text) : (Shell.trim s).length ≤ s.length := by
  obtain ⟨a, c, eq, -⟩ := Words.exists_trim isBlank s
  have size := congrArg List.length eq
  rw [List.length_append, List.length_append] at size
  change (Words.trim isBlank s).length ≤ s.length
  omega

/-! ## Splitting -/

/-- The word at `start`, and where it ends. -/
theorem findFirst_blank {start : Nat} (small : s.length < npos) (inside : start < s.length) :
    substr s start (findFirst isBlank s start - start) = (s.drop start).takeWhile (fun y => !isBlank y) ∧
      ((findFirst isBlank s start = npos ∧ (s.drop start).dropWhile (fun y => !isBlank y) = []) ∨
        (start ≤ findFirst isBlank s start ∧ findFirst isBlank s start < s.length ∧
          (s.drop start).dropWhile (fun y => !isBlank y) = s.drop (findFirst isBlank s start))) := by
  have take : (s.drop start).takeWhile (fun y => !isBlank y) = _ := List.takeWhile_eq_take_findIdx_not
  have drop : (s.drop start).dropWhile (fun y => !isBlank y) = _ := List.dropWhile_eq_drop_findIdx_not
  simp only [Bool.not_not] at take drop
  have size : (s.drop start).length = s.length - start := List.length_drop
  rw [take, drop, findFirst]
  generalize (s.drop start).findIdx (fun y => isBlank y) = k
  split_ifs with within
  · refine ⟨?_, .inr ⟨Nat.le_add_right _ _, within, List.drop_drop⟩⟩
    rw [substr, Nat.add_sub_cancel_left]
  · refine ⟨?_, .inl ⟨rfl, List.drop_eq_nil_of_le (by omega)⟩⟩
    rw [substr, List.take_of_length_le (by omega), List.take_of_length_le (by omega)]

/-- **The loop reads the words** of what is left of the string. The induction is on the fuel, of which every
character takes at most one. -/
theorem splitLoop_eq (small : s.length < npos) (inside : pos ≤ s.length) (enough : s.length < pos + fuel) :
    splitLoop s fuel (findFirst (fun b => !isBlank b) s pos) = Shell.split (s.drop pos) := by
  induction fuel generalizing pos with
  | zero => omega
  | succ fuel ih =>
    have size : (s.drop pos).length = s.length - pos := List.length_drop
    have drop : (s.drop pos).dropWhile isBlank = _ := List.dropWhile_eq_drop_findIdx_not
    have bound : (s.drop pos).findIdx (fun b => !isBlank b) ≤ (s.drop pos).length := List.findIdx_le_length
    rw [Shell.split, Words.words_eq]
    cases core : (s.drop pos).dropWhile isBlank with
    | nil =>
      rw [core] at drop
      have length := congrArg List.length drop
      rw [List.length_nil, List.length_drop] at length
      have nowhere : findFirst (fun b => !isBlank b) s pos = npos := by
        rw [findFirst]
        exact if_neg (by omega)
      rw [nowhere, splitLoop, if_pos rfl]
    | cons x rest =>
      have head := Words.head_dropWhile isBlank (s.drop pos) x (by rw [core]; rfl)
      rw [core, List.drop_drop] at drop
      have length := congrArg List.length drop
      rw [List.length_cons, List.length_drop] at length
      have start : findFirst (fun b => !isBlank b) s pos = pos + (s.drop pos).findIdx fun b => !isBlank b := by
        rw [findFirst]
        exact if_pos (by omega)
      have ahead := Nat.le_add_right pos ((s.drop pos).findIdx fun b => !isBlank b)
      rw [start, splitLoop]
      generalize pos + (s.drop pos).findIdx (fun b => !isBlank b) = first at *
      have within : first < s.length := by omega
      obtain ⟨token, behind⟩ := findFirst_blank small within
      rw [← drop] at token behind
      rw [if_neg (by omega)]
      simp only [token]
      congr 1
      rcases behind with ⟨nowhere, ended⟩ | ⟨le, within', ended⟩
      · rw [nowhere, ended, if_pos rfl]
        cases fuel with
        | zero => rfl
        | succ fuel => rw [splitLoop, if_pos rfl]; rfl
      · have further : findFirst isBlank s first ≠ first := by
          intro same
          rw [same, ← drop, List.dropWhile_cons_of_pos (by simp [head])] at ended
          have := congrArg List.length ended
          have := List.length_dropWhile_le (fun y => !isBlank y) rest
          simp only [List.length_cons] at *
          omega
        rw [if_neg (by omega), ended]
        exact ih (by omega) (by omega)

/-- **`_split` by position** splits. -/
theorem split_eq (small : s.length < npos) : split s = Shell.split s := by
  rw [split, splitLoop_eq small (Nat.zero_le _) (by omega), List.drop_zero]

/-! ## Selecting a command -/

theorem length_removeBackground_le (s : Text) : (Shell.removeBackground s).length ≤ s.length := by
  have short := length_trim_le s
  have short' := length_trim_le (Shell.trim s).dropLast
  rw [List.length_dropLast] at short'
  unfold Shell.removeBackground
  simp only
  split_ifs
  · omega
  · exact short

theorem removeBackground_eq (small : s.length < npos) : removeBackground s = Shell.removeBackground s := by
  have short := length_trim_le s
  have dropped : (Shell.trim s).dropLast.length < npos := by
    rw [List.length_dropLast]
    omega
  simp only [removeBackground, Shell.removeBackground, trim_eq small, trim_eq dropped]

/-- The tokens are those of `clean` in `createCommand`. -/
theorem selected_eq (small : s.length < npos) : selected s = Shell.split
    (if isBackground (Shell.trim s) then Shell.removeBackground (Shell.trim s) else Shell.trim s) := by
  have short := length_trim_le s
  have small' : (Shell.trim s).length < npos := by omega
  simp only [selected, trim_eq small, trim_eq small', removeBackground_eq small', isBackground]
  apply split_eq
  split_ifs
  · rw [Shell.removeBackground_trim]
    have := length_removeBackground_le s
    omega
  · exact small'

end Positions

/-- **Tokenising is exact and stable.** For every string, `_split` gives the maximal runs without blanks in order,
trimming changes nothing, and neither does joining the tokens with single blanks. The tokens that a built-in command
reads are those by which `createCommand` selected it. -/
theorem split_exact (s : StdString) :
    (∃ runs : List (Nat × Text), Positions.split s.1 = runs.map Prod.snd ∧ runs.Pairwise (fun r r' => r.1 < r'.1) ∧
      ∀ k m, (k, m) ∈ runs ↔ Words.IsRun isBlank s.1 k m) ∧
    Positions.split (Positions.trim s.1) = Positions.split s.1 ∧
    Positions.split ([32].intercalate (Positions.split s.1)) = Positions.split s.1 ∧
    ∀ b cmdLine, createCommand s.1 = some (.builtIn b cmdLine) → cmdLine = Positions.trim s.1 ∧
      Positions.split (Positions.removeBackground cmdLine) = Positions.selected s.1 ∧
      ∃ args, Positions.selected s.1 = b.name :: args := by
  obtain ⟨s, small⟩ := s
  have short := Positions.length_trim_le s
  simp only [Positions.split_eq small, Positions.trim_eq small]
  refine ⟨Words.words_runs isBlank s, ?_, ?_, fun b cmdLine created => ?_⟩
  · rw [Positions.split_eq (by omega)]
    exact Words.words_trim s
  · have joined : ([32].intercalate (split s)).length ≤ s.length := (Words.length_intercalate_words 32 s).1
    rw [Positions.split_eq]
    · exact Words.words_intercalate rfl fun m => Words.of_mem_words
    · exact Nat.lt_of_le_of_lt joined small
  · obtain ⟨rfl, -, -, args, words⟩ := createCommand_builtIn created
    have clean : Positions.selected s = argsOf (trim s) := by
      rw [Positions.selected_eq small, clean_eq, argsOf, removeBackground_trim]
    have small' : (trim s).length < npos := by omega
    refine ⟨rfl, ?_, args, clean.trans words⟩
    rw [clean, Positions.removeBackground_eq small', Positions.split_eq]
    · rfl
    · exact Nat.lt_of_le_of_lt (Positions.length_removeBackground_le _) small'

/-- A line with odd blanks around its `&`. -/
theorem split_exact_jobs : Positions.split (Positions.removeBackground (lit "jobs  x  &")) =
    Positions.selected (lit "  jobs  x  & ") :=
  ((split_exact ⟨lit "  jobs  x  & ", by decide⟩).2.2.2 .jobs (lit "jobs  x  &") rfl).2.1

end OsProjects.Shell
