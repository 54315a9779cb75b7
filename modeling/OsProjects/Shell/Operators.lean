import OsProjects.Shell.Commands

/-!
# Lines with an operator

`createCommand` looks for `|&`, `|`, `>>` and `>` in this order, and the command that it makes looks
for its operator once more to cut the line. A line is cut at the first operator that it shows when
nothing behind it is found earlier in that order; otherwise the operator stands in the left side.
-/

namespace OsProjects.Shell

open CText

variable {f front r u tail : Text}

/-- `>`, `>>`, `|` and `|&`. -/
inductive Operator where
  | write
  | append
  | pipe
  | pipeErr

namespace Operator

def sign : Operator → Text
  | write => [gt]
  | append => [gt, gt]
  | pipe => [bar]
  | pipeErr => [bar, amp]

/-- The operator with the blanks around it. -/
def text : Operator → Text
  | write => lit " > "
  | append => lit " >> "
  | pipe => lit " | "
  | pipeErr => lit " |& "

/-- The command that `createCommand` makes. -/
def command (cmdLine : Text) : Operator → Command
  | write => .redirection cmdLine false
  | append => .redirection cmdLine true
  | pipe => .pipe cmdLine false
  | pipeErr => .pipe cmdLine true

/-- The two sides of its line. -/
def sidesOf (cmdLine : Text) : Operator → Option (Text × Text)
  | write => redirectionSides cmdLine false
  | append => redirectionSides cmdLine true
  | pipe => pipeSides cmdLine false
  | pipeErr => pipeSides cmdLine true

/-- A right side in which no operator is found before this one. -/
def Cuts (right : Text) : Operator → Prop
  | write => bar ∉ right ∧ ¬[gt, gt] <:+: right
  | append => bar ∉ right
  | pipe => ¬[bar, amp] <:+: right
  | pipeErr => True

variable {op : Operator}

theorem text_eq (op : Operator) : op.text = [32] ++ op.sign ++ [32] := by cases op <;> rfl

theorem sign_ne_nil (op : Operator) : op.sign ≠ [] := by cases op <;> exact List.cons_ne_nil _ _

theorem sign_trimmed (op : Operator) : Trimmed op.sign := by
  have trimmed : trim op.sign = op.sign := by cases op <;> rfl
  exact trimmed ▸ trimmed_trim op.sign

/-- An operator ends a word. -/
theorem endsWord_sign (op : Operator) (rest : Text) :
    ∀ x ∈ (op.sign ++ rest).head?, SmashShell.endsWord x = true := by
  intro x head
  cases op with
  | write | append =>
    obtain rfl : gt = x := Option.some_inj.mp head
    rfl
  | pipe | pipeErr =>
    obtain rfl : bar = x := Option.some_inj.mp head
    rfl

/-- Blanks around the right side change nothing. -/
theorem cuts_tail : op.Cuts ((32 :: f).rdropWhile isBlank) ↔ op.Cuts f := by
  have pre : (32 :: f).rdropWhile isBlank <+: 32 :: f := List.rdropWhile_prefix _ _
  have mem : ∀ {x : UInt8}, isBlank x = false → (x ∈ (32 :: f).rdropWhile isBlank ↔ x ∈ f) := by
    intro x no
    have ne : x ≠ 32 := by
      rintro rfl
      exact Bool.noConfusion no
    constructor
    · exact fun inTail => (List.mem_cons.mp (pre.subset inTail)).resolve_left ne
    · intro inF
      obtain ⟨before, after, rfl⟩ := List.append_of_mem inF
      rw [← List.cons_append, Words.rdropWhile_append_cons no]
      exact List.mem_append_right _ List.mem_cons_self
  have pair : ∀ {x y : UInt8}, x ≠ 32 → isBlank y = false →
      ([x, y] <:+: (32 :: f).rdropWhile isBlank ↔ [x, y] <:+: f) := by
    intro x y ne no
    constructor
    · intro inTail
      rcases List.infix_cons_iff.mp (inTail.trans pre.isInfix) with start | inner
      · exact absurd (List.cons_prefix_cons.mp start).1 ne
      · exact inner
    · rintro ⟨before, after, rfl⟩
      have cut : 32 :: (before ++ [x, y] ++ after) = (32 :: before ++ [x]) ++ y :: after := by
        simp only [List.append_assoc, List.cons_append, List.nil_append]
      rw [cut, Words.rdropWhile_append_cons no]
      exact ⟨32 :: before, after.rdropWhile isBlank, by simp only [List.append_assoc, List.cons_append, List.nil_append]⟩
  cases op with
  | write => exact and_congr (not_congr (mem rfl)) (not_congr (pair (by decide) rfl))
  | append => exact not_congr (mem rfl)
  | pipe => exact not_congr (pair (by decide) rfl)
  | pipeErr => exact Iff.rfl

end Operator

theorem sides_append (front sign tail : Text) :
    sides (front ++ (sign ++ tail)) sign.length front.length = (trim front, trim tail) := by
  have drop : (front ++ (sign ++ tail)).drop (front.length + sign.length) = tail := by
    rw [← List.drop_drop, List.drop_left, List.drop_left]
  rw [sides, List.take_left, drop]

variable {op : Operator}

/-- A trimmed line with the operator and none before it. -/
structure Operator.Line (op : Operator) (front tail : Text) : Prop where
  trimmed : Trimmed (front ++ (op.sign ++ tail))
  noBar : bar ∉ front
  noGt : gt ∉ front
  start : ∀ x ∈ tail.head?, x = 32

/-- A character that is no blank does not follow the operator. -/
theorem Operator.Line.next {x : UInt8} (l : op.Line front tail) (ne : x ≠ 32) : tail.head? ≠ some x :=
  fun head => ne (l.start _ head)

/-- **A line is cut at its operator** when no other is found before it. -/
theorem createCommand_cut (l : op.Line front tail) (cuts : op.Cuts tail) :
    createCommand (front ++ (op.sign ++ tail)) = some (op.command (front ++ (op.sign ++ tail))) ∧
      op.sidesOf (front ++ (op.sign ++ tail)) = some (trim front, trim tail) := by
  have line := trim_of_trimmed l.trimmed
  have sides := sides_append front op.sign tail
  have nonempty : front ++ (op.sign ++ tail) ≠ [] := by simp [op.sign_ne_nil]
  have err : lit "|&" = [bar, amp] := rfl
  have twice : lit ">>" = [gt, gt] := rfl
  cases op with
  | write =>
    have noBar' : bar ∉ front ++ ([gt] ++ tail) := by
      simp only [List.mem_append, List.mem_singleton, not_or]
      exact ⟨l.noBar, by decide, cuts.1⟩
    have pipeErr : find [bar, amp] (front ++ ([gt] ++ tail)) = none := find_eq_none List.mem_cons_self noBar'
    have append : find [gt, gt] (front ++ ([gt] ++ tail)) = none := by
      rw [← Option.not_isSome_iff_eq_none, find_isSome_iff]
      exact not_infix_pair l.noGt (l.next (by decide)) cuts.2
    have found : findSingle gt gt (front ++ ([gt] ++ tail)) = some front.length := findSingle_append l.noGt (l.next (by decide))
    simp only [Operator.sign] at line sides nonempty ⊢
    simp only [createCommand, Operator.command, Operator.sidesOf, redirectionSides, line, if_neg nonempty, err, twice,
      pipeErr, findSingle_eq_none noBar', append, found, Option.isSome_none, Option.isSome_some, Bool.false_eq_true,
      if_false, if_true, Option.map_some, true_and]
    exact congrArg some sides
  | append =>
    have noBar' : bar ∉ front ++ ([gt, gt] ++ tail) := by
      simp only [List.mem_append, List.mem_cons, List.not_mem_nil, or_false, not_or]
      exact ⟨l.noBar, ⟨by decide, by decide⟩, cuts⟩
    have pipeErr : find [bar, amp] (front ++ ([gt, gt] ++ tail)) = none := find_eq_none List.mem_cons_self noBar'
    have found : find [gt, gt] (front ++ ([gt, gt] ++ tail)) = some front.length := find_append l.noGt
    simp only [Operator.sign] at line sides nonempty ⊢
    simp only [createCommand, Operator.command, Operator.sidesOf, redirectionSides, line, if_neg nonempty, err, twice,
      pipeErr, findSingle_eq_none noBar', found, Option.isSome_none, Option.isSome_some, Bool.false_eq_true,
      if_false, if_true, Option.map_some, true_and]
    exact congrArg some sides
  | pipe =>
    have pipeErr : find [bar, amp] (front ++ ([bar] ++ tail)) = none := by
      rw [← Option.not_isSome_iff_eq_none, find_isSome_iff]
      exact not_infix_pair l.noBar (l.next (by decide)) cuts
    have found : findSingle bar amp (front ++ ([bar] ++ tail)) = some front.length :=
      findSingle_append l.noBar (l.next (by decide))
    simp only [Operator.sign] at line sides nonempty ⊢
    simp only [createCommand, Operator.command, Operator.sidesOf, pipeSides, line, if_neg nonempty, err,
      pipeErr, found, Option.isSome_none, Option.isSome_some, Bool.false_eq_true, if_false, if_true, Option.map_some,
      true_and]
    exact congrArg some sides
  | pipeErr =>
    have found : find [bar, amp] (front ++ ([bar, amp] ++ tail)) = some front.length := find_append l.noBar
    simp only [Operator.sign] at line sides nonempty ⊢
    simp only [createCommand, Operator.command, Operator.sidesOf, pipeSides, line, if_neg nonempty, err, found,
      Option.isSome_some, if_true, Option.map_some, true_and]
    exact congrArg some sides

/-- What trimming leaves of a line with an operator. -/
theorem trim_operator (op : Operator) (r f : Text) : trim (r ++ op.text ++ f) =
    (r ++ [32]).dropWhile isBlank ++ (op.sign ++ (32 :: f).rdropWhile isBlank) := by
  have line : r ++ op.text ++ f = (r ++ [32]) ++ op.sign ++ (32 :: f) := by
    rw [op.text_eq]
    simp only [List.append_assoc, List.singleton_append]
  rw [line, trim, Words.trim_append_append op.sign_trimmed op.sign_ne_nil, List.append_assoc]

theorem Operator.line (op : Operator) (noBar : bar ∉ r) (noGt : gt ∉ r) (f : Text) :
    op.Line ((r ++ [32]).dropWhile isBlank) ((32 :: f).rdropWhile isBlank) := by
  have absent : ∀ {x : UInt8}, x ≠ 32 → x ∉ r → x ∉ (r ++ [32]).dropWhile isBlank := by
    intro x ne no mem
    rcases List.mem_append.mp ((List.dropWhile_sublist _).subset mem) with mem | mem
    · exact no mem
    · exact ne (List.mem_singleton.mp mem)
  constructor
  · rw [← trim_operator]
    exact trimmed_trim _
  · exact absent (by decide) noBar
  · exact absent (by decide) noGt
  · intro x head
    have pre : (32 :: f).rdropWhile isBlank <+: 32 :: f := List.rdropWhile_prefix _ _
    obtain ⟨rest, eq⟩ := pre
    have first : (32 :: f).head? = some x := by
      rw [← eq, List.head?_append, head]
      rfl
    exact (Option.some_inj.mp first).symm

/-- **A line with an operator behind `r`** has the trimmed `r` as its left side. -/
theorem createCommand_operator (op : Operator) (noBar : bar ∉ r) (noGt : gt ∉ r) (cuts : op.Cuts f) :
    createCommand (r ++ op.text ++ f) = some (op.command (trim (r ++ op.text ++ f))) ∧
      op.sidesOf (trim (r ++ op.text ++ f)) = some (trim r, trim f) := by
  have blank : ∀ x ∈ ([32] : Text), isBlank x = true := by
    intro x mem
    rw [List.mem_singleton.mp mem]
    rfl
  have left : trim ((r ++ [32]).dropWhile isBlank) = trim r :=
    (Words.trim_dropWhile _).trans (Words.trim_append_blanks blank)
  have right : trim ((32 :: f).rdropWhile isBlank) = trim f :=
    (Words.trim_rdropWhile _).trans (Words.trim_blanks_append (a := [32]) blank)
  obtain ⟨created, sides⟩ := createCommand_cut (op.line noBar noGt f) (Operator.cuts_tail.mpr cuts)
  rw [← createCommand_congr (trim_trim (r ++ op.text ++ f)), trim_operator]
  rw [left, right] at sides
  exact ⟨created, sides⟩

/-! ## Another operator -/

/-- A line with a `|` is a pipe. -/
theorem createCommand_of_bar (mem : bar ∈ trim u) :
    createCommand u = some (.pipe (trim u) (find [bar, amp] (trim u)).isSome) := by
  have nonempty := List.ne_nil_of_mem mem
  have err : lit "|&" = [bar, amp] := rfl
  simp only [createCommand, if_neg nonempty, err]
  split_ifs with pipeErr pipe
  · rw [pipeErr]
  · rw [Bool.eq_false_iff.mpr pipeErr]
  all_goals
    exfalso
    exact not_mem_of_no_operator (Option.not_isSome_iff_eq_none.mp pipeErr) (Option.not_isSome_iff_eq_none.mp pipe) mem

/-- A line with a `>` and no `|` is a redirection. -/
theorem createCommand_of_gt (noBar : bar ∉ trim u) (mem : gt ∈ trim u) :
    createCommand u = some (.redirection (trim u) (find [gt, gt] (trim u)).isSome) := by
  have nonempty := List.ne_nil_of_mem mem
  have err : lit "|&" = [bar, amp] := rfl
  have twice : lit ">>" = [gt, gt] := rfl
  have pipeErr : find [bar, amp] (trim u) = none := find_eq_none List.mem_cons_self noBar
  simp only [createCommand, if_neg nonempty, err, twice, pipeErr, findSingle_eq_none noBar, Option.isSome_none,
    Bool.false_eq_true, if_false]
  split_ifs with append truncate
  · rw [append]
  · rw [Bool.eq_false_iff.mpr append]
  all_goals
    exfalso
    exact not_mem_of_no_operator (Option.not_isSome_iff_eq_none.mp append) (Option.not_isSome_iff_eq_none.mp truncate) mem

/-- The left side of a pipe ends at a `|`. -/
theorem pipeSides_some {stderrPipe : Bool} {both : Text × Text} (sides : pipeSides u stderrPipe = some both) :
    ∃ left rest, trim u = left ++ bar :: rest ∧ both.1 = trim left ∧ (stderrPipe = true → rest.head? = some amp) := by
  have err : lit "|&" = [bar, amp] := rfl
  cases stderrPipe with
  | true =>
    simp only [pipeSides, err, if_true, Option.map_eq_some_iff] at sides
    obtain ⟨p, found, rfl⟩ := sides
    obtain ⟨left, rest, eq, rfl⟩ := find_some found
    exact ⟨left, amp :: rest, eq, by rw [sides, eq, List.take_left], fun _ => rfl⟩
  | false =>
    simp only [pipeSides, Bool.false_eq_true, if_false, Option.map_eq_some_iff] at sides
    obtain ⟨p, found, rfl⟩ := sides
    obtain ⟨left, rest, eq, rfl⟩ := findSingle_some found
    exact ⟨left, rest, eq, by rw [sides, eq, List.take_left], fun e => nomatch e⟩

/-- The left side of a redirection ends at a `>`. -/
theorem redirectionSides_some {append : Bool} {both : Text × Text} (sides : redirectionSides u append = some both) :
    ∃ left rest, trim u = left ++ gt :: rest ∧ both.1 = trim left ∧ (append = true → rest.head? = some gt) := by
  have twice : lit ">>" = [gt, gt] := rfl
  cases append with
  | true =>
    simp only [redirectionSides, twice, if_true, Option.map_eq_some_iff] at sides
    obtain ⟨p, found, rfl⟩ := sides
    obtain ⟨left, rest, eq, rfl⟩ := find_some found
    exact ⟨left, gt :: rest, eq, by rw [sides, eq, List.take_left], fun _ => rfl⟩
  | false =>
    simp only [redirectionSides, Bool.false_eq_true, if_false, Option.map_eq_some_iff] at sides
    obtain ⟨p, found, rfl⟩ := sides
    obtain ⟨left, rest, eq, rfl⟩ := findSingle_some found
    exact ⟨left, rest, eq, by rw [sides, eq, List.take_left], fun e => nomatch e⟩

/-- Two cuts of a line, the second at a character that does not stand before the first: it is not earlier. -/
theorem mem_of_cuts {x d : UInt8} {front rest front' rest' : Text} (eq : front ++ x :: rest = front' ++ d :: rest')
    (no : d ∉ front) (later : x :: rest ≠ d :: rest') : x ∈ front' := by
  rcases List.append_eq_append_iff.mp eq with ⟨more, rfl, eq'⟩ | ⟨more, rfl, eq'⟩
  · cases more with
    | nil => exact absurd eq' later
    | cons y more =>
      obtain ⟨rfl, -⟩ := List.cons.inj eq'
      exact List.mem_append_right front List.mem_cons_self
  · cases more with
    | nil => exact absurd eq'.symm later
    | cons y more =>
      obtain ⟨rfl, -⟩ := List.cons.inj eq'
      exact absurd (List.mem_append_right front' List.mem_cons_self) no

end OsProjects.Shell
