import Mathlib.Data.List.Infix
import Mathlib.Data.List.TakeWhile
import Mathlib.Data.Nat.Digits.Defs

/-!
# Strings of C

A C string is the list of its bytes before the terminator. What `printf` makes of numbers,
the string functions of the library, and how a line of text is found again by its label.
-/

namespace OsProjects.CText

abbrev Bytes := List UInt8

/-- A string literal. -/
def lit (s : String) : Bytes := s.toList.map fun c => UInt8.ofNat c.toNat

/-! ## Numbers -/

def digits (n : Nat) : Bytes := (Nat.toDigits 10 n).map fun c => UInt8.ofNat c.toNat

/-- `%d` and `%ld`. -/
def printd (x : Int) : Bytes := if x < 0 then lit "-" ++ digits x.natAbs else digits x.natAbs

/-- `%06ld`: zeros between the sign and the digits, up to a width of six. -/
def printd06 (x : Int) : Bytes :=
  let sign := if x < 0 then lit "-" else []
  sign ++ List.replicate (6 - (sign.length + (digits x.natAbs).length)) 48 ++ digits x.natAbs

def isDigit (b : UInt8) : Bool := 48 ≤ b && b ≤ 57

/-- The number at the start of a string. -/
def readNat (b : Bytes) : Nat := Nat.ofDigitChars 10 ((b.takeWhile isDigit).map fun d => Char.ofNat d.toNat) 0

def readInt (b : Bytes) : Int := if b.head? = some 45 then -(readNat b.tail : Int) else readNat b

theorem mem_toDigits {n : Nat} {c : Char} (mem : c ∈ Nat.toDigits 10 n) : 48 ≤ c.toNat ∧ c.toNat ≤ 57 := by
  have digit := Nat.isDigit_of_mem_toDigits (by decide) (by decide) mem
  simp only [Char.isDigit, Bool.and_eq_true, decide_eq_true_eq] at digit
  exact digit

theorem mem_digits {n : Nat} {b : UInt8} (mem : b ∈ digits n) : isDigit b = true := by
  obtain ⟨c, inDigits, rfl⟩ := List.mem_map.mp mem
  have range := mem_toDigits inDigits
  simp only [isDigit, Bool.and_eq_true, decide_eq_true_eq, UInt8.le_iff_toNat_le, UInt8.toNat_ofNat']
  rw [Nat.mod_eq_of_lt (by omega)]
  exact range

theorem digits_chars (n : Nat) : (digits n).map (fun d => Char.ofNat d.toNat) = Nat.toDigits 10 n := by
  unfold digits
  rw [List.map_map]
  refine (List.map_congr_left ?_).trans (List.map_id _)
  intro c mem
  have range := mem_toDigits mem
  simp only [Function.comp_apply, UInt8.toNat_ofNat', id_eq]
  rw [Nat.mod_eq_of_lt (by omega), Char.ofNat_toNat]

/-- **Reading a number back**, up to the next byte that is not a digit. -/
theorem readNat_digits (n : Nat) {rest : Bytes} (stop : ∀ b ∈ rest.head?, isDigit b = false) :
    readNat (digits n ++ rest) = n := by
  have rest' : rest.takeWhile isDigit = [] := by
    cases rest with
    | nil => rfl
    | cons b rest => simp [stop b rfl]
  unfold readNat
  rw [List.takeWhile_append_of_pos fun b => mem_digits, rest', List.append_nil, digits_chars]
  exact Nat.ofDigitChars_toDigits (by decide) (by decide)

theorem digits_head (n : Nat) (rest : Bytes) : (digits n ++ rest).head? ≠ some 45 := by
  intro head
  cases eq : digits n with
  | nil => exact Nat.toDigits_ne_nil (List.map_eq_nil_iff.mp eq)
  | cons b bs =>
    rw [eq] at head
    obtain rfl : b = 45 := Option.some_inj.mp head
    exact absurd (mem_digits (n := n) (eq ▸ List.mem_cons_self)) (by decide)

theorem readInt_minus (b : Bytes) : readInt (lit "-" ++ b) = -(readNat b : Int) := if_pos rfl

theorem readInt_printd (x : Int) {rest : Bytes} (stop : ∀ b ∈ rest.head?, isDigit b = false) :
    readInt (printd x ++ rest) = x := by
  unfold printd
  split_ifs with neg
  · rw [List.append_assoc, readInt_minus, readNat_digits _ stop]
    omega
  · unfold readInt
    rw [if_neg (digits_head _ _), readNat_digits _ stop]
    omega

/-- Leading zeros do not count. -/
theorem printd_injective : Function.Injective printd := by
  intro x y same
  have readBack : ∀ z, readInt (printd z ++ []) = z := fun z => readInt_printd z fun _ e => nomatch e
  rw [← readBack x, same, readBack]

theorem readNat_zeros (k n : Nat) {rest : Bytes} (stop : ∀ b ∈ rest.head?, isDigit b = false) :
    readNat (List.replicate k 48 ++ digits n ++ rest) = n := by
  have same : readNat (List.replicate k 48 ++ digits n ++ rest) = readNat (digits n ++ rest) := by
    induction k with
    | zero => rfl
    | succ k ih =>
      rw [← ih]
      unfold readNat
      rw [List.replicate_succ, List.cons_append, List.cons_append, List.takeWhile_cons_of_pos (by decide), List.map_cons,
        Nat.ofDigitChars_cons]
      rfl
  rw [same, readNat_digits n stop]

theorem readInt_printd06 (x : Int) {rest : Bytes} (stop : ∀ b ∈ rest.head?, isDigit b = false) :
    readInt (printd06 x ++ rest) = x := by
  have zeros := fun k => readNat_zeros k x.natAbs stop
  unfold printd06
  by_cases neg : x < 0
  · simp only [if_pos neg]
    rw [List.append_assoc, List.append_assoc, readInt_minus, ← List.append_assoc, zeros]
    omega
  · simp only [if_neg neg, List.nil_append]
    unfold readInt
    rw [if_neg, zeros]
    · omega
    · cases 6 - (([] : Bytes).length + (digits x.natAbs).length) with
      | zero => exact digits_head _ _
      | succ k => exact fun head => absurd (Option.some_inj.mp head) (by decide)

/-! ## Bytes that do not occur -/

theorem le_of_mem_digits {n : Nat} {b : UInt8} (mem : b ∈ digits n) : 45 ≤ b := by
  have digit := mem_digits mem
  simp only [isDigit, Bool.and_eq_true, decide_eq_true_eq] at digit
  have low : (45 : UInt8) ≤ 48 := by decide
  exact UInt8.le_trans low digit.1

/-- No byte of a number is a control character. -/
theorem mem_printd {x : Int} {b : UInt8} (mem : b ∈ printd x) : 45 ≤ b := by
  unfold printd at mem
  split_ifs at mem
  · rcases List.mem_append.mp mem with minus | mem
    · obtain rfl : b = 45 := List.mem_singleton.mp minus
      decide
    · exact le_of_mem_digits mem
  · exact le_of_mem_digits mem

theorem printd_no_point {x : Int} : 46 ∉ printd x := by
  intro mem
  have digit : 46 ∉ digits x.natAbs := fun mem => absurd (mem_digits mem) (by decide)
  unfold printd at mem
  split_ifs at mem
  · rcases List.mem_append.mp mem with minus | mem
    · exact absurd minus (by decide)
    · exact digit mem
  · exact digit mem

theorem mem_printd06 {x : Int} {b : UInt8} (mem : b ∈ printd06 x) : 45 ≤ b := by
  rcases List.mem_append.mp mem with mem | mem
  · rcases List.mem_append.mp mem with mem | mem
    · split_ifs at mem
      · obtain rfl : b = 45 := List.mem_singleton.mp mem
        decide
      · exact absurd mem List.not_mem_nil
    · rw [List.eq_of_mem_replicate mem]
      decide
  · exact le_of_mem_digits mem

/-! ## Lines -/

/-- What follows a label, on the first line that starts with it. -/
def labelled (label : String) (text : Bytes) : Option Bytes :=
  (text.splitOn 10).findSome? fun line =>
    if (lit label).isPrefixOf line then some (line.drop (lit label).length) else none

variable {label lab : String} {value rest : Bytes}

theorem splitOn_line {line : Bytes} (no : 10 ∉ line) (rest : Bytes) :
    (line ++ 10 :: rest).splitOn 10 = line :: rest.splitOn 10 := by
  apply List.splitOnP_append_cons_of_forall_mem
  · intro b mem
    rw [beq_eq_false_iff_ne]
    rintro rfl
    exact no mem
  · rfl

/-- A line with another label is passed over. -/
theorem labelled_skip (differ : ¬lit label <+: lit lab ∧ ¬lit lab <+: lit label) (no : 10 ∉ lit lab ++ value) :
    labelled label (lit lab ++ value ++ 10 :: rest) = labelled label rest := by
  unfold labelled
  rw [splitOn_line no, List.findSome?_cons]
  have other : (lit label).isPrefixOf (lit lab ++ value) = false := by
    apply Bool.eq_false_iff.mpr
    intro found
    rcases List.prefix_or_prefix_of_prefix (List.isPrefixOf_iff_prefix.mp found) (List.prefix_append (lit lab) value) with
      pre | pre
    · exact differ.1 pre
    · exact differ.2 pre
  rw [other]
  rfl

/-- The line with the label. -/
theorem labelled_line (no : 10 ∉ lit label ++ value) :
    labelled label (lit label ++ value ++ 10 :: rest) = some value := by
  unfold labelled
  rw [splitOn_line no, List.findSome?_cons]
  have found : (lit label).isPrefixOf (lit label ++ value) = true :=
    List.isPrefixOf_iff_prefix.mpr (List.prefix_append _ _)
  rw [if_pos found, List.drop_left]

/-! ## The string functions -/

/-- The string in an array. -/
def cstring (buf : Bytes) : Bytes := buf.takeWhile (· != 0)

theorem cstring_eq {buf : Bytes} (noNul : 0 ∉ buf) : cstring buf = buf := by
  unfold cstring
  apply List.takeWhile_eq_self_iff.mpr
  intro b mem
  rw [bne_iff_ne]
  rintro rfl
  exact noNul mem

/-- `snprintf` into an array of `size` bytes. -/
def snprintf (size : Nat) (text : Bytes) : Bytes := text.take (size - 1)

/-- `strstr(text, part) != NULL`. -/
def strstr (text part : Bytes) : Bool := text.tails.any part.isPrefixOf

/-- `isspace` of the C locale. -/
def isSpace (b : UInt8) : Bool := b == 32 || (9 ≤ b && b ≤ 13)

theorem digit_range {d : UInt8} (digit : isDigit d = true) : 48 ≤ d.toNat ∧ d.toNat ≤ 57 := by
  simpa [isDigit, UInt8.le_iff_toNat_le] using digit

theorem digit_not_space {d : UInt8} (digit : isDigit d = true) : ¬isSpace d = true := by
  have range := digit_range digit
  have top : (13 : UInt8).toNat = 13 := rfl
  simp only [isSpace, Bool.or_eq_true, beq_iff_eq, Bool.and_eq_true, decide_eq_true_eq, UInt8.le_iff_toNat_le]
  rintro (rfl | ⟨-, high⟩)
  · exact absurd range.1 (by decide)
  · omega

/-- `%s` of `sscanf`: the next word and what follows it; `none` at the end of the string. -/
def scanWord (text : Bytes) : Option (Bytes × Bytes) :=
  match text.dropWhile isSpace with
  | [] => none
  | b :: rest => some ((b :: rest).takeWhile fun c => !isSpace c, (b :: rest).dropWhile fun c => !isSpace c)

/-- A word is somewhere in the text, with blanks before it and what follows behind it. -/
theorem scanWord_spec {text word rest : Bytes} (scan : scanWord text = some (word, rest)) :
    (∃ blank, text = blank ++ word ++ rest) ∧ word ≠ [] ∧ ∀ b ∈ word, isSpace b = false := by
  unfold scanWord at scan
  match start : text.dropWhile isSpace with
  | [] =>
    rw [start] at scan
    exact nomatch scan
  | b :: tail =>
    rw [start] at scan
    obtain ⟨rfl, rfl⟩ := Prod.mk.inj (Option.some_inj.mp scan)
    refine ⟨⟨text.takeWhile isSpace, ?_⟩, ?_, ?_⟩
    · rw [List.append_assoc, List.takeWhile_append_dropWhile, ← start, List.takeWhile_append_dropWhile]
    · have notSpace : isSpace b = false := by
        have head := List.head?_dropWhile_not isSpace text
        rw [start] at head
        exact head
      rw [List.takeWhile_cons, notSpace]
      exact nofun
    · intro c mem
      have word := List.mem_takeWhile_imp mem
      exact Bool.not_eq_eq_eq_not.mp word

/-- A word behind blanks, up to a blank or the end. -/
theorem scanWord_word {blank word rest : Bytes} (blanks : ∀ b ∈ blank, isSpace b = true) (some : word ≠ [])
    (plain : ∀ b ∈ word, isSpace b = false) (stop : ∀ b ∈ rest.head?, isSpace b = true) :
    scanWord (blank ++ word ++ rest) = Option.some (word, rest) := by
  obtain ⟨c, word, rfl⟩ := List.exists_cons_of_ne_nil some
  have start : (blank ++ c :: word ++ rest).dropWhile isSpace = c :: word ++ rest := by
    rw [List.append_assoc, List.dropWhile_append_of_pos blanks, List.cons_append, List.dropWhile_cons_of_neg]
    simp [plain c List.mem_cons_self]
  have inWord : ∀ b ∈ c :: word, (!isSpace b) = true := fun b mem => by simp [plain b mem]
  have outside : rest.takeWhile (fun b => !isSpace b) = [] ∧ rest.dropWhile (fun b => !isSpace b) = rest := by
    cases rest with
    | nil => exact ⟨rfl, rfl⟩
    | cons b rest => simp [stop b rfl]
  unfold scanWord
  rw [start]
  change Option.some ((c :: word ++ rest).takeWhile _, (c :: word ++ rest).dropWhile _) = _
  rw [List.takeWhile_append_of_pos inWord, List.dropWhile_append_of_pos inWord, outside.1, outside.2, List.append_nil]

theorem scanWord_length {text word rest : Bytes} (scan : scanWord text = some (word, rest)) :
    word.length + rest.length ≤ text.length := by
  obtain ⟨⟨blank, rfl⟩, -, -⟩ := scanWord_spec scan
  rw [List.length_append, List.length_append]
  omega

/-- `tolower` of the C locale. -/
def toLower (b : UInt8) : UInt8 := if 65 ≤ b && b ≤ 90 then b + 32 else b

/-- `strcasecmp(a, b) == 0`. -/
def sameIgnoringCase (a b : Bytes) : Bool := a.map toLower == b.map toLower

end OsProjects.CText
