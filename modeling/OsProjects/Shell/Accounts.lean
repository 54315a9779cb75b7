import OsProjects.Shell.Aliases
import OsProjects.Shell.Numbers

/-!
# The accounts that `whoami` reads

`whoami` takes `/etc/passwd` apart by hand: lines, fields between colons, a number among
them. On a file of accounts it finds the account of the user (`whoami_account`), with one
exception: `std::getline` does not see an empty last field, so an account without a shell
has a field too few and is passed by.
-/

namespace OsProjects.Shell

open CText

/-- A text that can be a field of `/etc/passwd`. -/
def IsField (text : Text) : Prop := ∀ b ∈ text, b ≠ 0 ∧ b ≠ 10 ∧ b ≠ 58

instance (text : Text) : Decidable (IsField text) := List.decidableBAll (fun b => b ≠ 0 ∧ b ≠ 10 ∧ b ≠ 58) text

/-- An account of `/etc/passwd`. -/
structure Account where
  name : Text
  password : Text
  uid : Nat
  gid : Nat
  gecos : Text
  home : Text
  shell : Text
  texts : ∀ text ∈ [name, password, gecos, home, shell], IsField text
  uid_lt : uid < 4294967296

namespace Account

def fields (a : Account) : List Text := [a.name, a.password, digits a.uid, digits a.gid, a.gecos, a.home, a.shell]

/-- The line of an account. -/
def line (a : Account) : Text := [58].intercalate a.fields

end Account

/-- `/etc/passwd`. -/
def passwdText (accounts : List Account) : Text := ((accounts.map Account.line).map (· ++ [10])).flatten

theorem isField_digits (n : Nat) : IsField (digits n) := by
  intro b mem
  have digit := mem_digits mem
  refine ⟨?_, ?_, ?_⟩
  all_goals
    rintro rfl
    exact absurd digit (by decide)

namespace Account

variable {a : Account} {field : Text}

theorem isField (mem : field ∈ a.fields) : IsField field := by
  have texts := a.texts
  simp only [fields, List.mem_cons, List.not_mem_nil, or_false] at mem texts
  rcases mem with rfl | rfl | rfl | rfl | rfl | rfl | rfl
  all_goals
    first
      | exact isField_digits _
      | exact texts _ (by simp)

theorem mem_line {b : UInt8} (mem : b ∈ a.line) : b ≠ 0 ∧ b ≠ 10 := by
  have parts : b = 58 ∨ ∃ field ∈ a.fields, b ∈ field := by
    simp only [line, fields, List.intercalate_cons_cons, List.intercalate_singleton, List.mem_append, List.mem_singleton] at mem
    simp only [fields, List.mem_cons, List.not_mem_nil, or_false, exists_eq_or_imp, exists_eq_left]
    tauto
  rcases parts with rfl | ⟨field, listed, mem⟩
  · decide
  · exact ⟨(isField listed b mem).1, (isField listed b mem).2.1⟩

theorem splitOn_line (a : Account) : a.line.splitOn 58 = a.fields := by
  apply List.splitOn_intercalate
  · exact fun field listed colon => (isField listed 58 colon).2.2 rfl
  · exact List.cons_ne_nil _ _

/-- The last field is not seen when it is empty. -/
theorem getlines_line (a : Account) : getlines 58 a.line = if a.shell = [] then a.fields.dropLast else a.fields := by
  simp only [getlines, splitOn_line]
  simp only [fields, List.getLast?_cons_cons, List.getLast?_singleton, Option.some_inj]

end Account

/-! ## Numbers -/

theorem stoul_digits {n : Nat} (small : n < 4294967296) : stoul (digits n) = some n := by
  have back : readNat (digits n ++ []) = n := readNat_digits n fun b mem => nomatch mem
  rw [List.append_nil] at back
  have read : strtol (digits n) = some (n : Int) := by
    cases eq : digits n with
    | nil => exact absurd (List.map_eq_nil_iff.mp eq) Nat.toDigits_ne_nil
    | cons d ds =>
      rw [strtol_digits (mem_digits (n := n) (eq ▸ List.mem_cons_self)), ← eq, back]
  unfold stoul
  rw [read, Option.bind_some, if_pos (by omega)]
  congr 1
  omega

/-! ## The lookup -/

variable {files : Files} {accounts : List Account}

/-- The account that is found for a user. -/
def accountOf (uid : Nat) (accounts : List Account) : Option Account := accounts.find? fun a => a.uid = uid ∧ a.shell ≠ []

/-- A line at a time: an account without a shell is passed by. -/
theorem findUser_line (uid : Nat) (a : Account) (lines : List Text) :
    findUser uid (a.line :: lines) = if a.uid = uid ∧ a.shell ≠ [] then some (a.name, a.home) else findUser uid lines := by
  rw [findUser, Account.getlines_line]
  by_cases empty : a.shell = []
  · rw [if_pos empty, if_neg fun found => found.2 empty]
    rfl
  · rw [if_neg empty]
    simp only [Account.fields, stoul_digits a.uid_lt, Nat.mod_eq_of_lt a.uid_lt, empty, ne_eq, not_false_iff, and_true]

theorem findUser_accounts (uid : Nat) (accounts : List Account) : findUser uid (accounts.map Account.line) =
    some (((accountOf uid accounts).map fun a => (a.name, a.home)).getD (lit "N/A", lit "N/A")) := by
  induction accounts with
  | nil => rfl
  | cons a accounts ih =>
    rw [List.map_cons, findUser_line, accountOf, List.find?_cons]
    by_cases found : a.uid = uid ∧ a.shell ≠ []
    · rw [if_pos found, decide_eq_true found]
      rfl
    · rw [if_neg found, decide_eq_false found]
      exact ih

theorem cString_passwdText (accounts : List Account) : cString (passwdText accounts) = passwdText accounts := by
  apply List.takeWhile_eq_self_iff.mpr
  intro b mem
  obtain ⟨_, broken, mem⟩ := List.mem_flatten.mp mem
  obtain ⟨_, listed, rfl⟩ := List.mem_map.mp broken
  obtain ⟨a, _, rfl⟩ := List.mem_map.mp listed
  apply decide_eq_true
  rcases List.mem_append.mp mem with mem | mem
  · exact (Account.mem_line mem).1
  · rw [List.mem_singleton.mp mem]
    decide

theorem passwdText_ne_nil (any : accounts ≠ []) : passwdText accounts ≠ [] := by
  cases accounts with
  | nil => exact absurd rfl any
  | cons a accounts =>
    unfold passwdText
    rw [List.map_cons, List.map_cons, List.flatten_cons]
    simp

/-- **`whoami` finds the account of the user**: of the accounts that have a shell the first one with
the number of the user, wherever it stands in the file. -/
theorem whoami_account (sys : Sys) (read : files.read (lit "/etc/passwd") 65535 = .ok (passwdText accounts)) (any : accounts ≠ []) :
    whoami sys files =
      ⟨printd sys.uid ++ lit "\n" ++ printd sys.gid ++ lit "\n" ++
        (((accountOf sys.uid accounts).map fun a => a.name ++ lit " " ++ a.home).getD (lit "N/A N/A")) ++ lit "\n", [], false⟩ := by
  have lines : getlines 10 (passwdText accounts) = accounts.map Account.line := by
    apply getlines_flatten
    intro line listed
    obtain ⟨a, _, rfl⟩ := List.mem_map.mp listed
    exact fun mem => (Account.mem_line mem).2 rfl
  have found : findUser sys.uid (getlines 10 (cString (passwdText accounts))) =
      some (((accountOf sys.uid accounts).map fun a => (a.name, a.home)).getD (lit "N/A", lit "N/A")) := by
    rw [cString_passwdText, lines, findUser_accounts]
  unfold whoami
  rw [read]
  cases text : passwdText accounts with
  | nil => exact absurd text (passwdText_ne_nil any)
  | cons b text' =>
    rw [text] at found
    simp only [found]
    cases accountOf sys.uid accounts with
    | none => simp [lit]
    | some a => simp

/-- Two accounts of one user, the first without a shell. -/
def twoAccounts : List Account :=
  [{ name := lit "daemon", password := lit "x", uid := 1000, gid := 1, gecos := [], home := lit "/", shell := []
     texts := by decide, uid_lt := by decide },
   { name := lit "dana", password := lit "x", uid := 1000, gid := 1000, gecos := [], home := lit "/home/dana"
     shell := lit "/bin/bash", texts := by decide, uid_lt := by decide }]

theorem whoami_account_second :
    whoami calmSys { noFiles with read := fun _ _ => .ok (passwdText twoAccounts) } =
      ⟨printd 1000 ++ lit "\n" ++ printd 1000 ++ lit "\n" ++
        (((accountOf 1000 twoAccounts).map fun a => a.name ++ lit " " ++ a.home).getD (lit "N/A N/A")) ++ lit "\n", [], false⟩ :=
  whoami_account calmSys rfl (List.cons_ne_nil _ _)

end OsProjects.Shell
