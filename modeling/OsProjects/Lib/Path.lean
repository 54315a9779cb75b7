import Mathlib.Data.List.Basic
import Mathlib.Data.List.Induction
import Mathlib.Tactic.Ring

/-!
# Walking a path

A path is a list of components, of which one, `up`, stands for the parent directory. `walk`
resolves it from a directory. Where the path ends is a matter of its balance: `level` is the
number of names less the number of steps up, and a path that `StaysBelow` has no beginning
of negative level.
-/

namespace OsProjects.Path

variable {α : Type*} [DecidableEq α]

/-- One component further; the root is its own parent. -/
def descend (up : α) (dir : List α) (c : α) : List α := if c = up then dir.dropLast else dir ++ [c]

def walk (up : α) (dir : List α) (path : List α) : List α := path.foldl (descend up) dir

/-- The names of a path less its steps up. -/
def level (up : α) (path : List α) : Int := (path.map fun c => if c = up then (-1 : Int) else 1).sum

def StaysBelow (up : α) (path : List α) : Prop := ∀ before, before <+: path → 0 ≤ level up before

/-- The path comes back to where it started and enters `name` for good. -/
def EndsIn (up name : α) (path : List α) : Prop :=
  ∃ before after, path = before ++ name :: after ∧ level up before = 0 ∧ StaysBelow up before ∧ StaysBelow up after

variable {up name c : α} {dir rel path : List α}

theorem walk_append (dir a b : List α) : walk up dir (a ++ b) = walk up (walk up dir a) b := List.foldl_append

theorem level_append (a b : List α) : level up (a ++ b) = level up a + level up b := by
  simp [level]

theorem level_cons (c : α) (path : List α) : level up (c :: path) = (if c = up then -1 else 1) + level up path := by
  simp [level]

theorem StaysBelow.append {a b : List α} (ha : StaysBelow up a) (hb : ∀ before, before <+: b → 0 ≤ level up a + level up before) :
    StaysBelow up (a ++ b) := by
  intro before pre
  obtain ⟨rest, eq⟩ := pre
  rcases List.append_eq_append_iff.mp eq with ⟨more, rfl, -⟩ | ⟨more, rfl, rfl⟩
  · exact ha before (List.prefix_append _ _)
  · rw [level_append]
    exact hb more (List.prefix_append _ _)

/-- **A path that stays below** a directory is resolved inside it. -/
theorem walk_below (dir rel : List α) (stays : ∀ before, before <+: path → 0 ≤ rel.length + level up before) :
    walk up (dir ++ rel) path = dir ++ walk up rel path ∧ ((walk up rel path).length : Int) = rel.length + level up path := by
  induction path generalizing rel with
  | nil => exact ⟨rfl, by simp [walk, level]⟩
  | cons c path ih =>
    have next : ∀ before, before <+: path → 0 ≤ rel.length + ((if c = up then -1 else 1) + level up before) := by
      intro before pre
      rw [← level_cons]
      exact stays (c :: before) (List.cons_prefix_cons.mpr ⟨rfl, pre⟩)
    change walk up (descend up (dir ++ rel) c) path = dir ++ walk up (descend up rel c) path ∧
      ((walk up (descend up rel c) path).length : Int) = _
    rw [level_cons]
    unfold descend
    split_ifs with back
    · have some : rel ≠ [] := by
        rintro rfl
        have := next [] List.nil_prefix
        rw [if_pos back] at this
        simp [level] at this
      have shorter : (rel.dropLast.length : Int) = rel.length - 1 := by
        have := List.length_pos_iff.mpr some
        rw [List.length_dropLast]
        omega
      rw [List.dropLast_append_of_ne_nil some]
      obtain ⟨same, length⟩ := ih rel.dropLast fun before pre => by
        have := next before pre
        rw [if_pos back] at this
        omega
      exact ⟨same, by omega⟩
    · obtain ⟨same, length⟩ := ih (rel ++ [c]) fun before pre => by
        have := next before pre
        rw [if_neg back] at this
        rw [List.length_append, List.length_singleton]
        omega
      rw [List.append_assoc]
      refine ⟨same, ?_⟩
      rw [length, List.length_append, List.length_singleton]
      omega

theorem StaysBelow.walk (stays : StaysBelow up path) (dir : List α) :
    Path.walk up dir path = dir ++ Path.walk up [] path ∧ ((Path.walk up [] path).length : Int) = level up path := by
  have shifted : ∀ before, before <+: path → 0 ≤ (([] : List α).length : Int) + level up before := by
    intro before pre
    have := stays before pre
    rw [List.length_nil]
    omega
  have below := walk_below dir [] shifted
  rw [List.append_nil, List.length_nil] at below
  exact ⟨below.1, by omega⟩

/-- A path that ends in `name` is resolved inside it, from any directory. -/
theorem EndsIn.walk (ends : EndsIn up name path) (ne : name ≠ up) (dir : List α) :
    dir ++ [name] <+: Path.walk up dir path := by
  obtain ⟨before, after, rfl, flat, below, below'⟩ := ends
  have back : Path.walk up [] before = [] := by
    apply List.eq_nil_of_length_eq_zero
    have := (below.walk dir).2
    omega
  rw [walk_append, (below.walk dir).1, back, List.append_nil]
  change _ <+: Path.walk up (descend up dir name) after
  unfold descend
  rw [if_neg ne, (below'.walk _).1]
  exact List.prefix_append _ _

/-- What is neither in the directory nor in the path is not in the result. -/
theorem notMem_walk {x : α} (inDir : x ∉ dir) (inPath : x ∉ path) : x ∉ walk up dir path := by
  induction path generalizing dir with
  | nil => exact inDir
  | cons c path ih =>
    refine ih ?_ fun mem => inPath (List.mem_cons_of_mem c mem)
    unfold descend
    split_ifs
    · exact fun mem => inDir (List.dropLast_subset dir mem)
    · intro mem
      rcases List.mem_append.mp mem with mem | mem
      · exact inDir mem
      · exact inPath (List.mem_singleton.mp mem ▸ List.mem_cons_self)

/-- **A path that climbs above** a directory loses its name. -/
theorem notMem_walk_above {x : α} (inRel : x ∉ rel) (inPath : x ∉ path)
    (climbs : ∃ before, before <+: path ∧ rel.length + level up before < 0) : x ∉ walk up (x :: rel) path := by
  induction path generalizing rel with
  | nil =>
    obtain ⟨before, pre, low⟩ := climbs
    rw [List.prefix_nil.mp pre] at low
    simp [level] at low
    omega
  | cons c path ih =>
    have inPath' : x ∉ path := fun mem => inPath (List.mem_cons_of_mem c mem)
    obtain ⟨before, pre, low⟩ := climbs
    cases before with
    | nil =>
      simp [level] at low
      omega
    | cons c' before =>
      obtain ⟨rfl, within⟩ := List.cons_prefix_cons.mp pre
      rw [level_cons] at low
      change x ∉ walk up (descend up (x :: rel) c') path
      unfold descend
      split_ifs with back
      · rw [if_pos back] at low
        cases rel with
        | nil => exact notMem_walk List.not_mem_nil inPath'
        | cons r rel =>
          rw [List.dropLast_cons_of_ne_nil (List.cons_ne_nil r rel)]
          refine ih (fun mem => inRel (List.dropLast_subset _ mem)) inPath' ⟨before, within, ?_⟩
          simp only [List.length_dropLast, List.length_cons] at low ⊢
          omega
      · rw [if_neg back] at low
        change x ∉ walk up (x :: (rel ++ [c'])) path
        refine ih ?_ inPath' ⟨before, within, ?_⟩
        · intro mem
          rcases List.mem_append.mp mem with mem | mem
          · exact inRel mem
          · exact inPath (List.mem_singleton.mp mem ▸ List.mem_cons_self)
        · rw [List.length_append, List.length_singleton]
          omega

/-- A directory that is still there was not left. -/
theorem staysBelow_of_mem {x : α} (fresh : x ∉ path) (mem : x ∈ walk up [x] path) : StaysBelow up path := by
  intro before pre
  by_contra low
  have climbs : (([] : List α).length : Int) + level up before < 0 := by
    rw [List.length_nil]
    omega
  exact notMem_walk_above List.not_mem_nil fresh ⟨before, pre, climbs⟩ mem

/-- The first name of the result is the one that the path ends in. -/
theorem endsIn_of_walk {tail : List α} (stays : StaysBelow up path) (result : walk up [] path = name :: tail) :
    EndsIn up name path := by
  induction path using List.reverseRecOn generalizing tail with
  | nil => exact nomatch result
  | append_singleton path c ih =>
    have stays' : StaysBelow up path := fun before pre => stays before (pre.trans (List.prefix_append path [c]))
    have length := (stays'.walk []).2
    rw [walk_append] at result
    change descend up (walk up [] path) c = name :: tail at result
    unfold descend at result
    split_ifs at result with back
    · -- a step up that keeps the first name: there is a second one
      obtain ⟨tail', old, some⟩ : ∃ tail', walk up [] path = name :: tail' ∧ tail' ≠ [] := by
        cases old : walk up [] path with
        | nil => rw [old] at result; exact nomatch result
        | cons a as =>
          rw [old] at result
          cases as with
          | nil => exact nomatch result
          | cons b bs =>
            rw [List.dropLast_cons_of_ne_nil (List.cons_ne_nil b bs)] at result
            exact ⟨b :: bs, by rw [(List.cons.inj result).1], List.cons_ne_nil b bs⟩
      obtain ⟨before, after, rfl, flat, below, below'⟩ := ih stays' old
      refine ⟨before, after ++ [c], by simp, flat, below, below'.append ?_⟩
      have two := List.length_pos_iff.mpr some
      rw [old, List.length_cons, level_append, level_cons, flat] at length
      have notUp : name ≠ up := by
        intro e
        have first := stays' (before ++ [name]) ⟨after, by simp⟩
        rw [level_append, flat, level_cons, if_pos e] at first
        simp [level] at first
      rw [if_neg notUp] at length
      intro rest pre
      rcases List.prefix_cons_iff.mp pre with rfl | ⟨t, rfl, none⟩
      · simpa [level] using below' after List.prefix_rfl
      · rw [List.prefix_nil.mp none, level_cons, if_pos back]
        simp only [level, List.map_nil, List.sum_nil] at length ⊢
        omega
    · cases old : walk up [] path with
      | nil =>
        rw [old] at result length
        obtain ⟨rfl, -⟩ := List.cons.inj result
        refine ⟨path, [], rfl, length.symm, stays', fun before pre => ?_⟩
        rw [List.prefix_nil.mp pre]
        simp [level]
      | cons a as =>
        rw [old] at result
        obtain ⟨rfl, -⟩ := List.cons.inj result
        obtain ⟨before, after, rfl, flat, below, below'⟩ := ih stays' old
        refine ⟨before, after ++ [c], by simp, flat, below, below'.append ?_⟩
        have all := below' after List.prefix_rfl
        intro rest pre
        rcases List.prefix_cons_iff.mp pre with rfl | ⟨t, rfl, none⟩
        · simpa [level] using all
        · rw [List.prefix_nil.mp none, level_cons, if_neg back]
          simp only [level, List.map_nil, List.sum_nil] at all ⊢
          omega

/-- A last name does not matter, unless it is the one in question. -/
theorem endsIn_concat (notUp : c ≠ up) (other : c ≠ name) : EndsIn up name (path ++ [c]) ↔ EndsIn up name path := by
  constructor
  · intro ⟨before, after, eq, flat, below, below'⟩
    cases after using List.reverseRecOn with
    | nil => exact absurd (List.append_inj' eq rfl).2 (fun e => other (List.cons.inj e).1)
    | append_singleton after d =>
      rw [← List.cons_append, ← List.append_assoc] at eq
      obtain ⟨rfl, -⟩ := List.append_inj' eq rfl
      exact ⟨before, after, rfl, flat, below, fun b pre => below' b (pre.trans (List.prefix_append after [d]))⟩
  · intro ⟨before, after, eq, flat, below, below'⟩
    refine ⟨before, after ++ [c], by rw [eq, List.append_assoc, List.cons_append], flat, below, below'.append ?_⟩
    have all := below' after List.prefix_rfl
    intro rest pre
    rcases List.prefix_cons_iff.mp pre with rfl | ⟨t, rfl, none⟩
    · simpa [level] using all
    · rw [List.prefix_nil.mp none, level_cons, if_neg notUp]
      simp only [level, List.map_nil, List.sum_nil] at all ⊢
      omega

end OsProjects.Path
