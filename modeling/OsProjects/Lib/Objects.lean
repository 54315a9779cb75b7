import Mathlib.Data.Set.Insert
import Mathlib.Logic.Function.Basic

/-!
# An ideal memory

A client that keeps pointers to separate objects can forget about addresses: the ideal memory
maps its variables to the contents of their objects, as far as they are known. `Agrees` is the
simulation between this and the bytes behind the pointers. `Answers` is what a memory manager
has to promise for it, one effect at a time, and `Plays.agrees` is the result for whole runs.
-/

namespace OsProjects.Objects

variable {ι β : Type*}

/-- The bytes of an object that are known. -/
abbrev Object (β : Type*) := Nat → Option β

/-- The objects of a client's variables; a variable may be null. -/
abbrev Ideal (ι β : Type*) := ι → Option (Object β)

/-- What a client asks for. -/
inductive Effect (ι β : Type*) where
  | new (h : ι)
  | filled (h : ι) (n : Nat) (b : β)
  | delete (h : ι)
  | resize (h : ι) (n : Nat)
  | store (h : ι) (i : Nat) (b : β)

/-- The first `n` bytes of an object. -/
def Object.first (n : Nat) (o : Option (Object β)) : Object β := fun i => if i < n then o.bind fun o => o i else none

namespace Effect

/-- The client does not overwrite a pointer that it holds. -/
def Ready (vars : ι → Nat) : Effect ι β → Prop
  | new h | filled h _ _ => vars h = 0
  | delete _ | resize _ _ | store _ _ _ => True

variable [DecidableEq ι]

/-- The ideal memory after an effect, where a request for memory is granted or not. -/
def apply (granted : Bool) (σ : Ideal ι β) : Effect ι β → Ideal ι β
  | new h => if granted then Function.update σ h (some fun _ => none) else σ
  | filled h n b => if granted then Function.update σ h (some fun i => if i < n then some b else none) else σ
  | delete h => Function.update σ h none
  | resize h n => if granted then Function.update σ h (some (Object.first n (σ h))) else σ
  | store h i b => Function.update σ h ((σ h).map fun o => Function.update o i (some b))

/-- The client's variables after the answer `p`. A failed `resize` leaves the old pointer in place. -/
def assign (p : Nat) (vars : ι → Nat) : Effect ι β → ι → Nat
  | new h | filled h _ _ => Function.update vars h p
  | delete h => Function.update vars h 0
  | resize h _ => if p = 0 then vars else Function.update vars h p
  | store _ _ _ => vars

end Effect

/-! ## The promises -/

/-- The pointers that have been given out, the bytes behind each, and the memory. -/
structure View (β : Type*) where
  live : Set Nat
  room : Nat → Nat
  mem : Nat → β

/-- The object at `p` is as large as it was and has the same bytes. -/
structure Same (v v' : View β) (p : Nat) : Prop where
  room : v'.room p = v.room p
  bytes : ∀ i < v.room p, v'.mem (p + i) = v.mem (p + i)

structure Unchanged (v v' : View β) : Prop where
  live : v'.live = v.live
  same : ∀ q ∈ v.live, Same v v' q

/-- `p` is given out, in place of `old` if that is not null. -/
structure Given (v v' : View β) (old p : Nat) : Prop where
  ne_zero : p ≠ 0
  fresh : p ∉ v.live \ {old}
  live : v'.live = insert p (v.live \ {old})
  same : ∀ q ∈ v.live, q ≠ old → Same v v' q

/-- What a memory manager may do for an effect, and what it returns. -/
inductive Answers (vars : ι → Nat) (v v' : View β) : Effect ι β → Nat → Prop where
  | refusedNew {h : ι} (unchanged : Unchanged v v') : Answers vars v v' (.new h) 0
  | refusedFilled {h : ι} {n : Nat} {b : β} (unchanged : Unchanged v v') : Answers vars v v' (.filled h n b) 0
  | refusedResize {h : ι} {n : Nat} (unchanged : Unchanged v v') : Answers vars v v' (.resize h n) 0
  | new {h : ι} {p : Nat} (given : Given v v' 0 p) : Answers vars v v' (.new h) p
  | filled {h : ι} {n p : Nat} {b : β} (given : Given v v' 0 p)
      (fill : ∀ i < n, i < v'.room p ∧ v'.mem (p + i) = b) : Answers vars v v' (.filled h n b) p
  | resize {h : ι} {n p : Nat} (given : Given v v' (vars h) p)
      (carried : vars h ≠ 0 → ∀ i < v.room (vars h), i < n → i < v'.room p ∧ v'.mem (p + i) = v.mem (vars h + i)) :
      Answers vars v v' (.resize h n) p
  | deleteNull {h : ι} (null : vars h = 0) (unchanged : Unchanged v v') : Answers vars v v' (.delete h) 0
  | delete {h : ι} (live : v'.live = v.live \ {vars h}) (same : ∀ q ∈ v.live, q ≠ vars h → Same v v' q) :
      Answers vars v v' (.delete h) 0
  | store {h : ι} {i : Nat} {b : β} (live : v'.live = v.live) (same : ∀ q ∈ v.live, q ≠ vars h → Same v v' q)
      (room : v'.room (vars h) = v.room (vars h)) (fits : i < v.room (vars h))
      (bytes : ∀ j < v.room (vars h), v'.mem (vars h + j) = if j = i then b else v.mem (vars h + j)) :
      Answers vars v v' (.store h i b) 0

/-! ## The simulation -/

/-- Each variable that is not null has a pointer of its own, and what is known of its object is in memory. -/
structure Agrees (vars : ι → Nat) (v : View β) (σ : Ideal ι β) : Prop where
  null : ∀ h, vars h = 0 ↔ σ h = none
  live : ∀ h, vars h ≠ 0 → vars h ∈ v.live
  apart : ∀ h k, vars h ≠ 0 → vars h = vars k → h = k
  known : ∀ h o i b, σ h = some o → o i = some b → i < v.room (vars h) ∧ v.mem (vars h + i) = b

namespace Agrees

variable {vars : ι → Nat} {v v' : View β} {σ : Ideal ι β} {h k : ι} {o : Object β} {p : Nat}

theorem start (v : View β) : Agrees (fun _ : ι => 0) v fun _ => none where
  null _ := by simp
  live _ ne := absurd rfl ne
  apart _ _ ne := absurd rfl ne
  known _ _ _ _ found := nomatch found

theorem ne_zero (agrees : Agrees vars v σ) (found : σ h = some o) : vars h ≠ 0 := by
  intro zero
  rw [(agrees.null h).mp zero] at found
  exact nomatch found

/-- What is known of an object that stays the same. -/
theorem known_of_same (agrees : Agrees vars v σ) (same : Same v v' (vars h)) (found : σ h = some o) {i : Nat} {b : β}
    (byte : o i = some b) : i < v'.room (vars h) ∧ v'.mem (vars h + i) = b := by
  obtain ⟨lt, eq⟩ := agrees.known h o i b found byte
  rw [same.room, same.bytes i lt]
  exact ⟨lt, eq⟩

theorem unchanged (agrees : Agrees vars v σ) (unchanged : Unchanged v v') : Agrees vars v' σ where
  null := agrees.null
  live k ne := by
    rw [unchanged.live]
    exact agrees.live k ne
  apart := agrees.apart
  known k o _ _ found byte := agrees.known_of_same (unchanged.same _ (agrees.live k (agrees.ne_zero found))) found byte

/-- Another variable has another pointer. -/
theorem other (agrees : Agrees vars v σ) (ne : k ≠ h) (pos : vars k ≠ 0) : vars k ∈ v.live \ {vars h} :=
  ⟨agrees.live k pos, fun same => ne (agrees.apart k h pos same)⟩

variable [DecidableEq ι]

/-- A variable gets a new object. -/
theorem put (agrees : Agrees vars v σ) (given : Given v v' (vars h) p)
    (contents : ∀ i b, o i = some b → i < v'.room p ∧ v'.mem (p + i) = b) :
    Agrees (Function.update vars h p) v' (Function.update σ h (some o)) where
  null k := by
    by_cases same : k = h
    · subst same
      simp [given.ne_zero]
    · rw [Function.update_of_ne same, Function.update_of_ne same]
      exact agrees.null k
  live k ne := by
    rw [given.live]
    by_cases same : k = h
    · subst same
      rw [Function.update_self]
      exact Set.mem_insert _ _
    · rw [Function.update_of_ne same] at ne ⊢
      exact Set.mem_insert_of_mem _ (agrees.other same ne)
  apart j k ne eq := by
    by_cases sameJ : j = h
    · by_cases sameK : k = h
      · exact sameJ.trans sameK.symm
      · subst sameJ
        rw [Function.update_self] at eq
        rw [Function.update_of_ne sameK] at eq
        have pos : vars k ≠ 0 := eq ▸ given.ne_zero
        exact absurd (eq ▸ agrees.other sameK pos) given.fresh
    · rw [Function.update_of_ne sameJ] at ne eq
      by_cases sameK : k = h
      · subst sameK
        rw [Function.update_self] at eq
        exact absurd (eq ▸ agrees.other sameJ ne) given.fresh
      · rw [Function.update_of_ne sameK] at eq
        exact agrees.apart j k ne eq
  known k o' i b found byte := by
    by_cases same : k = h
    · subst same
      rw [Function.update_self] at found ⊢
      obtain rfl := Option.some_inj.mp found
      exact contents i b byte
    · rw [Function.update_of_ne same] at found ⊢
      have pos := agrees.ne_zero found
      have away := agrees.other same pos
      exact agrees.known_of_same (given.same _ away.1 away.2) found byte

/-- A variable gives up its object. -/
theorem drop (agrees : Agrees vars v σ) (live : v'.live = v.live \ {vars h})
    (same : ∀ q ∈ v.live, q ≠ vars h → Same v v' q) :
    Agrees (Function.update vars h 0) v' (Function.update σ h none) where
  null k := by
    by_cases eq : k = h
    · subst eq
      simp
    · rw [Function.update_of_ne eq, Function.update_of_ne eq]
      exact agrees.null k
  live k ne := by
    rw [live]
    by_cases eq : k = h
    · subst eq
      simp at ne
    · rw [Function.update_of_ne eq] at ne ⊢
      exact agrees.other eq ne
  apart j k ne eq := by
    have neJ : j ≠ h := by
      rintro rfl
      simp at ne
    rw [Function.update_of_ne neJ] at ne eq
    have neK : k ≠ h := by
      rintro rfl
      rw [Function.update_self] at eq
      exact ne eq
    rw [Function.update_of_ne neK] at eq
    exact agrees.apart j k ne eq
  known k o _ _ found byte := by
    have ne : k ≠ h := by
      rintro rfl
      rw [Function.update_self] at found
      exact nomatch found
    rw [Function.update_of_ne ne] at found ⊢
    have away := agrees.other ne (agrees.ne_zero found)
    exact agrees.known_of_same (same _ away.1 away.2) found byte

/-- A byte is written into an object. -/
theorem write (agrees : Agrees vars v σ) {i : Nat} {b : β} (live : v'.live = v.live)
    (same : ∀ q ∈ v.live, q ≠ vars h → Same v v' q) (room : v'.room (vars h) = v.room (vars h))
    (fits : i < v.room (vars h))
    (bytes : ∀ j < v.room (vars h), v'.mem (vars h + j) = if j = i then b else v.mem (vars h + j)) :
    Agrees vars v' (Function.update σ h ((σ h).map fun o => Function.update o i (some b))) where
  null k := by
    by_cases eq : k = h
    · subst eq
      rw [Function.update_self, Option.map_eq_none_iff]
      exact agrees.null k
    · rw [Function.update_of_ne eq]
      exact agrees.null k
  live k ne := by
    rw [live]
    exact agrees.live k ne
  apart := agrees.apart
  known k o j c found byte := by
    by_cases eq : k = h
    · subst eq
      rw [Function.update_self] at found
      obtain ⟨o, old, rfl⟩ := Option.map_eq_some_iff.mp found
      by_cases here : j = i
      · subst here
        rw [Function.update_self] at byte
        rw [room, bytes j fits, if_pos rfl]
        exact ⟨fits, Option.some_inj.mp byte⟩
      · rw [Function.update_of_ne here] at byte
        obtain ⟨lt, eq⟩ := agrees.known k o j c old byte
        rw [room, bytes j lt, if_neg here]
        exact ⟨lt, eq⟩
    · rw [Function.update_of_ne eq] at found
      have away := agrees.other eq (agrees.ne_zero found)
      exact agrees.known_of_same (same _ away.1 away.2) found byte

/-- **One effect keeps the agreement.** -/
theorem step (agrees : Agrees vars v σ) {e : Effect ι β} (ready : e.Ready vars) (answers : Answers vars v v' e p) :
    Agrees (e.assign p vars) v' (e.apply (decide (p ≠ 0)) σ) := by
  -- a refused request leaves null in a variable that was null
  have refused : ∀ {h : ι}, vars h = 0 → Unchanged v v' → Agrees (Function.update vars h 0) v' σ := by
    intro h null same
    have kept : Function.update vars h 0 = vars := by
      rw [← null]
      exact Function.update_eq_self h vars
    rw [kept]
    exact agrees.unchanged same
  cases answers with
  | refusedNew same => exact refused ready same
  | refusedFilled same => exact refused ready same
  | refusedResize same => exact agrees.unchanged same
  | @new h p given =>
    have null : vars h = 0 := ready
    rw [← null] at given
    simp only [Effect.assign, Effect.apply, given.ne_zero, ne_eq, not_false_eq_true, decide_true, if_true]
    exact agrees.put given fun _ _ byte => nomatch byte
  | @filled h n p b given fill =>
    have null : vars h = 0 := ready
    rw [← null] at given
    simp only [Effect.assign, Effect.apply, given.ne_zero, ne_eq, not_false_eq_true, decide_true, if_true]
    apply agrees.put given
    intro i c byte
    split_ifs at byte with lt
    obtain rfl := Option.some_inj.mp byte
    exact fill i lt
  | @resize h n p given carried =>
    simp only [Effect.assign, Effect.apply, given.ne_zero, ne_eq, not_false_eq_true, decide_true, if_true, if_false]
    apply agrees.put given
    intro i c byte
    unfold Object.first at byte
    split_ifs at byte with lt
    obtain ⟨o, found, byte⟩ := Option.bind_eq_some_iff.mp byte
    obtain ⟨inside, old⟩ := agrees.known h o i c found byte
    obtain ⟨inside', eq⟩ := carried (agrees.ne_zero found) i inside lt
    exact ⟨inside', eq.trans old⟩
  | @deleteNull h null same =>
    have none := (agrees.null h).mp null
    have kept : Function.update σ h Option.none = σ := by
      rw [← none]
      exact Function.update_eq_self h σ
    simp only [Effect.assign, Effect.apply, kept]
    exact refused null same
  | delete live same => exact agrees.drop live same
  | store live same room fits bytes => exact agrees.write live same room fits bytes

end Agrees

/-! ## Runs -/

variable [DecidableEq ι] {S R : Type*} (effect : R → Effect ι β) (turn : (ι → Nat) → S → R → Nat → S → Prop)

/-- A client that makes requests, from its variables and the state of the memory manager. The trace has the requests
and whether each was answered with a pointer. -/
inductive Plays (vars : ι → Nat) (s : S) : List (R × Bool) → (ι → Nat) → S → Prop where
  | nil : Plays vars s [] vars s
  | snoc {trace : List (R × Bool)} {vars' : ι → Nat} {s' s'' : S} {r : R} {p : Nat}
      (plays : Plays vars s trace vars' s') (ready : (effect r).Ready vars') (answer : turn vars' s' r p s'') :
      Plays vars s (trace ++ [(r, decide (p ≠ 0))]) ((effect r).assign p vars') s''

/-- The ideal memory after a trace. -/
def replay (trace : List (R × Bool)) (σ : Ideal ι β) : Ideal ι β :=
  trace.foldl (fun σ r => (effect r.1).apply r.2 σ) σ

variable {effect turn} {view : S → View β} {Good : S → Prop} {vars vars' : ι → Nat} {s s' : S} {trace : List (R × Bool)}
  {σ : Ideal ι β}

/-- **A memory manager that keeps its promises is an ideal memory.** -/
theorem Plays.agrees (promises : ∀ vars s r p s', Good s →
      turn vars s r p s' → Good s' ∧ Answers vars (view s) (view s') (effect r) p)
    (good : Good s) (start : Agrees vars (view s) σ) (plays : Plays effect turn vars s trace vars' s') :
    Good s' ∧ Agrees vars' (view s') (replay effect trace σ) := by
  induction plays with
  | nil => exact ⟨good, start⟩
  | snoc _ ready answer ih =>
    obtain ⟨good', answers⟩ := promises _ _ _ _ _ ih.1 answer
    refine ⟨good', ?_⟩
    unfold replay
    rw [List.foldl_append]
    exact ih.2.step ready answers

end OsProjects.Objects
