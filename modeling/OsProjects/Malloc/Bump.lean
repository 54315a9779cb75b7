import OsProjects.Malloc.Client

/-!
# The allocator without metadata

The code of malloc_1.cpp: every request moves the program break, and nothing is ever given
back. The allocator has no state of its own; what is known of the blocks is what `sbrk` has
handed out.
-/

namespace OsProjects.Malloc.Bump

open Objects

/-- Memory, and the regions that `sbrk` has handed out, with their lengths. -/
structure State where
  mem : Mem
  obtained : List (Nat × Nat)

/-- The program's start. -/
def State.start (mem : Mem) : State := ⟨mem, []⟩

/-- `smalloc`. -/
def smalloc (os : Os) (size : Nat) (s : State) : Nat × State :=
  if size = 0 ∨ exceedsMax size then (0, s)
  else
    match os.sbrk size with
    | none => (0, s)
    | some raw => (raw, { s with obtained := s.obtained ++ [(raw, size)] })

/-- One call. There are no others in this file. -/
def exec (os : Os) : Call → State → Option (Nat × State)
  | .smalloc size, s => some (smalloc os size s)
  | .write a b, s => some (0, { s with mem := s.mem.store8 a b })
  | .scalloc _ _, _ | .sfree _, _ | .srealloc _ _, _ => none

/-- What `sbrk` promises: the bytes it hands out are above all earlier ones. -/
def Sound (os : Os) (s : State) : Prop :=
  ∀ n raw, os.sbrk n = some raw → raw ≠ 0 ∧ raw + n < 2 ^ 64 ∧ ∀ r ∈ s.obtained, r.1 + r.2 ≤ raw

variable {ι : Type*} {os : Os} {s s' : State} {p size : Nat} {vars : ι → Nat}

/-- The length of the block at `p`. -/
def State.length (s : State) (p : Nat) : Nat := ((s.obtained.find? fun r => r.1 = p).map Prod.snd).getD 0

/-- The state as the client sees it. -/
def State.view (s : State) : View UInt8 where
  live := {p | ∃ n, (p, n) ∈ s.obtained}
  room := s.length
  mem := s.mem

/-- A request that meets the contract, and its answer. -/
structure Turn (vars : ι → Nat) (s : State) (r : Request ι) (p : Nat) (s' : State) : Prop where
  answer : ∃ os, Sound os s ∧ exec os (r.call vars) s = some (p, s')
  inside : r.Inside s.view vars

/-- The regions are apart, in the order in which they were obtained. -/
structure Good (s : State) : Prop where
  apart : s.obtained.Pairwise fun r r' => r.1 + r.2 ≤ r'.1
  pos : ∀ r ∈ s.obtained, r.1 ≠ 0 ∧ 0 < r.2

namespace Good

theorem start (mem : Mem) : Good (State.start mem) := ⟨List.Pairwise.nil, fun _ mem => absurd mem List.not_mem_nil⟩

/-- Two regions that are not one are apart. -/
theorem disjoint (good : Good s) {r r' : Nat × Nat} (hr : r ∈ s.obtained) (hr' : r' ∈ s.obtained) (ne : r ≠ r') :
    r.1 + r.2 ≤ r'.1 ∨ r'.1 + r'.2 ≤ r.1 := by
  have sym : Std.Symm fun r r' : Nat × Nat => r.1 + r.2 ≤ r'.1 ∨ r'.1 + r'.2 ≤ r.1 := ⟨fun _ _ => Or.symm⟩
  have either : s.obtained.Pairwise fun r r' => r.1 + r.2 ≤ r'.1 ∨ r'.1 + r'.2 ≤ r.1 := good.apart.imp Or.inl
  exact either.forall hr hr' ne

/-- Two regions at one address are one. -/
theorem eq_of_fst (good : Good s) {r r' : Nat × Nat} (hr : r ∈ s.obtained) (hr' : r' ∈ s.obtained) (same : r.1 = r'.1) :
    r = r' := by
  by_contra ne
  have := (good.pos r hr).2
  have := (good.pos r' hr').2
  rcases good.disjoint hr hr' ne with le | le
  · omega
  · omega

theorem length_eq (good : Good s) {n : Nat} (mem : (p, n) ∈ s.obtained) : s.length p = n := by
  unfold State.length
  cases found : s.obtained.find? fun r => r.1 = p with
  | none =>
    have none := List.find?_eq_none.mp found (p, n) mem
    simp at none
  | some r =>
    have here : r.1 = p := by simpa using List.find?_some found
    rw [good.eq_of_fst (List.mem_of_find?_eq_some found) mem here]
    rfl

/-- A region above all others. -/
theorem obtain (good : Good s) {raw : Nat} (pos : raw ≠ 0 ∧ 0 < size) (above : ∀ r ∈ s.obtained, r.1 + r.2 ≤ raw) :
    Good { s with obtained := s.obtained ++ [(raw, size)] } where
  apart := by
    refine List.pairwise_append.mpr ⟨good.apart, List.pairwise_singleton _ _, fun r hr r' hr' => ?_⟩
    rw [List.mem_singleton.mp hr']
    exact above r hr
  pos r hr := by
    rcases List.mem_append.mp hr with hr | hr
    · exact good.pos r hr
    · rw [List.mem_singleton.mp hr]
      exact pos

end Good

/-! ## The promises -/

theorem smalloc_promise (good : Good s) (sound : Sound os s) (h : ι) :
    Good (smalloc os size s).2 ∧ Answers vars s.view (smalloc os size s).2.view (.new h) (smalloc os size s).1 := by
  have nothing : Answers vars s.view s.view (.new h) 0 := .refusedNew ⟨rfl, fun _ _ => ⟨rfl, fun _ _ => rfl⟩⟩
  unfold smalloc
  split_ifs with bad
  · exact ⟨good, nothing⟩
  · cases answer : os.sbrk size with
    | none => exact ⟨good, nothing⟩
    | some raw =>
      obtain ⟨ne, -, above⟩ := sound size raw answer
      have pos : 0 < size := Nat.pos_of_ne_zero (not_or.mp bad).1
      have good' := good.obtain ⟨ne, pos⟩ above
      have fresh : ∀ n, (raw, n) ∉ s.obtained := by
        intro n mem
        have le := above _ mem
        have len := (good.pos _ mem).2
        simp only at le len
        omega
      refine ⟨good', .new ⟨ne, fun mem => ?_, ?_, fun q hq _ => ?_⟩⟩
      · obtain ⟨n, mem⟩ := mem.1
        exact fresh n mem
      · have zero : 0 ∉ s.view.live := by
          intro mem
          obtain ⟨n, mem⟩ := mem
          exact (good.pos _ mem).1 rfl
        rw [Set.sdiff_singleton_eq_self zero]
        ext q
        simp only [State.view, List.mem_append, List.mem_singleton, Prod.mk.injEq, Set.mem_insert_iff]
        change (∃ n, (q, n) ∈ s.obtained ∨ q = raw ∧ n = size) ↔ q = raw ∨ ∃ n, (q, n) ∈ s.obtained
        constructor
        · rintro ⟨n, mem | ⟨rfl, -⟩⟩
          · exact .inr ⟨n, mem⟩
          · exact .inl rfl
        · rintro (rfl | ⟨n, mem⟩)
          · exact ⟨size, .inr ⟨rfl, rfl⟩⟩
          · exact ⟨n, .inl mem⟩
      · obtain ⟨n, mem⟩ := hq
        constructor
        · simp only [State.view]
          rw [good.length_eq mem, good'.length_eq (List.mem_append_left _ mem)]
        · exact fun _ _ => rfl

theorem write_promise (good : Good s) (h : ι) {i : Nat} (b : UInt8) (inside : vars h ∈ s.view.live ∧ i < s.view.room (vars h)) :
    Answers vars s.view (State.view { s with mem := s.mem.store8 (vars h + i) b }) (.store h i b) 0 := by
  obtain ⟨⟨n, mem⟩, fits⟩ := inside
  refine .store rfl (fun q hq ne => ⟨rfl, fun j lt => ?_⟩) rfl fits fun j _ => ?_
  · obtain ⟨n', mem'⟩ := hq
    have room := good.length_eq mem
    have room' := good.length_eq mem'
    simp only [State.view] at fits lt
    rw [room] at fits
    rw [room'] at lt
    have apart := good.disjoint mem mem' fun same => ne (Prod.mk.inj same).1.symm
    simp only at apart
    apply if_neg
    omega
  · simp only [State.view, Mem.store8, Nat.add_left_cancel_iff]

theorem Turn.answers {r : Request ι} (good : Good s) (turn : Turn vars s r p s') :
    Good s' ∧ Answers vars s.view s'.view r.effect p := by
  obtain ⟨⟨os, sound, run⟩, inside⟩ := turn
  cases r with
  | smalloc h size =>
    obtain ⟨rfl, rfl⟩ := Prod.mk.inj (Option.some_inj.mp run)
    exact smalloc_promise good sound h
  | write h i b =>
    obtain ⟨rfl, rfl⟩ := Prod.mk.inj (Option.some_inj.mp run)
    exact ⟨⟨good.apart, good.pos⟩, write_promise good h b inside⟩
  | scalloc h num size => cases run
  | sfree h => cases run
  | srealloc h size => cases run

variable [DecidableEq ι] {mem : Mem} {trace : List (Request ι × Bool)}

/-- A client, from the program's start. -/
abbrev Client (mem : Mem) : List (Request ι × Bool) → (ι → Nat) → State → Prop :=
  Plays Request.effect Turn (fun _ => 0) (State.start mem)

theorem Client.good (client : Client mem trace vars s) :
    Good s ∧ Agrees vars s.view (replay Request.effect trace fun _ => none) :=
  Plays.agrees (fun _ _ _ _ _ good turn => turn.answers good) (Good.start mem) (Agrees.start _) client

end OsProjects.Malloc.Bump
