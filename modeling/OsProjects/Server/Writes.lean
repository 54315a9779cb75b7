import OsProjects.Server.HandleRequest

/-!
# Output and files

`rio_writen` and `rio_readn`, which loop over calls that take or give less than they were asked
for. A call that was interrupted is made again; another failure makes `Rio_writen` and
`Rio_readn` end the program. What arrives is what was written, and a program that
ends has written a part of it.
-/

namespace OsProjects.Server

open CText

/-- `EINTR`. -/
def eintr : Int := 4

/-- What a call of `write` or `read` meets: so many bytes can be moved, or -1 with an `errno`. -/
inductive IoResult where
  | upTo (count : Nat)
  | error (errno : Int)

/-- A connection that is written to, with `errno`. Behind the schedule there is room for everything. -/
structure Outlet where
  schedule : List IoResult
  errno : Int
  sent : Bytes

namespace Outlet

/-- `write`. -/
def write (s : Outlet) (bytes : Bytes) : Int × Outlet :=
  match s.schedule with
  | [] => (bytes.length, { s with sent := s.sent ++ bytes })
  | .upTo count :: results => ((bytes.take count).length, ⟨results, s.errno, s.sent ++ bytes.take count⟩)
  | .error errno :: results => (-1, ⟨results, errno, s.sent⟩)

/-- The schedule is used up, and a call without a schedule takes everything. -/
theorem write_less (s : Outlet) {bytes : Bytes} (some : bytes ≠ []) :
    (s.write bytes).2.schedule.length + (bytes.drop (s.write bytes).1.toNat).length < s.schedule.length + bytes.length ∧
    ((s.write bytes).1 ≤ 0 → (s.write bytes).2.schedule.length < s.schedule.length) := by
  obtain ⟨schedule, errno, sent⟩ := s
  have positive := List.length_pos_of_ne_nil some
  unfold write
  match schedule with
  | [] =>
    simp only [List.length_nil, List.length_drop]
    omega
  | .upTo count :: results =>
    simp only [List.length_cons, List.length_drop, List.length_take]
    omega
  | .error errno :: results =>
    simp only [List.length_cons, List.length_drop]
    omega

/-- The loop of `rio_writen`; `false` where it returns -1. A call that returned zero is judged by an old `errno`. -/
def writenLoop (s : Outlet) (bufp : Bytes) : Bool × Outlet :=
  if bufp = [] then (true, s)
  else
    let nwritten := (s.write bufp).1
    if nwritten ≤ 0 then
      if (s.write bufp).2.errno = eintr then (s.write bufp).2.writenLoop bufp else (false, (s.write bufp).2)
    else (s.write bufp).2.writenLoop (bufp.drop nwritten.toNat)
termination_by s.schedule.length + bufp.length
decreasing_by
  · have less := (s.write_less ‹_›).2 ‹_›
    omega
  · exact (s.write_less ‹_›).1

/-- `rio_writen`. -/
def writen (s : Outlet) (usrbuf : Bytes) : Int × Outlet :=
  ((if (s.writenLoop usrbuf).1 then usrbuf.length else -1), (s.writenLoop usrbuf).2)

/-- Calls of `Rio_writen` in a row; `false` where one of them ends the program. -/
def sendAll (s : Outlet) : List Bytes → Bool × Outlet
  | [] => (true, s)
  | usrbuf :: parts =>
    if (s.writen usrbuf).1 ≠ usrbuf.length then (false, (s.writen usrbuf).2) else (s.writen usrbuf).2.sendAll parts

variable {s : Outlet} {bytes bufp : Bytes}

/-- A call of `write` sends what it says. -/
theorem write_sent (s : Outlet) (bytes : Bytes) :
    (s.write bytes).2.sent = s.sent ++ bytes.take (s.write bytes).1.toNat ∧ (s.write bytes).1 ≤ bytes.length := by
  obtain ⟨schedule, errno, sent⟩ := s
  unfold write
  match schedule with
  | [] => simp
  | .upTo count :: results =>
    refine ⟨?_, ?_⟩
    · simp only [Int.toNat_natCast, List.length_take]
      rw [List.take_eq_take_min]
    · simp only [List.length_take]
      omega
  | .error errno :: results =>
    refine ⟨?_, ?_⟩
    · simp
    · simp only
      omega

/-- **What `rio_writen` has sent**: everything if it succeeds, and less if it fails. -/
theorem writenLoop_sent (s : Outlet) (bufp : Bytes) :
    ∃ first, first <+: bufp ∧ (s.writenLoop bufp).2.sent = s.sent ++ first ∧ ((s.writenLoop bufp).1 = true ↔ first = bufp) := by
  induction s, bufp using writenLoop.induct with
  | case1 s =>
    rw [writenLoop, if_pos rfl]
    exact ⟨[], List.nil_prefix, (List.append_nil _).symm, iff_of_true rfl rfl⟩
  | case2 s bufp more nwritten stopped interrupted ih =>
    obtain ⟨sent, -⟩ := s.write_sent bufp
    rw [show (s.write bufp).1.toNat = 0 from Int.toNat_of_nonpos stopped, List.take_zero, List.append_nil] at sent
    rw [writenLoop, if_neg more]
    simp only [if_pos stopped, if_pos interrupted, nwritten]
    rw [sent] at ih
    exact ih
  | case3 s bufp more nwritten stopped failed =>
    obtain ⟨sent, -⟩ := s.write_sent bufp
    rw [show (s.write bufp).1.toNat = 0 from Int.toNat_of_nonpos stopped, List.take_zero] at sent
    rw [writenLoop, if_neg more]
    simp only [if_pos stopped, if_neg failed, nwritten]
    exact ⟨[], List.nil_prefix, sent, iff_of_false Bool.false_ne_true fun e => more e.symm⟩
  | case4 s bufp more nwritten moved ih =>
    obtain ⟨sent, -⟩ := s.write_sent bufp
    obtain ⟨first, initial, rest, all⟩ := ih
    rw [writenLoop, if_neg more]
    simp only [if_neg moved, nwritten]
    have split := List.take_append_drop (s.write bufp).1.toNat bufp
    refine ⟨bufp.take (s.write bufp).1.toNat ++ first, ?_, ?_, ?_⟩
    · conv_rhs => rw [← split]
      exact (List.prefix_append_right_inj _).mpr initial
    · rw [rest, sent, List.append_assoc]
    · rw [all]
      constructor
      · rintro rfl
        exact split
      · intro eq
        exact List.append_cancel_left (eq.trans split.symm)

/-- `Rio_writen` goes on exactly when the loop succeeds. -/
theorem writen_eq (s : Outlet) (usrbuf : Bytes) : (s.writen usrbuf).1 = usrbuf.length ↔ (s.writenLoop usrbuf).1 = true := by
  unfold writen
  cases (s.writenLoop usrbuf).1 with
  | true => exact iff_of_true rfl rfl
  | false =>
    apply iff_of_false
    · simp only [Bool.false_eq_true, if_false]
      omega
    · exact Bool.false_ne_true

/-- **What a program has sent** with several calls: everything, or less if it has ended. -/
theorem sendAll_sent (s : Outlet) (parts : List Bytes) : ∃ first, first <+: parts.flatten ∧
    (s.sendAll parts).2.sent = s.sent ++ first ∧ ((s.sendAll parts).1 = true ↔ first = parts.flatten) := by
  induction parts generalizing s with
  | nil => exact ⟨[], List.prefix_refl _, (List.append_nil _).symm, iff_of_true rfl rfl⟩
  | cons usrbuf parts ih =>
    obtain ⟨first, initial, sent, all⟩ := s.writenLoop_sent usrbuf
    unfold sendAll
    by_cases done : (s.writen usrbuf).1 = usrbuf.length
    · obtain rfl := all.mp ((s.writen_eq usrbuf).mp done)
      obtain ⟨next, initial', sent', all'⟩ := ih (s.writen first).2
      rw [if_neg (not_not_intro done)]
      refine ⟨first ++ next, ?_, ?_, ?_⟩
      · rw [List.flatten_cons]
        exact (List.prefix_append_right_inj first).mpr initial'
      · rw [sent', ← List.append_assoc, ← sent]
        rfl
      · rw [all', List.flatten_cons, List.append_cancel_left_eq]
    · rw [if_pos done]
      refine ⟨first, initial.trans (List.prefix_append usrbuf parts.flatten), sent, iff_of_false Bool.false_ne_true ?_⟩
      intro eq
      apply done
      apply (s.writen_eq usrbuf).mpr
      apply all.mpr
      apply initial.eq_of_length_le
      rw [eq, List.flatten_cons, List.length_append]
      exact Nat.le_add_right _ _

/-- No call fails but by an interruption. -/
def Reliable (s : Outlet) : Prop := ∀ result ∈ s.schedule, result = .error eintr ∨ ∃ count, result = .upTo count ∧ 0 < count

/-- A call on a reliable connection sends something or was interrupted. -/
theorem Reliable.write (reliable : s.Reliable) (some : bytes ≠ []) :
    (s.write bytes).2.Reliable ∧ ((s.write bytes).1 ≤ 0 → (s.write bytes).2.errno = eintr) := by
  obtain ⟨schedule, errno, sent⟩ := s
  have positive := List.length_pos_of_ne_nil some
  unfold Outlet.write
  match schedule with
  | [] =>
    refine ⟨reliable, fun stopped => ?_⟩
    simp only at stopped
    omega
  | .upTo count :: results =>
    refine ⟨fun result mem => reliable result (List.mem_cons_of_mem _ mem), fun stopped => ?_⟩
    rcases reliable _ List.mem_cons_self with failed | ⟨count', same, room⟩
    · cases failed
    · cases same
      simp only [List.length_take] at stopped
      omega
  | .error errno :: results =>
    refine ⟨fun result mem => reliable result (List.mem_cons_of_mem _ mem), fun _ => ?_⟩
    rcases reliable _ List.mem_cons_self with interrupted | ⟨count, same, -⟩
    · cases interrupted
      rfl
    · cases same

/-- **`rio_writen` on a reliable connection** succeeds. -/
theorem Reliable.writenLoop (reliable : s.Reliable) (bufp : Bytes) :
    (s.writenLoop bufp).1 = true ∧ (s.writenLoop bufp).2.Reliable := by
  induction s, bufp using writenLoop.induct with
  | case1 s =>
    rw [Outlet.writenLoop, if_pos rfl]
    exact ⟨rfl, reliable⟩
  | case2 s bufp more nwritten stopped interrupted ih =>
    rw [Outlet.writenLoop, if_neg more]
    simp only [if_pos stopped, if_pos interrupted, nwritten]
    exact ih (reliable.write more).1
  | case3 s bufp more nwritten stopped failed => exact absurd ((reliable.write more).2 stopped) failed
  | case4 s bufp more nwritten moved ih =>
    rw [Outlet.writenLoop, if_neg more]
    simp only [if_neg moved, nwritten]
    exact ih (reliable.write more).1

theorem Reliable.sendAll (reliable : s.Reliable) (parts : List Bytes) : (s.sendAll parts).1 = true := by
  induction parts generalizing s with
  | nil => rfl
  | cons usrbuf parts ih =>
    obtain ⟨success, reliable'⟩ := reliable.writenLoop usrbuf
    unfold Outlet.sendAll
    rw [if_neg (not_not_intro ((s.writen_eq usrbuf).mpr success))]
    exact ih reliable'

end Outlet

/-- These writes succeed, and the bytes arrive in these pieces. -/
def Arrives (parts : List Bytes) (incoming : List Piece) : Prop :=
  ∃ s : Outlet, s.sent = [] ∧ (s.sendAll parts).1 = true ∧ (incoming.map Piece.bytes).flatten = (s.sendAll parts).2.sent

/-- **What arrives is what was written**, however the writes were cut. -/
theorem Arrives.bytes {parts : List Bytes} {incoming : List Piece} (arrives : Arrives parts incoming) :
    (incoming.map Piece.bytes).flatten = parts.flatten := by
  obtain ⟨s, fresh, success, arrived⟩ := arrives
  obtain ⟨first, -, sent, all⟩ := s.sendAll_sent parts
  rw [arrived, sent, fresh, all.mp success]
  rfl

/-- Whatever was written can arrive in any pieces. -/
theorem arrives_of_bytes {parts : List Bytes} {incoming : List Piece} (bytes : (incoming.map Piece.bytes).flatten = parts.flatten)
    (s : Outlet) (reliable : s.Reliable) (fresh : s.sent = []) : Arrives parts incoming := by
  obtain ⟨first, -, sent, all⟩ := s.sendAll_sent parts
  have success := reliable.sendAll parts
  refine ⟨s, fresh, success, ?_⟩
  rw [bytes, sent, fresh, all.mp success]
  rfl

/-! ## Files -/

/-- A file that is read: what is behind its offset. Behind the schedule everything is there at once. -/
structure OpenFile where
  rest : Bytes
  schedule : List IoResult

namespace OpenFile

/-- `read`. -/
def read (f : OpenFile) (n : Nat) : Except Int Bytes × OpenFile :=
  match f.schedule with
  | [] => (.ok (f.rest.take n), { f with rest := f.rest.drop n })
  | .upTo count :: results => (.ok (f.rest.take (min count n)), ⟨f.rest.drop (min count n), results⟩)
  | .error errno :: results => (.error errno, ⟨f.rest, results⟩)

/-- A regular file gives at least a byte before its end. -/
def Regular (f : OpenFile) : Prop := ∀ count, .upTo count ∈ f.schedule → 0 < count

variable {f f' : OpenFile} {n : Nat} {bytes : Bytes}

/-- What a call of `read` on a regular file leaves is a regular file. -/
theorem Regular.read (regular : f.Regular) (n : Nat) : (f.read n).2.Regular := by
  obtain ⟨rest, schedule⟩ := f
  unfold OpenFile.read
  match schedule with
  | [] => exact regular
  | .upTo count :: results => exact fun count mem => regular count (List.mem_cons_of_mem _ mem)
  | .error errno :: results => exact fun count mem => regular count (List.mem_cons_of_mem _ mem)

end OpenFile

end OsProjects.Server
