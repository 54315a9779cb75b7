import OsProjects.Lib.CText

/-!
# Buffered input

The Rio package of `segel.c` on a connection. The kernel hands over what was sent in pieces
of its own choosing; `rio_readnb` and `rio_readlineb` make one stream of it. A call of
`read` that was interrupted is made again and leaves no trace. One that fails ends the program.
-/

namespace OsProjects.Server

open CText

/-- `RIO_BUFSIZE`. -/
def rioBufsize : Nat := 8192

/-- What one call of `read` puts into `rio_buf`. -/
structure Piece where
  bytes : Bytes
  nonempty : bytes ≠ []
  fits : bytes.length ≤ rioBufsize

/-- `rio_t`: what is left in `rio_buf`, `rio_cnt` bytes, and what `read` will return before the
end of the file. -/
structure Rio where
  buf : Bytes
  incoming : List Piece

namespace Rio

/-- `Rio_readinitb`. -/
def readinitb (incoming : List Piece) : Rio := ⟨[], incoming⟩

/-- All that has not been read. -/
def stream (rp : Rio) : Bytes := rp.buf ++ (rp.incoming.map Piece.bytes).flatten

/-- `rio_read`: at most `n` bytes, and none at the end of the file. -/
def read (rp : Rio) (n : Nat) : Bytes × Rio :=
  match rp.buf, rp.incoming with
  | [], [] => ([], rp)
  | [], piece :: pieces => (piece.bytes.take n, ⟨piece.bytes.drop n, pieces⟩)
  | b :: bs, pieces => ((b :: bs).take n, ⟨(b :: bs).drop n, pieces⟩)

variable {rp : Rio} {n : Nat}

theorem stream_readinitb (incoming : List Piece) : (readinitb incoming).stream = (incoming.map Piece.bytes).flatten := rfl

theorem read_buf (some : rp.buf ≠ []) (n : Nat) : rp.read n = (rp.buf.take n, ⟨rp.buf.drop n, rp.incoming⟩) := by
  obtain ⟨buf, incoming⟩ := rp
  cases buf with
  | nil => exact absurd rfl some
  | cons b bs => rfl

/-- **What `rio_read` does**: the next bytes of the stream, at least one while there are any. -/
theorem read_spec (rp : Rio) (n : Nat) :
    (rp.read n).1 ++ (rp.read n).2.stream = rp.stream ∧ (rp.read n).1.length ≤ n ∧
    (0 < n → (rp.read n).1 = [] → rp.stream = []) := by
  obtain ⟨buf, incoming⟩ := rp
  unfold read stream
  match buf, incoming with
  | [], [] => exact ⟨rfl, Nat.zero_le _, fun _ _ => rfl⟩
  | [], piece :: pieces =>
    refine ⟨?_, List.length_take_le _ _, fun positive nothing => ?_⟩
    · simp only [List.map_cons, List.flatten_cons, List.nil_append, ← List.append_assoc, List.take_append_drop]
    · rcases List.take_eq_nil_iff.mp nothing with zero | empty
      · omega
      · exact absurd empty piece.nonempty
  | b :: bs, pieces =>
    refine ⟨?_, List.length_take_le _ _, fun positive nothing => ?_⟩
    · rw [← List.append_assoc, List.take_append_drop]
    · rcases List.take_eq_nil_iff.mp nothing with zero | empty
      · omega
      · exact nomatch empty

/-- `rio_readnb`: the bytes read, as many as asked for unless the file ends. -/
def readnb (rp : Rio) (nleft : Nat) : Bytes × Rio :=
  if nleft = 0 then ([], rp)
  else if (rp.read nleft).1 = [] then ([], (rp.read nleft).2)
  else
    let rest := (rp.read nleft).2.readnb (nleft - (rp.read nleft).1.length)
    ((rp.read nleft).1 ++ rest.1, rest.2)
termination_by nleft
decreasing_by
  have := List.length_pos_of_ne_nil ‹_›
  omega

/-- **`rio_readnb` reads the next bytes of the stream.** -/
theorem readnb_spec (rp : Rio) (n : Nat) :
    (rp.readnb n).1 = rp.stream.take n ∧ (rp.readnb n).2.stream = rp.stream.drop n := by
  induction rp, n using readnb.induct with
  | case1 rp =>
    rw [readnb, if_pos rfl]
    exact ⟨rfl, rfl⟩
  | case2 rp n positive nothing =>
    obtain ⟨same, -, last⟩ := rp.read_spec n
    have empty := last (Nat.pos_of_ne_zero positive) nothing
    rw [readnb, if_neg positive, if_pos nothing]
    rw [nothing, empty] at same
    rw [empty, List.take_nil, List.drop_nil]
    exact ⟨rfl, same⟩
  | case3 rp n positive something ih =>
    obtain ⟨same, le, -⟩ := rp.read_spec n
    rw [readnb, if_neg positive, if_neg something]
    obtain ⟨rest, after⟩ := ih
    constructor
    · change (rp.read n).1 ++ _ = _
      rw [rest, ← same, List.take_append, List.take_of_length_le le]
    · change Rio.stream (readnb _ _).2 = _
      rw [after, ← same, List.drop_append, List.drop_eq_nil_of_le le]
      rfl

/-! ## Lines -/

/-- The loop of `rio_readlineb` with `left` bytes of room. The result is the number it returns
and the string it has stored, none if it leaves the array alone. -/
def readlineLoop (rp : Rio) (line : Bytes) : Nat → Nat × Option Bytes × Rio
  | 0 => (line.length + 1, some line, rp)
  | left + 1 =>
    match rp.read 1 with
    | ([], rp) => if line = [] then (0, none, rp) else (line.length + 1, some line, rp)
    | (c :: _, rp) =>
      if c = 10 then (line.length + 1, some (line ++ [c]), rp) else rp.readlineLoop (line ++ [c]) left

/-- `Rio_readlineb`: the string ends with the newline, before `maxlen` bytes or with the file. -/
def readlineb (rp : Rio) (maxlen : Nat) : Nat × Option Bytes × Rio := rp.readlineLoop [] (maxlen - 1)

/-- The next line of a stream, cut after `left` bytes. -/
def nextLine : Nat → Bytes → Bytes
  | 0, _ => []
  | _, [] => []
  | left + 1, c :: rest => if c = 10 then [c] else c :: nextLine left rest

theorem nextLine_length_le (left : Nat) (s : Bytes) : (nextLine left s).length ≤ left := by
  induction left generalizing s with
  | zero => exact le_refl _
  | succ left ih =>
    cases s with
    | nil => exact Nat.zero_le _
    | cons c rest =>
      unfold nextLine
      split_ifs
      · exact Nat.succ_le_succ (Nat.zero_le _)
      · exact Nat.succ_le_succ (ih rest)

theorem nextLine_ne_nil {left : Nat} {s : Bytes} (room : 0 < left) (more : s ≠ []) : nextLine left s ≠ [] := by
  obtain ⟨left, rfl⟩ := Nat.exists_eq_add_of_lt room
  cases s with
  | nil => exact absurd rfl more
  | cons c rest =>
    rw [Nat.zero_add, nextLine]
    split_ifs <;> exact nofun

/-- A line that fits is read as it is. -/
theorem nextLine_line {left : Nat} {text : Bytes} (no : 10 ∉ text) (fits : text.length < left) (rest : Bytes) :
    nextLine left (text ++ 10 :: rest) = text ++ [10] := by
  induction text generalizing left with
  | nil =>
    obtain ⟨left, rfl⟩ := Nat.exists_eq_add_of_lt fits
    rfl
  | cons c text ih =>
    obtain ⟨left, rfl⟩ : ∃ k, left = k + 1 := ⟨left - 1, by omega⟩
    rw [List.length_cons] at fits
    rw [List.cons_append, nextLine, if_neg (List.ne_of_not_mem_cons no).symm,
      ih (fun mem => no (List.mem_cons_of_mem c mem)) (by omega)]
    rfl

theorem readlineLoop_spec (rp : Rio) (line : Bytes) (left : Nat) (more : line ≠ [] ∨ left = 0 ∨ rp.stream ≠ []) :
    0 < (rp.readlineLoop line left).1 ∧
    (rp.readlineLoop line left).2.1 = some (line ++ nextLine left rp.stream) ∧
    (rp.readlineLoop line left).2.2.stream = rp.stream.drop (nextLine left rp.stream).length := by
  induction left generalizing rp line with
  | zero =>
    refine ⟨Nat.succ_pos _, ?_, rfl⟩
    rw [nextLine, List.append_nil]
    rfl
  | succ left ih =>
    obtain ⟨same, le, last⟩ := rp.read_spec 1
    unfold readlineLoop
    match got : rp.read 1 with
    | ([], rp') =>
      rw [got] at same last
      have empty := last Nat.one_pos rfl
      have begun : line ≠ [] := by
        rcases more with begun | zero | more
        · exact begun
        · exact absurd zero (Nat.succ_ne_zero left)
        · exact absurd empty more
      rw [empty] at same ⊢
      simp only [if_neg begun]
      refine ⟨Nat.succ_pos _, ?_, same⟩
      rw [nextLine, List.append_nil]
      exact Nat.succ_ne_zero _
    | (c :: rest, rp') =>
      rw [got] at same le
      obtain rfl : rest = [] := List.eq_nil_of_length_eq_zero (by rw [List.length_cons] at le; omega)
      rw [← same]
      simp only [List.singleton_append, nextLine]
      split_ifs with newline
      · exact ⟨Nat.succ_pos _, rfl, rfl⟩
      · obtain ⟨positive, stored, after⟩ := ih rp' (line ++ [c]) (.inl (by simp))
        refine ⟨positive, ?_, after⟩
        rw [stored, List.append_assoc]
        rfl

/-- **`rio_readlineb` reads the next line of the stream.** -/
theorem readlineb_spec (maxlen : Nat) (more : rp.stream ≠ []) :
    0 < (rp.readlineb maxlen).1 ∧ (rp.readlineb maxlen).2.1 = some (nextLine (maxlen - 1) rp.stream) ∧
    (rp.readlineb maxlen).2.2.stream = rp.stream.drop (nextLine (maxlen - 1) rp.stream).length :=
  rp.readlineLoop_spec [] (maxlen - 1) (.inr (.inr more))

/-- At the end of the file it returns zero. -/
theorem readlineb_end {maxlen : Nat} (room : 1 < maxlen) (done : rp.stream = []) :
    (rp.readlineb maxlen).1 = 0 ∧ (rp.readlineb maxlen).2.1 = none ∧ (rp.readlineb maxlen).2.2.stream = [] := by
  obtain ⟨left, rfl⟩ : ∃ k, maxlen = k + 2 := ⟨maxlen - 2, by omega⟩
  obtain ⟨same, -, -⟩ := rp.read_spec 1
  rw [done] at same
  obtain ⟨nothing, after⟩ := List.append_eq_nil_iff.mp same
  change (readlineLoop rp [] (left + 1)).1 = 0 ∧ _
  unfold readlineb readlineLoop
  match got : rp.read 1 with
  | ([], rp') =>
    rw [got] at after
    exact ⟨rfl, rfl, after⟩
  | (c :: rest, rp') =>
    rw [got] at nothing
    exact nomatch nothing

/-- `rio_readlineb` takes something or returns zero. -/
theorem readlineb_less (rp : Rio) {maxlen : Nat} (room : 1 < maxlen) :
    2 * (rp.readlineb maxlen).2.2.stream.length + min (rp.readlineb maxlen).1 1 < 2 * rp.stream.length + 1 := by
  by_cases more : rp.stream = []
  · obtain ⟨zero, -, done⟩ := readlineb_end room more
    rw [zero, done]
    exact Nat.succ_pos _
  · obtain ⟨-, -, after⟩ := readlineb_spec maxlen more
    have line := List.length_pos_of_ne_nil (nextLine_ne_nil (Nat.sub_pos_of_lt room) more)
    have left := List.length_pos_of_ne_nil more
    rw [after, List.length_drop]
    omega

theorem readlineb_lt (rp : Rio) {maxlen : Nat} (room : 1 < maxlen) (some : (rp.readlineb maxlen).1 ≠ 0) :
    (rp.readlineb maxlen).2.2.stream.length < rp.stream.length := by
  have less := rp.readlineb_less room
  omega

end Rio

end OsProjects.Server
