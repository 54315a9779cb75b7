import OsProjects.Server.HandleRequest

/-!
# Reads that are interrupted

`rio_t` as `segel.c` has it, with a signed count, a cursor into `rio_buf` and the loop of
`rio_read` over calls that were interrupted. `RioT.abs` forgets the interruptions and what
has been used of the buffer: what is left is a `Rio`, and every operation on the one is that
operation on the other. What a request is made of depends on the stream alone.
-/

namespace OsProjects.Server

open CText

/-- What a call of `read` returns before the end of the file: the next bytes, or -1 with `EINTR`. -/
inductive ReadResult where
  | bytes (piece : Piece)
  | interrupted

/-- The pieces of a schedule. -/
def ReadResult.piece? : ReadResult → Option Piece
  | bytes piece => some piece
  | interrupted => none

/-- `rio_t`, with what `read` will return. Behind the schedule it returns 0. -/
structure RioT where
  rioCnt : Int
  rioBuf : Bytes
  rioBufptr : Nat
  schedule : List ReadResult
  /-- The count never leads out of the buffer. -/
  inside : rioBufptr + rioCnt.toNat ≤ rioBuf.length

namespace RioT

/-- `rio_readinitb`. -/
def readinitb (schedule : List ReadResult) : RioT := ⟨0, [], 0, schedule, le_refl _⟩

/-- The loop of `rio_read`, while there is nothing in the buffer. A count of zero is the end of the file. -/
def fill (rp : RioT) : List ReadResult → RioT
  | [] => { rp with rioCnt := 0, schedule := [], inside := by have := rp.inside; simp; omega }
  | .interrupted :: results => fill { rp with rioCnt := -1, inside := by have := rp.inside; simp; omega } results
  | .bytes piece :: results => ⟨piece.bytes.length, piece.bytes, 0, results, by simp⟩

/-- The buffer when the loop of `rio_read` is over. -/
def refill (rp : RioT) : RioT := if 0 < rp.rioCnt then rp else rp.fill rp.schedule

/-- The copy at the end of `rio_read`: the number it returns and the bytes it copies. -/
def copy (rp : RioT) (n : Nat) : Int × Bytes × RioT :=
  let cnt := min (n : Int) rp.rioCnt
  (cnt, (rp.rioBuf.drop rp.rioBufptr).take cnt.toNat,
    { rp with
      rioCnt := rp.rioCnt - cnt
      rioBufptr := rp.rioBufptr + cnt.toNat
      inside := by have := rp.inside; omega })

/-- `rio_read`. -/
def read (rp : RioT) (n : Nat) : Int × Bytes × RioT :=
  if rp.refill.rioCnt ≤ 0 then (0, [], rp.refill) else rp.refill.copy n

/-- The loop of `rio_readlineb` with `left` bytes of room. -/
def readlineLoop (rp : RioT) (line : Bytes) : Nat → Int × Option Bytes × RioT
  | 0 => (line.length + 1, some line, rp)
  | left + 1 =>
    let (rc, got, rp) := rp.read 1
    if rc = 1 then
      if got.headD 0 = 10 then (line.length + 1, some (line ++ [got.headD 0]), rp)
      else rp.readlineLoop (line ++ [got.headD 0]) left
    else if rc = 0 then if line = [] then (0, none, rp) else (line.length + 1, some line, rp)
    else (-1, none, rp)

/-- `rio_readlineb`. -/
def readlineb (rp : RioT) (maxlen : Nat) : Int × Option Bytes × RioT := rp.readlineLoop [] (maxlen - 1)

/-! ## Forgetting the interruptions -/

/-- What is left in the buffer, and the pieces to come. -/
def abs (rp : RioT) : Rio := ⟨(rp.rioBuf.drop rp.rioBufptr).take rp.rioCnt.toNat, rp.schedule.filterMap ReadResult.piece?⟩

/-- All that has not been read. -/
def stream (rp : RioT) : Bytes := rp.abs.stream

variable {rp rp' : RioT}

/-- Interruptions leave no trace: the buffer holds the next piece, or the file has ended. -/
theorem fill_spec (rp : RioT) (results : List ReadResult) :
    ((rp.fill results).rioCnt = 0 ∧ (rp.fill results).abs = ⟨[], []⟩ ∧ results.filterMap ReadResult.piece? = []) ∨
    ∃ piece pieces, (rp.fill results).rioCnt = piece.bytes.length ∧ (rp.fill results).abs = ⟨piece.bytes, pieces⟩ ∧
      results.filterMap ReadResult.piece? = piece :: pieces := by
  induction results generalizing rp with
  | nil => exact .inl ⟨rfl, by simp [fill, abs], rfl⟩
  | cons result results ih =>
    cases result with
    | interrupted => exact ih _
    | bytes piece => exact .inr ⟨piece, _, rfl, by simp [fill, abs], rfl⟩

theorem length_abs (rp : RioT) : rp.abs.buf.length = rp.rioCnt.toNat := by
  have := rp.inside
  simp only [abs, List.length_take, List.length_drop]
  omega

/-- The copy is a read of what is left in the buffer. -/
theorem copy_abs (some : 0 < rp.rioCnt) (n : Nat) : (rp.copy n).1 = (rp.abs.buf.take n).length ∧
    (rp.copy n).2.1 = rp.abs.buf.take n ∧ (rp.copy n).2.2.abs = ⟨rp.abs.buf.drop n, rp.abs.incoming⟩ := by
  have size := rp.length_abs
  have count : (min (n : Int) rp.rioCnt).toNat = min n rp.rioCnt.toNat := by omega
  refine ⟨?_, ?_, ?_⟩
  · rw [List.length_take, size]
    simp only [copy]
    omega
  · simp only [copy, abs, List.take_take, count]
  · have left : (rp.rioCnt - min (n : Int) rp.rioCnt).toNat = rp.rioCnt.toNat - n := by omega
    simp only [copy, abs, left, count, List.drop_take, List.drop_drop]
    by_cases all : n ≤ rp.rioCnt.toNat
    · rw [min_eq_left all]
    · have none : rp.rioCnt.toNat - n = 0 := by omega
      simp [none]

/-- **`rio_read` is a read without interruptions**, and returns the number of bytes. -/
theorem read_abs (rp : RioT) (n : Nat) : (rp.read n).1 = (rp.abs.read n).1.length ∧
    (rp.read n).2.1 = (rp.abs.read n).1 ∧ (rp.read n).2.2.abs = (rp.abs.read n).2 := by
  unfold read
  by_cases some : 0 < rp.rioCnt
  · have kept : rp.refill = rp := if_pos some
    have size := rp.length_abs
    have more : rp.abs.buf ≠ [] := by
      apply List.ne_nil_of_length_pos
      omega
    rw [kept, if_neg (by omega), Rio.read_buf more]
    exact copy_abs some n
  · have filled : rp.refill = rp.fill rp.schedule := if_neg some
    have empty : rp.abs = ⟨[], rp.schedule.filterMap ReadResult.piece?⟩ := by
      have none : rp.rioCnt.toNat = 0 := by omega
      simp [abs, none]
    rw [filled, empty]
    rcases rp.fill_spec rp.schedule with ⟨zero, done, last⟩ | ⟨piece, pieces, count, buffer, next⟩
    · rw [last, if_pos (by omega)]
      exact ⟨rfl, rfl, done⟩
    · have positive := List.length_pos_of_ne_nil piece.nonempty
      have some : 0 < (rp.fill rp.schedule).rioCnt := by omega
      have copied := copy_abs some n
      rw [buffer] at copied
      rw [next, if_neg (by omega)]
      exact copied

theorem readlineLoop_abs (rp : RioT) (line : Bytes) (left : Nat) :
    (rp.readlineLoop line left).1 = (rp.abs.readlineLoop line left).1 ∧
    (rp.readlineLoop line left).2.1 = (rp.abs.readlineLoop line left).2.1 ∧
    (rp.readlineLoop line left).2.2.abs = (rp.abs.readlineLoop line left).2.2 := by
  induction left generalizing rp line with
  | zero => exact ⟨by simp [readlineLoop, Rio.readlineLoop], rfl, rfl⟩
  | succ left ih =>
    obtain ⟨count, copied, after⟩ := rp.read_abs 1
    obtain ⟨-, le, -⟩ := rp.abs.read_spec 1
    unfold readlineLoop Rio.readlineLoop
    match got : rp.abs.read 1 with
    | ([], unread) =>
      rw [got] at count copied after
      have zero : (rp.read 1).1 = 0 := count
      by_cases begun : line = []
      · simp [zero, begun, after]
      · simp [zero, begun, after]
    | (c :: rest, unread) =>
      rw [got] at count copied after le
      obtain rfl : rest = [] := List.eq_nil_of_length_eq_zero (by rw [List.length_cons] at le; omega)
      have one : (rp.read 1).1 = 1 := count
      by_cases newline : c = 10
      · simp [one, copied, newline, after]
      · obtain ⟨number, stored, unread'⟩ := ih (rp.read 1).2.2 (line ++ [c])
        rw [after] at number stored unread'
        simp [one, copied, newline, number, stored, unread']

/-- **`rio_readlineb` reads the lines of the stream**, however the reads are interrupted. -/
theorem readlineb_abs (rp : RioT) (maxlen : Nat) : (rp.readlineb maxlen).1 = (rp.abs.readlineb maxlen).1 ∧
    (rp.readlineb maxlen).2.1 = (rp.abs.readlineb maxlen).2.1 ∧
    (rp.readlineb maxlen).2.2.abs = (rp.abs.readlineb maxlen).2.2 := rp.readlineLoop_abs [] (maxlen - 1)

/-- A line read that gets something shortens the stream. -/
theorem readlineb_lt (rp : RioT) {maxlen : Nat} (room : 1 < maxlen) (some : ¬(rp.readlineb maxlen).1 ≤ 0) :
    (rp.readlineb maxlen).2.2.stream.length < rp.stream.length := by
  obtain ⟨number, -, after⟩ := rp.readlineb_abs maxlen
  unfold stream
  rw [after]
  apply rp.abs.readlineb_lt room
  omega

end RioT

/-! ## The lines of a request -/

/-- The loop of `handle_request` that drains the headers: the line buffers it gets, and the connection
after it. -/
def drainLines (rp : RioT) (buf : Bytes) : List Bytes × RioT :=
  if cstring buf ≠ lit "\r\n" ∧ cstring buf ≠ [] then
    let next := rp.readlineb maxline
    if next.1 ≤ 0 then ([], next.2.2)
    else
      let rest := drainLines next.2.2 (next.2.1.getD buf)
      (next.2.1.getD buf :: rest.1, rest.2)
  else ([], rp)
termination_by rp.stream.length
decreasing_by exact rp.readlineb_lt (by decide) ‹_›

/-- What `handle_request` knows of a request when the headers are drained. -/
structure Reading where
  lines : List Bytes
  method : Bytes
  uri : Bytes
  totalReq : Int
  unread : Bytes

/-- `handle_request` up to its first branch, with what the three arrays and `total_req` hold before. -/
def readRequest (method uri version : Bytes) (totalReq : Int) (schedule : List ReadResult) : Option Reading :=
  let first := (RioT.readinitb schedule).readlineb maxline
  match first.2.1 with
  | none => none
  | some buf =>
    let words := scanRequest (cstring buf) method uri version
    let rest := drainLines first.2.2 buf
    some ⟨buf :: rest.1, words.1, words.2.1, increment totalReq, rest.2.stream⟩

/-- The bytes that a schedule delivers. -/
def delivered (schedule : List ReadResult) : Bytes := ((schedule.filterMap ReadResult.piece?).map Piece.bytes).flatten

variable {rp rp' : RioT} {schedule schedule' : List ReadResult} {buf : Bytes}

/-- A line read of two connections with the same bytes to come. -/
theorem RioT.readlineb_congr (same : rp.stream = rp'.stream) :
    ((rp.readlineb maxline).1 ≤ 0 ↔ (rp'.readlineb maxline).1 ≤ 0) ∧
    (rp.readlineb maxline).2.1 = (rp'.readlineb maxline).2.1 ∧
    (rp.readlineb maxline).2.2.stream = (rp'.readlineb maxline).2.2.stream := by
  obtain ⟨number, stored, after⟩ := rp.readlineb_abs maxline
  obtain ⟨number', stored', after'⟩ := rp'.readlineb_abs maxline
  unfold RioT.stream at same ⊢
  rw [number, number', stored, stored', after, after']
  by_cases more : rp.abs.stream = []
  · obtain ⟨zero, nothing, done⟩ := Rio.readlineb_end (show 1 < maxline by decide) more
    obtain ⟨zero', nothing', done'⟩ := Rio.readlineb_end (show 1 < maxline by decide) (same ▸ more)
    simp [zero, zero', nothing, nothing', done, done']
  · obtain ⟨positive, line, rest⟩ := Rio.readlineb_spec maxline more
    obtain ⟨positive', line', rest'⟩ := Rio.readlineb_spec maxline (same ▸ more)
    rw [line, line', rest, rest', same]
    refine ⟨?_, rfl, rfl⟩
    omega

/-- **The drained lines depend on the stream alone.** -/
theorem drainLines_congr (buf : Bytes) (same : rp.stream = rp'.stream) :
    (drainLines rp buf).1 = (drainLines rp' buf).1 ∧ (drainLines rp buf).2.stream = (drainLines rp' buf).2.stream := by
  induction rp, buf using drainLines.induct generalizing rp' with
  | case1 rp buf running next =>
    rename_i ended
    simp only [next] at ended
    obtain ⟨ends, stored, after⟩ := RioT.readlineb_congr same
    rw [drainLines, drainLines, if_pos running, if_pos running]
    simp only [if_pos ended, if_pos (ends.mp ended), after, and_self]
  | case2 rp buf running next more =>
    rename_i ih
    simp only [next] at more ih
    obtain ⟨ends, stored, after⟩ := RioT.readlineb_congr same
    obtain ⟨lines, unread⟩ := ih after
    rw [drainLines, drainLines, if_pos running, if_pos running]
    rw [stored] at lines unread
    simp only [if_neg more, if_neg (fun ended => more (ends.mpr ended)), stored, lines, unread, and_self]
  | case3 rp buf stop =>
    rw [drainLines, drainLines, if_neg stop, if_neg stop]
    exact ⟨rfl, same⟩

/-- The loop over the lines of `Rio` stops at the same place. -/
theorem drainLines_abs (rp : RioT) (buf : Bytes) : (drainLines rp buf).2.abs = drain rp.abs buf := by
  induction rp, buf using drainLines.induct with
  | case1 rp buf running next =>
    rename_i ended
    simp only [next] at ended
    obtain ⟨number, -, after⟩ := rp.readlineb_abs maxline
    have zero : (rp.abs.readlineb maxline).1 = 0 := by omega
    rw [drainLines, drain, if_pos running, if_pos running]
    simp only [if_pos ended, if_pos zero, after]
  | case2 rp buf running next more =>
    rename_i ih
    simp only [next] at more ih
    obtain ⟨number, stored, after⟩ := rp.readlineb_abs maxline
    have positive : (rp.abs.readlineb maxline).1 ≠ 0 := by omega
    rw [after, stored] at ih
    rw [drainLines, drain, if_pos running, if_pos running]
    simp only [if_neg more, if_neg positive, stored, ih]
  | case3 rp buf stop =>
    rw [drainLines, drain, if_neg stop, if_neg stop]

/-- Every turn of the loop takes a byte off the stream. -/
theorem drainLines_length (rp : RioT) (buf : Bytes) :
    (drainLines rp buf).1.length + (drainLines rp buf).2.stream.length ≤ rp.stream.length := by
  induction rp, buf using drainLines.induct with
  | case1 rp buf running next =>
    rename_i ended
    simp only [next] at ended
    obtain ⟨-, -, after⟩ := rp.readlineb_abs maxline
    have less := rp.abs.readlineb_less (show 1 < maxline by decide)
    rw [drainLines, if_pos running]
    simp only [if_pos ended, List.length_nil, RioT.stream, after]
    omega
  | case2 rp buf running next more =>
    rename_i ih
    simp only [next] at more ih
    have less := rp.readlineb_lt (show 1 < maxline by decide) more
    rw [drainLines, if_pos running]
    simp only [if_neg more, List.length_cons]
    omega
  | case3 rp buf stop =>
    rw [drainLines, if_neg stop]
    simp

theorem stream_readinitb (schedule : List ReadResult) : (RioT.readinitb schedule).stream = delivered schedule := by
  simp [RioT.stream, RioT.abs, RioT.readinitb, Rio.stream, delivered]

/-- The turns of the loop that drains the headers, and what it leaves, are bounded by the bytes. -/
theorem readRequest_length {method uri version : Bytes} {totalReq : Int} {r : Reading}
    (request : readRequest method uri version totalReq schedule = some r) :
    r.lines.length + r.unread.length ≤ (delivered schedule).length := by
  unfold readRequest at request
  simp only at request
  cases stored : ((RioT.readinitb schedule).readlineb maxline).2.1 with
  | none => simp [stored] at request
  | some buf =>
    simp only [stored, Option.some_inj] at request
    subst request
    obtain ⟨number, line, -⟩ := (RioT.readinitb schedule).readlineb_abs maxline
    have more : (RioT.readinitb schedule).abs.stream ≠ [] := by
      intro done
      obtain ⟨-, nothing, -⟩ := Rio.readlineb_end (show 1 < maxline by decide) done
      rw [stored, nothing] at line
      exact Option.some_ne_none buf line
    obtain ⟨positive, -, -⟩ := Rio.readlineb_spec maxline more
    have some : ¬((RioT.readinitb schedule).readlineb maxline).1 ≤ 0 := by omega
    have less := (RioT.readinitb schedule).readlineb_lt (show 1 < maxline by decide) some
    have rest := drainLines_length ((RioT.readinitb schedule).readlineb maxline).2.2 buf
    rw [stream_readinitb] at less
    simp only [List.length_cons]
    omega

/-- The reading decides the request: with its words and its place in the stream `handle_request` goes on as it does
without interruptions. -/
theorem handleRequest_reading (w : Surroundings) (method uri version : Bytes) (schedule : List ReadResult)
    (ts : ThreadsStats) (tm : TimeStats) :
    (handleRequest w method uri version (schedule.filterMap ReadResult.piece?) ts tm).map (fun r => (r.1, r.2.stream)) =
      (readRequest method uri version ts.totalReq schedule).map fun r =>
        (perform w ts.counted tm.dispatched (route r.method r.uri w.stat), r.unread) := by
  have start : (RioT.readinitb schedule).abs = Rio.readinitb (schedule.filterMap ReadResult.piece?) := by
    simp [RioT.abs, RioT.readinitb, Rio.readinitb]
  obtain ⟨-, stored, after⟩ := (RioT.readinitb schedule).readlineb_abs maxline
  rw [start] at stored after
  unfold handleRequest readRequest
  simp only [stored]
  cases ((Rio.readinitb (schedule.filterMap ReadResult.piece?)).readlineb maxline).2.1 with
  | none => rfl
  | some buf =>
    have drained := drainLines_abs ((RioT.readinitb schedule).readlineb maxline).2.2 buf
    rw [after] at drained
    simp only [Option.map_some, RioT.stream, drained]

/-- **The network does not matter.** Two schedules that deliver the same bytes give a request the same line buffers, and with
them the same method, URI, count and place in the stream; the loop that drains the headers makes no more turns than there
are bytes. -/
theorem readRequest_congr (same : delivered schedule = delivered schedule') (method uri version : Bytes) (totalReq : Int) :
    readRequest method uri version totalReq schedule = readRequest method uri version totalReq schedule' ∧
    ∀ r, readRequest method uri version totalReq schedule = some r →
      r.lines.length + r.unread.length ≤ (delivered schedule).length := by
  refine ⟨?_, fun r request => readRequest_length request⟩
  have streams : (RioT.readinitb schedule).stream = (RioT.readinitb schedule').stream := by
    rw [stream_readinitb, stream_readinitb, same]
  obtain ⟨-, stored, after⟩ := RioT.readlineb_congr streams
  unfold readRequest
  simp only [stored]
  cases (RioT.readinitb schedule').readlineb maxline |>.2.1 with
  | none => rfl
  | some buf =>
    obtain ⟨lines, unread⟩ := drainLines_congr buf after
    simp only [lines, unread]

/-- A request in one piece, and with a `read` for every part of a line end and interruptions in between. -/
def wholeRequest : List ReadResult := [.bytes ⟨lit "GET / HTTP/1.0\r\nHost: a\r\n\r\n", by decide, by decide⟩]
def brokenRequest : List ReadResult :=
  [.interrupted, .bytes ⟨lit "GET / HTTP/1.0\r", by decide, by decide⟩, .interrupted, .interrupted,
    .bytes ⟨lit "\nHost: a\r\n\r", by decide, by decide⟩, .bytes ⟨lit "\n", by decide, by decide⟩]

theorem readRequest_congr_broken :
    readRequest [] [] [] 0 wholeRequest = readRequest [] [] [] 0 brokenRequest ∧
    ∀ r, readRequest [] [] [] 0 wholeRequest = some r →
      r.lines.length + r.unread.length ≤ (delivered wholeRequest).length :=
  readRequest_congr (show delivered wholeRequest = delivered brokenRequest by decide) [] [] [] 0

end OsProjects.Server
