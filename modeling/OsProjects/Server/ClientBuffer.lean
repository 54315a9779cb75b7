import OsProjects.Server.Client

/-!
# The client's buffer

The stores of `print_response` into `buf`, each by its index. A line read leaves room for its
terminator. The body loop asks for up to `MAXBUF` bytes and puts a terminator behind what it
got, so a read of that many bytes puts it behind the array.
-/

namespace OsProjects.Server

open CText

variable {rio : Rio} {buf : Bytes} {incoming : List Piece} {line rest : Bytes}

/-! ## The stores -/

/-- A line read stores the line and a terminator, or nothing at the end of the file. -/
def lineStores : Option Bytes → List Nat
  | none => []
  | some line => List.range (line.length + 1)

/-- The line reads in the loop over the header. -/
def headerStores (rio : Rio) (buf : Bytes) (n : Nat) : List Nat :=
  if cstring buf ≠ lit "\r\n" ∧ 0 < n then
    let next := rio.readlineb maxbuf
    lineStores next.2.1 ++ headerStores next.2.2 (next.2.1.getD buf) next.1
  else []
termination_by 2 * rio.stream.length + min n 1
decreasing_by
  have less := rio.readlineb_less (show 1 < maxbuf by decide)
  omega

/-- A read of the body stores its bytes, and `print_response` a terminator behind them. -/
def chunkStores (chunk : Bytes) : List Nat := List.range chunk.length ++ [chunk.length]

/-- The stores of `print_response`. A read of the body that gets nothing stores nothing. -/
def printResponseStores (buf : Bytes) (incoming : List Piece) : List Nat :=
  let first := (Rio.readinitb incoming).readlineb maxbuf
  let header := headerLoop first.2.2 (first.2.1.getD buf) first.1 0
  lineStores first.2.1 ++ headerStores first.2.2 (first.2.1.getD buf) first.1 ++
    ((bodyLoop header.2.2 header.2.1).1.map chunkStores).flatten

/-- Every store is inside the array, and the body loop takes no more bytes than were announced. -/
structure Contained (buf : Bytes) (incoming : List Piece) : Prop where
  stores : ∀ i ∈ printResponseStores buf incoming, i < maxbuf
  taken : (printResponse buf incoming).1.body.flatten.length ≤ (printResponse buf incoming).1.length.toNat

/-! ## What a response announces -/

/-- The header lines of a response, cut where they are too long for the buffer, and what follows the
blank line. -/
def splitHeader (response : Bytes) : List Bytes × Bytes :=
  if response = [] then ([], [])
  else
    let line := Rio.nextLine (maxbuf - 1) response
    let rest := response.drop line.length
    if cstring line = lit "\r\n" then ([], rest) else (cstring line :: (splitHeader rest).1, (splitHeader rest).2)
termination_by response.length
decreasing_by
  all_goals
    have := List.length_pos_of_ne_nil (Rio.nextLine_ne_nil (show 0 < maxbuf - 1 by decide) ‹_›)
    have := List.length_pos_of_ne_nil ‹response ≠ []›
    simp only [List.length_drop]
    omega

/-- The length that header lines announce: the last one counts, and without one it is zero. -/
def announced (headers : List Bytes) : Int := headers.foldl contentLength 0

/-- The response announces less than a buffer of bytes, or has less than that behind its header. -/
def FitsBuffer (response : Bytes) : Prop :=
  announced (splitHeader response).1 < maxbuf ∨ (splitHeader response).2.length < maxbuf

theorem splitHeader_blank (more : line ≠ []) (blank : cstring (Rio.nextLine (maxbuf - 1) line) = lit "\r\n") :
    splitHeader line = ([], line.drop (Rio.nextLine (maxbuf - 1) line).length) := by
  rw [splitHeader, if_neg more]
  simp [blank]

theorem splitHeader_line (more : line ≠ []) (text : cstring (Rio.nextLine (maxbuf - 1) line) ≠ lit "\r\n") :
    splitHeader line =
      (cstring (Rio.nextLine (maxbuf - 1) line) ::
        (splitHeader (line.drop (Rio.nextLine (maxbuf - 1) line).length)).1,
      (splitHeader (line.drop (Rio.nextLine (maxbuf - 1) line).length)).2) := by
  rw [splitHeader, if_neg more]
  simp [text]

/-! ## The header -/

/-- A line read stays inside the array. -/
theorem lineStores_lt (rio : Rio) : ∀ i ∈ lineStores (rio.readlineb maxbuf).2.1, i < maxbuf := by
  by_cases more : rio.stream = []
  · obtain ⟨-, nothing, -⟩ := Rio.readlineb_end (show 1 < maxbuf by decide) more
    simp [nothing, lineStores]
  · obtain ⟨-, stored, -⟩ := Rio.readlineb_spec maxbuf more
    have le := Rio.nextLine_length_le (maxbuf - 1) rio.stream
    have room : 0 < maxbuf := by decide
    intro i mem
    rw [stored, lineStores, List.mem_range] at mem
    omega

theorem headerStores_lt (rio : Rio) (buf : Bytes) (n : Nat) : ∀ i ∈ headerStores rio buf n, i < maxbuf := by
  induction rio, buf, n using headerStores.induct with
  | case1 rio buf n running next ih =>
    rw [headerStores, if_pos running]
    intro i mem
    rcases List.mem_append.mp mem with mem | mem
    · exact lineStores_lt rio i mem
    · exact ih i mem
  | case2 rio buf n stop =>
    rw [headerStores, if_neg stop]
    simp

/-- **The header loop reads the header.** -/
theorem headerLoop_eq (rio : Rio) (buf : Bytes) (length : Int) : ∃ after : Rio,
    headerLoop (rio.readlineb maxbuf).2.2 ((rio.readlineb maxbuf).2.1.getD buf) (rio.readlineb maxbuf).1 length =
      ((splitHeader rio.stream).1, (splitHeader rio.stream).1.foldl contentLength length, after) ∧
    after.stream = (splitHeader rio.stream).2 := by
  induction size : rio.stream.length using Nat.strong_induction_on generalizing rio buf length with
  | h n ih =>
    by_cases more : rio.stream = []
    · obtain ⟨zero, -, done⟩ := Rio.readlineb_end (show 1 < maxbuf by decide) more
      refine ⟨(rio.readlineb maxbuf).2.2, ?_, ?_⟩
      · rw [headerLoop, if_neg (by simp [zero]), more, splitHeader]
        simp
      · rw [done, more, splitHeader]
        simp
    · obtain ⟨positive, stored, after⟩ := Rio.readlineb_spec maxbuf more
      have less := rio.readlineb_lt (show 1 < maxbuf by decide) (by omega)
      rw [stored, Option.getD_some]
      by_cases blank : cstring (Rio.nextLine (maxbuf - 1) rio.stream) = lit "\r\n"
      · refine ⟨(rio.readlineb maxbuf).2.2, ?_, ?_⟩
        · rw [headerLoop, if_neg (fun running => running.1 blank), splitHeader_blank more blank]
          simp
        · rw [splitHeader_blank more blank, after]
      · obtain ⟨last, done, left⟩ := ih _ (size ▸ less) (rio.readlineb maxbuf).2.2 (Rio.nextLine (maxbuf - 1) rio.stream)
          (contentLength length (cstring (Rio.nextLine (maxbuf - 1) rio.stream))) rfl
        rw [after] at done left
        refine ⟨last, ?_, ?_⟩
        · rw [headerLoop, if_pos ⟨blank, positive⟩, splitHeader_line more blank]
          simp only [done, List.foldl_cons]
        · rw [splitHeader_line more blank, left]

/-! ## The body -/

theorem length_le_flatten {chunks : List Bytes} {chunk : Bytes} (mem : chunk ∈ chunks) : chunk.length ≤ chunks.flatten.length :=
  (List.sublist_flatten_of_mem mem).length_le

/-- A first read of a whole buffer. -/
theorem bodyLoop_full {remaining : Int} (announces : maxbuf ≤ remaining) (sends : maxbuf ≤ rio.stream.length) :
    ∃ chunk ∈ (bodyLoop rio remaining).1, chunk.length = maxbuf := by
  have room : 0 < maxbuf := by decide
  obtain ⟨got, -⟩ := rio.readnb_spec (min remaining maxbuf).toNat
  have wanted : (min remaining maxbuf).toNat = maxbuf := by omega
  rw [wanted] at got
  have size : (rio.readnb maxbuf).1.length = maxbuf := by
    rw [got, List.length_take_of_le sends]
  have something : (rio.readnb maxbuf).1 ≠ [] := by
    apply List.ne_nil_of_length_pos
    omega
  rw [bodyLoop, if_pos (by omega)]
  simp only [wanted, something, if_false]
  exact ⟨_, List.mem_cons_self, size⟩

/-- **Where the body loop stores**: inside the array, unless a whole buffer was announced and sent. -/
theorem bodyStores_lt_iff (rio : Rio) (remaining : Int) :
    (∀ i ∈ ((bodyLoop rio remaining).1.map chunkStores).flatten, i < maxbuf) ↔
      remaining < maxbuf ∨ rio.stream.length < maxbuf := by
  have room : 0 < maxbuf := by decide
  constructor
  · intro inside
    by_contra full
    push Not at full
    obtain ⟨chunk, mem, size⟩ := bodyLoop_full full.1 full.2
    have terminator : chunk.length ∈ ((bodyLoop rio remaining).1.map chunkStores).flatten := by
      apply List.mem_flatten_of_mem (List.mem_map_of_mem mem)
      simp [chunkStores]
    exact absurd (inside _ terminator) (by omega)
  · intro fits i mem
    obtain ⟨stores, mem, inChunk⟩ := List.mem_flatten.mp mem
    obtain ⟨chunk, read, rfl⟩ := List.mem_map.mp mem
    have short := length_le_flatten read
    rw [(bodyLoop_spec rio remaining).1, List.length_take] at short
    have last : i ≤ chunk.length := by
      simp only [chunkStores, List.mem_append, List.mem_range, List.mem_singleton] at inChunk
      omega
    omega

/-! ## The whole response -/

/-- **When the client stays inside its buffer.** -/
theorem printResponse_contained_iff (buf : Bytes) (incoming : List Piece) :
    Contained buf incoming ↔ FitsBuffer (incoming.map Piece.bytes).flatten := by
  obtain ⟨after, header, left⟩ := headerLoop_eq (Rio.readinitb incoming) buf 0
  rw [Rio.stream_readinitb] at header left
  have body := bodyStores_lt_iff after (announced (splitHeader (incoming.map Piece.bytes).flatten).1)
  rw [left] at body
  constructor
  · intro contained
    apply body.mp
    intro i mem
    apply contained.stores
    unfold printResponseStores
    simp only [header]
    exact List.mem_append_right _ mem
  · intro fits
    constructor
    · intro i mem
      unfold printResponseStores at mem
      simp only [header] at mem
      rcases List.mem_append.mp mem with mem | mem
      · rcases List.mem_append.mp mem with mem | mem
        · exact lineStores_lt _ i mem
        · exact headerStores_lt _ _ _ i mem
      · exact body.mpr fits i mem
    · unfold printResponse
      simp only [header]
      rw [(bodyLoop_spec after _).1]
      exact List.length_take_le _ _

/-- A response with a body of one whole buffer. -/
def fullBuffer : List Piece :=
  [⟨lit "Content-Length: 8192\r\n\r\n", by decide, by decide⟩,
    ⟨List.replicate maxbuf 97, List.cons_ne_nil _ _, List.length_replicate.le⟩]

theorem splitHeader_full (body : Bytes) :
    splitHeader (lit "Content-Length: 8192\r\n\r\n" ++ body) = ([lit "Content-Length: 8192\r\n"], body) := by
  have cut : lit "Content-Length: 8192\r\n\r\n" = lit "Content-Length: 8192\r" ++ 10 :: lit "\r\n" := by decide
  have first : Rio.nextLine (maxbuf - 1) (lit "Content-Length: 8192\r\n\r\n" ++ body) = lit "Content-Length: 8192\r" ++ [10] := by
    rw [cut, List.append_assoc, List.cons_append]
    exact Rio.nextLine_line (by decide) (by decide) _
  have cut' : lit "\r\n" = lit "\r" ++ [10] := by decide
  have second : Rio.nextLine (maxbuf - 1) (lit "\r\n" ++ body) = lit "\r\n" := by
    rw [cut', List.append_assoc, List.singleton_append]
    exact Rio.nextLine_line (by decide) (by decide) _
  have some : lit "Content-Length: 8192\r\n\r\n" ++ body ≠ [] := List.cons_ne_nil _ _
  have more : lit "\r\n" ++ body ≠ [] := List.cons_ne_nil _ _
  rw [splitHeader_line some (by rw [first]; decide), first]
  change (_ :: (splitHeader (lit "\r\n" ++ body)).1, (splitHeader (lit "\r\n" ++ body)).2) = _
  rw [splitHeader_blank more (by rw [second]; decide), second]
  rfl

/-- **A whole buffer is too much**: its terminator goes behind the array. -/
theorem fullBuffer_overruns : ¬Contained [] fullBuffer := by
  obtain ⟨after, header, left⟩ := headerLoop_eq (Rio.readinitb fullBuffer) [] 0
  have stream : (Rio.readinitb fullBuffer).stream = lit "Content-Length: 8192\r\n\r\n" ++ List.replicate maxbuf 97 := by
    simp [Rio.stream_readinitb, fullBuffer]
  rw [stream, splitHeader_full] at header left
  have length : [lit "Content-Length: 8192\r\n"].foldl contentLength 0 = maxbuf := by decide
  intro contained
  have inside := (bodyStores_lt_iff after maxbuf).mp fun i mem => by
    apply contained.stores
    unfold printResponseStores
    simp only [header, length]
    exact List.mem_append_right _ mem
  rw [left, List.length_replicate] at inside
  simp at inside

end OsProjects.Server
