import OsProjects.Server.Log
import OsProjects.Server.Responses
import OsProjects.Server.Rio

/-!
# The client

`print_response` of `client.c`, reading what the server has written. It prints the header
lines up to the blank one, the length and the body. A piece of the body is kept here as it
was read; where `print_response` puts the terminator behind it does not matter to the
others.
-/

namespace OsProjects.Server

open CText

/-- `atoi`: `strtol`, cut to an `int`. -/
def atoi (text : Bytes) : Int :=
  let number := text.dropWhile isSpace
  let value : Int := if number.head? = some 43 then readNat number.tail else readInt number
  Log.int32 (max (-2 ^ 63) (min (2 ^ 63 - 1) value))

/-- `length` after a header line. -/
def contentLength (length : Int) (line : Bytes) : Int :=
  if sameIgnoringCase (line.take 16) (lit "Content-Length: ") then atoi (line.drop 16) else length

/-- What `print_response` prints: the lines behind `Header:`, the length and the body. -/
structure Printed where
  headers : List Bytes
  length : Int
  body : List Bytes

/-- The loop over the header, with `buf` and `n` from the last `Rio_readlineb`. -/
def headerLoop (rio : Rio) (buf : Bytes) (n : Nat) (length : Int) : List Bytes × Int × Rio :=
  if cstring buf ≠ lit "\r\n" ∧ 0 < n then
    let next := rio.readlineb maxbuf
    let rest := headerLoop next.2.2 (next.2.1.getD buf) next.1 (contentLength length (cstring buf))
    (cstring buf :: rest.1, rest.2)
  else ([], length, rio)
termination_by 2 * rio.stream.length + min n 1
decreasing_by
  have less := rio.readlineb_less (show 1 < maxbuf by decide)
  omega

/-- The loop over the body. -/
def bodyLoop (rio : Rio) (remaining : Int) : List Bytes × Rio :=
  if 0 < remaining then
    let next := rio.readnb (min remaining maxbuf).toNat
    if next.1 = [] then ([], next.2)
    else
      let rest := bodyLoop next.2 (remaining - next.1.length)
      (next.1 :: rest.1, rest.2)
  else ([], rio)
termination_by remaining.toNat
decreasing_by
  have : 0 < (rio.readnb (min remaining maxbuf).toNat).1.length := List.length_pos_of_ne_nil ‹_›
  omega

/-- `print_response`. `buf` is what the array holds before. -/
def printResponse (buf : Bytes) (incoming : List Piece) : Printed × Rio :=
  let first := (Rio.readinitb incoming).readlineb maxbuf
  let header := headerLoop first.2.2 (first.2.1.getD buf) first.1 0
  let body := bodyLoop header.2.2 header.2.1
  (⟨header.1, header.2.1, body.1⟩, body.2)

/-! ## The body -/

variable {rio : Rio} {body rest buf : Bytes} {headers : List Bytes} {line : Bytes}

/-- **The body loop takes the next bytes of the stream**, as many as it was told to or as there are. -/
theorem bodyLoop_spec (rio : Rio) (remaining : Int) :
    (bodyLoop rio remaining).1.flatten = rio.stream.take remaining.toNat ∧
    (bodyLoop rio remaining).2.stream = rio.stream.drop remaining.toNat := by
  induction rio, remaining using bodyLoop.induct with
  | case1 rio remaining more next nothing =>
    rw [bodyLoop, if_pos more]
    simp only [next] at nothing
    simp only [nothing, if_true]
    obtain ⟨got, after⟩ := rio.readnb_spec (min remaining maxbuf).toNat
    rw [nothing] at got
    have wanted : (min remaining maxbuf).toNat ≠ 0 := by
      have : 0 < maxbuf := by decide
      omega
    have done : rio.stream = [] := (List.take_eq_nil_iff.mp got.symm).resolve_left wanted
    rw [done, List.drop_nil] at after
    simp [done, after]
  | case2 rio remaining more next something ih =>
    rw [bodyLoop, if_pos more]
    simp only [next] at something ih
    simp only [something, if_false, List.flatten_cons]
    obtain ⟨got, after⟩ := rio.readnb_spec (min remaining maxbuf).toNat
    rw [ih.1, ih.2, after, got]
    by_cases enough : (min remaining maxbuf).toNat ≤ rio.stream.length
    · have left : remaining.toNat = (min remaining maxbuf).toNat +
          (remaining - (rio.stream.take (min remaining maxbuf).toNat).length).toNat := by
        rw [List.length_take_of_le enough]
        omega
      constructor
      · conv_rhs => rw [left, List.take_add]
      · conv_rhs => rw [left, ← List.drop_drop]
    · -- the file ends within this read
      have all : rio.stream.length ≤ (min remaining maxbuf).toNat := by omega
      have beyond : rio.stream.length ≤ remaining.toNat := by omega
      rw [List.take_of_length_le all, List.drop_eq_nil_of_le all, List.take_of_length_le beyond,
        List.drop_eq_nil_of_le beyond]
      simp
  | case3 rio remaining stop =>
    rw [bodyLoop, if_neg stop]
    have none : remaining.toNat = 0 := by omega
    simp [none]

/-! ## The header -/

theorem HeaderLine.ne_blank (header : HeaderLine line) : line ≠ lit "\r\n" := by
  obtain ⟨text, rfl, -, other⟩ := header.ends
  intro e
  exact other (List.append_inj_left' (e.trans (show lit "\r\n" = [13] ++ [10] from rfl)) rfl)

/-- A header line, or the blank one, is read at once. -/
theorem readlineb_line {text : Bytes} (no : 10 ∉ text) (short : text.length + 1 < maxbuf)
    (sent : rio.stream = text ++ [10] ++ rest) :
    0 < (rio.readlineb maxbuf).1 ∧ (rio.readlineb maxbuf).2.1 = some (text ++ [10]) ∧
    (rio.readlineb maxbuf).2.2.stream = rest := by
  have more : rio.stream ≠ [] := by simp [sent]
  obtain ⟨positive, stored, after⟩ := Rio.readlineb_spec maxbuf more
  have next : Rio.nextLine (maxbuf - 1) rio.stream = text ++ [10] := by
    rw [sent, List.append_assoc]
    exact Rio.nextLine_line no (by omega) rest
  rw [next] at stored after
  refine ⟨positive, stored, ?_⟩
  rw [after, sent, List.drop_left]

theorem headerLoop_stop (n : Nat) (length : Int) (rio : Rio) : headerLoop rio (lit "\r\n") n length = ([], length, rio) := by
  unfold headerLoop
  apply if_neg
  exact fun running => running.1 rfl

theorem headerLoop_line (header : HeaderLine line) {n : Nat} (positive : 0 < n) (length : Int) :
    headerLoop rio line n length =
      (line :: (headerLoop (rio.readlineb maxbuf).2.2 ((rio.readlineb maxbuf).2.1.getD line) (rio.readlineb maxbuf).1
          (contentLength length line)).1,
        (headerLoop (rio.readlineb maxbuf).2.2 ((rio.readlineb maxbuf).2.1.getD line) (rio.readlineb maxbuf).1
          (contentLength length line)).2) := by
  have whole := cstring_eq header.noNul
  have running : cstring line ≠ lit "\r\n" ∧ 0 < n := ⟨whole.symm ▸ header.ne_blank, positive⟩
  rw [headerLoop, if_pos running]
  simp only [whole]

/-- **The header loop stops at the blank line**, with everything before it printed. -/
theorem headerLoop_spec (buf : Bytes) (lines : ∀ header ∈ headers, HeaderLine header) (length : Int)
    (sent : rio.stream = headers.flatten ++ lit "\r\n" ++ rest) :
    ∃ after : Rio, headerLoop (rio.readlineb maxbuf).2.2 ((rio.readlineb maxbuf).2.1.getD buf) (rio.readlineb maxbuf).1
        length = (headers, headers.foldl contentLength length, after) ∧ after.stream = rest := by
  induction headers generalizing rio buf length with
  | nil =>
    obtain ⟨-, stored, after⟩ := readlineb_line (show 10 ∉ [13] by decide) (by decide) sent
    rw [stored]
    exact ⟨_, headerLoop_stop _ _ _, after⟩
  | cons header headers ih =>
    have line := lines header List.mem_cons_self
    obtain ⟨text, eq, no, -⟩ := line.ends
    have short := line.short
    rw [List.flatten_cons, List.append_assoc, List.append_assoc, eq] at sent
    rw [eq, List.length_append, List.length_singleton] at short
    obtain ⟨positive, stored, after⟩ := readlineb_line no (by unfold maxbuf; omega) sent
    rw [← List.append_assoc] at after
    obtain ⟨last, rest', done⟩ := ih header (fun h mem => lines h (List.mem_cons_of_mem _ mem))
      (contentLength length header) after
    rw [stored, ← eq, Option.getD_some, headerLoop_line line positive, rest']
    exact ⟨last, rfl, done⟩

/-- **A framed response is read back.** -/
theorem printResponse_framed (lines : ∀ header ∈ headers, HeaderLine header)
    (announced : headers.foldl contentLength 0 = body.length) {incoming : List Piece}
    (sent : (incoming.map Piece.bytes).flatten = headers.flatten ++ lit "\r\n" ++ body ++ rest) :
    (printResponse buf incoming).1.headers = headers ∧ (printResponse buf incoming).1.length = body.length ∧
    (printResponse buf incoming).1.body.flatten = body ∧ (printResponse buf incoming).2.stream = rest := by
  rw [List.append_assoc] at sent
  obtain ⟨after, header, left⟩ := headerLoop_spec buf lines 0 ((Rio.stream_readinitb incoming).trans sent)
  rw [announced] at header
  obtain ⟨taken, unread⟩ := bodyLoop_spec after body.length
  rw [left, Int.toNat_natCast] at taken unread
  unfold printResponse
  simp only [header, true_and]
  rw [taken, unread, List.take_left, List.drop_left]
  simp

/-! ## The server's responses -/

/-- A header line of another name. -/
theorem contentLength_other (lab : String) (value : Bytes) (length : Int)
    (differ : ¬(lit lab).map toLower <+: (lit "Content-Length: ").map toLower ∧
      ¬(lit "Content-Length: ").map toLower <+: (lit lab).map toLower) :
    contentLength length (lit lab ++ value) = length := by
  unfold contentLength
  apply if_neg
  intro same
  have eq : ((lit lab ++ value).take 16).map toLower = (lit "Content-Length: ").map toLower := eq_of_beq same
  have pre : (lit "Content-Length: ").map toLower <+: (lit lab).map toLower ++ value.map toLower := by
    rw [← eq, ← List.map_append]
    exact (List.take_prefix 16 _).map toLower
  rcases List.prefix_or_prefix_of_prefix pre (List.prefix_append ((lit lab).map toLower) (value.map toLower)) with
    short | long
  · exact differ.2 short
  · exact differ.1 long

theorem printd_head (n : Nat) : ∃ d ds, printd n = d :: ds ∧ isDigit d = true := by
  have shown : printd n = digits n := if_neg (by omega)
  cases eq : digits n with
  | nil => exact absurd (List.map_eq_nil_iff.mp eq) Nat.toDigits_ne_nil
  | cons d ds => exact ⟨d, ds, shown.trans eq, mem_digits (eq ▸ List.mem_cons_self)⟩

/-- A length is read back. -/
theorem contentLength_line {length : Nat} (small : length < 2 ^ 31) (before : Int) :
    contentLength before (countLine "Content-Length: " length) = length := by
  have stop : ∀ b ∈ (lit "\r\n").head?, isDigit b = false := by
    intro b head
    obtain rfl := Option.some_inj.mp head
    rfl
  have name : (countLine "Content-Length: " length).take 16 = lit "Content-Length: " := rfl
  have number : (countLine "Content-Length: " length).drop 16 = printd length ++ lit "\r\n" := rfl
  obtain ⟨d, ds, shown, digit⟩ := printd_head length
  have noSpace : (printd length ++ lit "\r\n").dropWhile isSpace = printd length ++ lit "\r\n" := by
    rw [shown, List.cons_append, List.dropWhile_cons_of_neg]
    exact fun space => digit_not_space digit space
  have noSign : (printd length ++ lit "\r\n").head? ≠ some 43 := by
    rw [shown]
    intro sign
    obtain rfl := Option.some_inj.mp sign
    exact absurd digit (by decide)
  unfold contentLength atoi
  rw [name, number, if_pos (by decide)]
  simp only [noSpace, if_neg noSign, readInt_printd _ stop]
  rw [Log.int32_of_lt (by omega) (by omega)]
  omega

theorem statLines_contentLength (ts : ThreadsStats) (tm : TimeStats) (length : Int) :
    (statLines ts tm).foldl contentLength length = length := by
  simp only [statLines, timeLine, countLine, List.foldl_cons, List.foldl_nil]
  rw [contentLength_other _ _ _ (by decide), contentLength_other _ _ _ (by decide), contentLength_other _ _ _ (by decide),
    contentLength_other _ _ _ (by decide), contentLength_other _ _ _ (by decide), contentLength_other _ _ _ (by decide),
    contentLength_other _ _ _ (by decide), contentLength_other _ _ _ (by decide), contentLength_other _ _ _ (by decide)]

/-- The status line and the server's name. -/
theorem okHeaders_contentLength (length : Int) :
    contentLength (contentLength length (lit "HTTP/1.0 200 OK\r\n")) (lit "Server: OS-HW3 Web Server\r\n") = length := by
  have status := contentLength_other "HTTP/1.0 200 OK\r\n" [] length (by decide)
  have server := contentLength_other "Server: OS-HW3 Web Server\r\n" [] length (by decide)
  rw [List.append_nil] at status server
  rw [status, server]

/-- The response is these header lines, a blank line and this body, and a client that finds it
at the start of the stream, in whatever pieces, prints the lines, takes the length for
that of the body and reads the body and no more. -/
structure Frames (headers : List Bytes) (body response : Bytes) : Prop where
  text : response = headers.flatten ++ lit "\r\n" ++ body
  lines : ∀ line ∈ headers, HeaderLine line
  client : ∀ (buf rest : Bytes) (incoming : List Piece), (incoming.map Piece.bytes).flatten = response ++ rest →
    (printResponse buf incoming).1.headers = headers ∧ (printResponse buf incoming).1.length = body.length ∧
    (printResponse buf incoming).1.body.flatten = body ∧ (printResponse buf incoming).2.stream = rest

variable {ts : ThreadsStats} {tm : TimeStats} {response : Bytes}

/-- Header lines of a response, followed by the statistics. -/
theorem Frames.of_stats (counters : ts.Fits) (times : tm.Fits)
    (text : response = (headers ++ statLines ts tm).flatten ++ lit "\r\n" ++ body)
    (lines : ∀ line ∈ headers, HeaderLine line) (announced : headers.foldl contentLength 0 = body.length) :
    Frames (headers ++ statLines ts tm) body response := by
  have all : ∀ line ∈ headers ++ statLines ts tm, HeaderLine line :=
    List.forall_mem_append.mpr ⟨lines, statLines_headerLine counters times⟩
  have length : (headers ++ statLines ts tm).foldl contentLength 0 = body.length := by
    rw [List.foldl_append, announced, statLines_contentLength]
  refine ⟨text, all, fun buf rest incoming sent => ?_⟩
  rw [text] at sent
  exact printResponse_framed all length sent

/-- **The client recovers the body** of every response with a `Content-Length`. -/
theorem printResponse_recovers (counters : ts.Fits) (times : tm.Fits) :
    (∀ filename content : Bytes, content.length < 2 ^ 31 →
      Frames (staticHeaders filename content.length ++ statLines ts tm) content
        (serveStatic filename content.length content ts tm)) ∧
    (∀ c : Bytes, (postBody c).length < 2 ^ 31 →
      Frames (postHeaders (postBody c).length ++ statLines ts tm) (postBody c) (servePost c.length (c ++ [0]) ts tm)) ∧
    ∀ errnum shortmsg longmsg, (errnum, shortmsg, longmsg) ∈ errorKinds → ∀ cause : Bytes,
      Frames (errorHeaders errnum shortmsg (errorBody cause errnum shortmsg longmsg).length ++ statLines ts tm)
        (errorBody cause errnum shortmsg longmsg) (sendError cause errnum shortmsg longmsg ts tm) := by
  refine ⟨fun filename content small => ?_, fun c small => ?_, fun errnum shortmsg longmsg kind cause => ?_⟩
  · have size := isInt_length small
    apply Frames.of_stats counters times (serveStatic_eq size filename content) (staticHeaders_headerLine size filename)
    simp only [staticHeaders, List.foldl_cons, List.foldl_nil]
    rw [okHeaders_contentLength, contentLength_line small, List.append_assoc, contentLength_other _ _ _ (by decide)]
  · have size := isInt_length small
    have type := contentLength_other "Content-Type: text/plain\r\n" [] (postBody c).length (by decide)
    rw [List.append_nil] at type
    apply Frames.of_stats counters times (servePost_eq size) (postHeaders_headerLine size)
    simp only [postHeaders, List.foldl_cons, List.foldl_nil]
    rw [okHeaders_contentLength, contentLength_line small, type]
  · have small : (errorBody cause errnum shortmsg longmsg).length < 2 ^ 31 :=
      (errorBody_length_lt cause errnum shortmsg longmsg).trans (by decide)
    apply Frames.of_stats counters times (sendError_eq kind cause) (errorHeaders_headerLine kind (isInt_length small))
    simp only [errorHeaders, List.foldl_cons, List.foldl_nil]
    exact contentLength_line small _

theorem printResponse_recovers_hello :
    Frames (staticHeaders (lit "./public/home.html") 5 ++ statLines firstStats firstTimes) (lit "hello")
      (serveStatic (lit "./public/home.html") 5 (lit "hello") firstStats firstTimes) :=
  (printResponse_recovers first_fits.1 first_fits.2.2).1 (lit "./public/home.html") (lit "hello") (by decide)

end OsProjects.Server
