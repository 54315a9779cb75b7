import OsProjects.Server.Exchange

/-!
# The CGI program

`output.c`, and how its argument gets to it: from the client's command line through the URI and
`QUERY_STRING`. It sleeps as long as it is told, and what it prints is the end
of the response.
-/

namespace OsProjects.Server

open CText

/-- `strstr`: the string from the first occurrence on. -/
def strstrFrom (text part : Bytes) : Option Bytes := text.tails.find? part.isPrefixOf

/-- `secs` in `output.c`, with the value of `QUERY_STRING`. -/
def outputSecs : Option Bytes → Int
  | none => 0
  | some qs =>
    match strstrFrom qs (lit "sleep=") with
    | none => 0
    | some p => atoi (p.drop 6)

/-- `main` of `output.c`: the seconds it sleeps, and what it prints. -/
def outputMain (queryString : Option Bytes) : Nat × Bytes :=
  let secs := outputSecs queryString
  (if 0 < secs then secs.toNat else 0,
    lit "Content-Type: text/html\r\n\r\n" ++ lit "<html><body><h1>CGI Output</h1>" ++
      (lit "<p>Slept " ++ printd secs ++ lit " seconds.</p></body></html>\r\n"))

/-! ## Numbers and words -/

/-- **`atoi` reads what `%d` writes.** -/
theorem atoi_printd {x : Int} (int : IsInt x) {rest : Bytes} (stop : ∀ b ∈ rest.head?, isDigit b = false) :
    atoi (printd x ++ rest) = x := by
  obtain ⟨low, high⟩ := int
  have first : ∃ d ds, printd x = d :: ds ∧ isSpace d = false ∧ d ≠ 43 := by
    by_cases negative : x < 0
    · exact ⟨45, digits x.natAbs, if_pos negative, by decide, by decide⟩
    · obtain ⟨n, rfl⟩ := Int.eq_ofNat_of_zero_le (not_lt.mp negative)
      obtain ⟨d, ds, shown, digit⟩ := printd_head n
      refine ⟨d, ds, shown, Bool.eq_false_iff.mpr (digit_not_space digit), ?_⟩
      rintro rfl
      exact absurd digit (by decide)
  obtain ⟨d, ds, shown, noSpace, noSign⟩ := first
  have start : (printd x ++ rest).dropWhile isSpace = printd x ++ rest := by
    rw [shown, List.cons_append, List.dropWhile_cons_of_neg]
    exact Bool.eq_false_iff.mp noSpace
  have sign : (printd x ++ rest).head? ≠ some 43 := by
    rw [shown]
    exact fun head => noSign (Option.some_inj.mp head)
  unfold atoi
  simp only [start, if_neg sign, readInt_printd x stop]
  unfold Log.int32
  rw [Int.bmod_eq_of_le_mul_two] <;> omega

/-- The first occurrence. -/
theorem strstrFrom_first {pre part rest : Bytes} (first : ∀ k < pre.length, ¬part <+: (pre ++ (part ++ rest)).drop k) :
    strstrFrom (pre ++ (part ++ rest)) part = some (part ++ rest) := by
  unfold strstrFrom
  induction pre with
  | nil =>
    have found : part.isPrefixOf (part ++ rest) = true := List.isPrefixOf_iff_prefix.mpr (List.prefix_append _ _)
    rw [List.nil_append]
    cases tail : part ++ rest with
    | nil =>
      rw [tail] at found
      simp [found]
    | cons b bs =>
      rw [tail] at found
      rw [List.tails_cons, List.find?_cons_of_pos found]
  | cons b pre ih =>
    have other : ¬part.isPrefixOf (b :: (pre ++ (part ++ rest))) = true := fun found =>
      first 0 (Nat.succ_pos _) (List.isPrefixOf_iff_prefix.mp found)
    rw [List.cons_append, List.tails_cons, List.find?_cons_of_neg other]
    apply ih
    intro k lt
    exact first (k + 1) (Nat.succ_lt_succ lt)

/-- A query that asks for a number of seconds, with anything before and behind it. -/
structure Sleeps (query : Bytes) (secs : Int) : Prop where
  int : IsInt secs
  text : ∃ pre rest, query = pre ++ (lit "sleep=" ++ (printd secs ++ rest)) ∧
    (∀ k < pre.length, ¬lit "sleep=" <+: query.drop k) ∧ ∀ b ∈ rest.head?, isDigit b = false

theorem Sleeps.outputSecs {query : Bytes} {secs : Int} (asks : Sleeps query secs) : outputSecs (some query) = secs := by
  obtain ⟨pre, rest, rfl, first, stop⟩ := asks.text
  have tail : (lit "sleep=" ++ (printd secs ++ rest)).drop 6 = printd secs ++ rest := rfl
  unfold Server.outputSecs
  simp only [strstrFrom_first first, tail]
  exact atoi_printd asks.int stop

/-! ## From the client to the program -/

variable {args : ClientArgs} {query : Bytes} {secs : Int} {w : Surroundings} {ts : ThreadsStats} {tm : TimeStats}
  {incoming : List Piece} {sbuf : FileStat}

/-- The query is what is behind the first `?`. -/
theorem uri_query (short : query.length + 12 < maxline) :
    isDynamic (lit "/output.cgi?" ++ query) = true ∧ dynamicFile (lit "/output.cgi?" ++ query) = lit "./output.cgi" ∧
    cgiArgs (lit "/output.cgi?" ++ query) = query := by
  have cut : lit "/output.cgi?" = lit "/output.cgi" ++ [63] := by decide
  have name : ∀ b ∈ lit "/output.cgi", (b != 63) = true := by decide +kernel
  refine ⟨?_, ?_, ?_⟩
  · unfold isDynamic strstr
    apply List.any_eq_true.mpr
    refine ⟨lit ".cgi?" ++ query, (List.mem_tails _ _).mpr ⟨lit "/output", ?_⟩, List.isPrefixOf_iff_prefix.mpr ⟨63 :: query, rfl⟩⟩
    rw [← List.append_assoc]
    rfl
  · have path : (lit "/output.cgi?" ++ query).takeWhile (· != 63) = lit "/output.cgi" := by
      rw [cut, List.append_assoc, List.takeWhile_append_of_pos name]
      exact List.append_nil _
    unfold dynamicFile
    rw [path]
    decide
  · have behind : (lit "/output.cgi?" ++ query).dropWhile (· != 63) = 63 :: query := by
      rw [cut, List.append_assoc, List.dropWhile_append_of_pos name]
      rfl
    unfold cgiArgs
    rw [behind]
    apply List.take_of_length_le
    change query.length ≤ maxline - 1
    omega

/-- **The client decides how long the program sleeps.** A client that asks for `output.cgi?…sleep=N…` makes the server run the
program with that query; it sleeps `N` seconds, if `N` is positive, and what it prints of `N` ends the response. -/
theorem cgi_sleeps (valid : args.Valid) (get : sameIgnoringCase args.method (lit "GET") = true)
    (file : args.filename = lit "output.cgi?" ++ query) (asks : Sleeps query secs)
    (known : w.stat (lit "./output.cgi") = some sbuf) (runs : sbuf.isReg = true ∧ sbuf.userExec = true)
    (program : w.output (lit "./output.cgi") query = (outputMain (some query)).2) (request : Arrives [args.req] incoming) :
    (outputMain (some query)).1 = secs.toNat ∧
    ∀ method uri version, ∃ outcome unread, handleRequest w method uri version incoming ts tm = some (outcome, unread) ∧
      unread.stream = [] ∧ outcome.stats.dynmReq = increment ts.dynmReq ∧
      ∃ header, outcome.response = header ++ (lit "<p>Slept " ++ printd secs ++ lit " seconds.</p></body></html>\r\n") := by
  have seconds := asks.outputSecs
  have arrived := request.bytes
  rw [List.flatten_singleton] at arrived
  have short : query.length + 12 < maxline := by
    have short := valid.short
    rw [file, List.length_append, show (lit "output.cgi?").length = 11 from rfl] at short
    unfold maxbuf at short
    unfold maxline
    omega
  have routed : route args.method (47 :: args.filename) w.stat = .dynamic (lit "./output.cgi") query := by
    obtain ⟨dynamic, name, arguments⟩ := uri_query short
    have uri : 47 :: args.filename = lit "/output.cgi?" ++ query := by
      rw [file]
      rfl
    rw [uri, route_dynamic get dynamic, name, arguments, known]
    simp [runs.1, runs.2]
  refine ⟨?_, fun method uri version => ?_⟩
  · unfold outputMain
    simp only [seconds]
    split_ifs <;> omega
  · obtain ⟨unread, done, served⟩ := handleRequest_client valid arrived w ts tm
    refine ⟨_, unread, served method uri version, done, ?_, ?_⟩
    · rw [routed]
      rfl
    · rw [routed]
      unfold perform
      simp only [program, serveDynamic, outputMain, seconds]
      exact ⟨_, (List.append_assoc _ _ _).symm.trans rfl⟩

/-- A server with nothing but the program. -/
def cgiSurroundings : Surroundings where
  stat filename := if filename = lit "./output.cgi" then some ⟨true, true, true, 16000⟩ else none
  content _ _ := []
  output _ cgiargs := (outputMain (some cgiargs)).2
  log := []
  enter := ⟨7, 0⟩
  exit := ⟨7, 0⟩

theorem cgi_sleeps_seven : (outputMain (some (lit "sleep=7"))).1 = 7 := by
  have valid : ClientArgs.Valid ⟨lit "a", lit "output.cgi?" ++ lit "sleep=7", lit "get"⟩ :=
    ⟨by decide, by decide +kernel, by decide +kernel, by decide +kernel, by decide⟩
  have asks : Sleeps (lit "sleep=7") 7 :=
    ⟨⟨by decide, by decide⟩, [], [], rfl, fun _ lt => absurd lt (Nat.not_lt_zero _), fun _ head => nomatch head⟩
  have request : Arrives [ClientArgs.req ⟨lit "a", lit "output.cgi?" ++ lit "sleep=7", lit "get"⟩]
      [⟨lit "get /output.cgi?sleep=7 HTTP/1.1\r\nhost: a\r\n\r\n", by decide, by decide⟩] :=
    arrives_of_bytes (by decide) ⟨[], 0, []⟩ (fun _ mem => absurd mem List.not_mem_nil) rfl
  have known : cgiSurroundings.stat (lit "./output.cgi") = some ⟨true, true, true, 16000⟩ := by
    simp [cgiSurroundings]
  have sleeps := @cgi_sleeps _ _ _ cgiSurroundings firstStats firstTimes _ _ valid (by decide) rfl asks known ⟨rfl, rfl⟩ rfl request
  exact sleeps.1

end OsProjects.Server
