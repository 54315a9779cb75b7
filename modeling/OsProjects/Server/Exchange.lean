import OsProjects.Server.Client
import OsProjects.Server.Writes

/-!
# A client and the server

One connection from the client's arguments to what the client prints. The request that
`main` of `client.c` formats is the one that `handle_request` finds, and the response
that a worker writes is the one that `print_response` takes apart, however
the bytes are cut on their way.
-/

namespace OsProjects.Server

open CText

/-! ## The server's writes -/

/-- The calls of `Rio_writen` in `send_error`. -/
def sendErrorWrites (cause : Bytes) (errnum shortmsg longmsg : String) (ts : ThreadsStats) (tm : TimeStats) : List Bytes :=
  let body := errorBody cause errnum shortmsg longmsg
  let hdr := snprintf maxbuf
    (lit "HTTP/1.0 " ++ lit errnum ++ lit " " ++ lit shortmsg ++
      lit "\r\nContent-Type: text/html\r\nContent-Length: " ++ printd body.length ++ lit "\r\n")
  [hdr, appendStats [] ts tm, body]

/-- The calls of `Rio_writen` in `serve_static`. -/
def serveStaticWrites (filename : Bytes) (filesize : Int) (content : Bytes) (ts : ThreadsStats) (tm : TimeStats) : List Bytes :=
  let hdr := snprintf maxbuf
    (lit "HTTP/1.0 200 OK\r\nServer: OS-HW3 Web Server\r\nContent-Length: " ++ printd filesize ++
      lit "\r\nContent-Type: " ++ getFiletype filename ++ lit "\r\n")
  [hdr, appendStats [] ts tm, content]

/-- The calls of `Rio_writen` in `serve_dynamic`, and then what the program writes. -/
def serveDynamicWrites (output : Bytes) (ts : ThreadsStats) (tm : TimeStats) : List Bytes :=
  [lit "HTTP/1.0 200 OK\r\nServer: OS-HW3 Web Server\r\n", appendStats [] ts tm, output]

/-- The calls of `Rio_writen` in `serve_post`. -/
def servePostWrites (logLen : Int) (logBuf : Bytes) (ts : ThreadsStats) (tm : TimeStats) : List Bytes :=
  let fallback := lit "Log is not implemented.\n"
  let body := if logLen = 0 then fallback else logBuf
  let logLen := if logLen = 0 then (fallback.length : Int) else logLen
  let hdr := snprintf maxbuf
    (lit "HTTP/1.0 200 OK\r\nServer: OS-HW3 Web Server\r\nContent-Length: " ++ printd logLen ++
      lit "\r\nContent-Type: text/plain\r\n")
  [hdr, appendStats [] ts tm, body.take logLen.toNat]

/-- The writes of `handle_request` from its first branch on. -/
def writes (w : Surroundings) (ts : ThreadsStats) (tm : TimeStats) : Action → List Bytes
  | .error cause errnum shortmsg longmsg => sendErrorWrites cause errnum shortmsg longmsg ts tm
  | .post =>
    let ts := { ts with postReq := increment ts.postReq }
    let tm := { tm with logEnter := w.enter, logExit := w.exit }
    servePostWrites w.log.length (w.log ++ [0]) ts tm
  | .dynamic filename cgiargs =>
    let ts := { ts with dynmReq := increment ts.dynmReq }
    let tm := { tm with logEnter := w.enter, logExit := w.exit }
    serveDynamicWrites (w.output filename cgiargs) ts tm
  | .static filename size =>
    let ts := { ts with statReq := increment ts.statReq }
    let tm := { tm with logEnter := w.enter, logExit := w.exit }
    serveStaticWrites filename (Log.int32 size) (w.content filename (Log.int32 size)) ts tm

variable {w : Surroundings} {ts : ThreadsStats} {tm : TimeStats}

/-- The arguments of the client, but for the port. -/
structure ClientArgs where
  hostname : Bytes
  filename : Bytes
  method : Bytes

namespace ClientArgs

/-- The first two lines of a request, without their newlines. -/
def requestLine (args : ClientArgs) : Bytes := args.method ++ (lit " /" ++ (args.filename ++ lit " HTTP/1.1\r"))
def hostLine (args : ClientArgs) : Bytes := lit "host: " ++ (args.hostname ++ lit "\r")

/-- `req` in `main` of the client. -/
def req (args : ClientArgs) : Bytes := snprintf maxbuf
  (args.method ++ lit " /" ++ args.filename ++ lit " HTTP/1.1\r\nhost: " ++ args.hostname ++ lit "\r\n\r\n")

/-- A method and a filename of one word, a host on one line, and a request that fits. -/
structure Valid (args : ClientArgs) : Prop where
  nonempty : args.method ≠ []
  method : ∀ b ∈ args.method, isSpace b = false ∧ b ≠ 0
  filename : ∀ b ∈ args.filename, isSpace b = false ∧ b ≠ 0
  hostname : ∀ b ∈ args.hostname, b ≠ 10 ∧ b ≠ 0
  short : args.method.length + args.filename.length + args.hostname.length + 23 < maxbuf

variable {args : ClientArgs}

/-- A request is three lines. -/
theorem Valid.req_eq (valid : args.Valid) : args.req = args.requestLine ++ 10 :: (args.hostLine ++ 10 :: lit "\r\n") := by
  have short := valid.short
  unfold req
  rw [snprintf_eq]
  · have first : lit " HTTP/1.1\r\nhost: " = lit " HTTP/1.1\r" ++ 10 :: lit "host: " := by decide
    have last : lit "\r\n\r\n" = lit "\r" ++ 10 :: lit "\r\n" := by decide
    rw [first, last]
    simp only [requestLine, hostLine, List.append_assoc, List.cons_append]
  · have lengths : (lit " /").length = 2 ∧ (lit " HTTP/1.1\r\nhost: ").length = 17 ∧ (lit "\r\n\r\n").length = 4 := by decide
    simp only [List.length_append]
    omega

theorem Valid.requestLine_clean (valid : args.Valid) : 10 ∉ args.requestLine ∧ 0 ∉ args.requestLine := by
  have newline : isSpace 10 = true := by decide
  unfold requestLine
  simp only [List.mem_append]
  refine ⟨?_, ?_⟩
  · rintro (mem | mem | mem | mem)
    · exact Bool.false_ne_true ((valid.method 10 mem).1.symm.trans newline)
    · exact absurd mem (by decide)
    · exact Bool.false_ne_true ((valid.filename 10 mem).1.symm.trans newline)
    · exact absurd mem (by decide)
  · rintro (mem | mem | mem | mem)
    · exact (valid.method 0 mem).2 rfl
    · exact absurd mem (by decide)
    · exact (valid.filename 0 mem).2 rfl
    · exact absurd mem (by decide)

theorem Valid.hostLine_clean (valid : args.Valid) : 10 ∉ args.hostLine ∧ 0 ∉ args.hostLine := by
  unfold hostLine
  simp only [List.mem_append]
  refine ⟨?_, ?_⟩
  · rintro (mem | mem | mem)
    · exact absurd mem (by decide)
    · exact (valid.hostname 10 mem).1 rfl
    · exact absurd mem (by decide)
  · rintro (mem | mem | mem)
    · exact absurd mem (by decide)
    · exact (valid.hostname 0 mem).2 rfl
    · exact absurd mem (by decide)

/-- **`sscanf` finds the client's words.** -/
theorem Valid.scanRequest_eq (valid : args.Valid) (method uri version : Bytes) :
    scanRequest (args.requestLine ++ [10]) method uri version = (args.method, 47 :: args.filename, lit "HTTP/1.1") := by
  have slash : ∀ b ∈ 47 :: args.filename, isSpace b = false := by
    intro b mem
    rcases List.mem_cons.mp mem with rfl | mem
    · rfl
    · exact (valid.filename b mem).1
  have text : args.requestLine ++ [10] =
      [] ++ args.method ++ (lit " " ++ 47 :: args.filename ++ (lit " " ++ lit "HTTP/1.1" ++ lit "\r\n")) := by
    have first : lit " /" = lit " " ++ [47] := by decide
    have last : lit " HTTP/1.1\r" ++ [10] = lit " " ++ lit "HTTP/1.1" ++ lit "\r\n" := by decide
    unfold requestLine
    rw [← last, first]
    simp only [List.nil_append, List.append_assoc, List.cons_append]
  have blank : ∀ b ∈ lit " ", isSpace b = true := by decide +kernel
  have one : scanWord ([] ++ args.method ++ (lit " " ++ 47 :: args.filename ++ (lit " " ++ lit "HTTP/1.1" ++ lit "\r\n"))) =
      some (args.method, lit " " ++ 47 :: args.filename ++ (lit " " ++ lit "HTTP/1.1" ++ lit "\r\n")) := by
    apply scanWord_word
    · exact fun _ mem => absurd mem List.not_mem_nil
    · exact valid.nonempty
    · exact fun b mem => (valid.method b mem).1
    · exact fun b head => blank b (List.mem_singleton.mpr (Option.some_inj.mp head).symm)
  have two : scanWord (lit " " ++ 47 :: args.filename ++ (lit " " ++ lit "HTTP/1.1" ++ lit "\r\n")) =
      some (47 :: args.filename, lit " " ++ lit "HTTP/1.1" ++ lit "\r\n") := by
    apply scanWord_word blank (List.cons_ne_nil _ _) slash
    exact fun b head => blank b (List.mem_singleton.mpr (Option.some_inj.mp head).symm)
  have three : scanWord (lit " " ++ lit "HTTP/1.1" ++ lit "\r\n") = some (lit "HTTP/1.1", lit "\r\n") := by decide
  unfold scanRequest
  rw [text, one]
  dsimp only
  rw [two]
  dsimp only
  rw [three]

end ClientArgs

/-! ## The server reads the request -/

/-- A line that fits is read whole. -/
theorem readlineb_text {rio : Rio} {text rest : Bytes} (no : 10 ∉ text) (short : text.length + 1 < maxline)
    (sent : rio.stream = text ++ 10 :: rest) :
    0 < (rio.readlineb maxline).1 ∧ (rio.readlineb maxline).2.1 = some (text ++ [10]) ∧
    (rio.readlineb maxline).2.2.stream = rest := by
  have more : rio.stream ≠ [] := by simp [sent]
  obtain ⟨positive, stored, after⟩ := Rio.readlineb_spec maxline more
  have next : Rio.nextLine (maxline - 1) rio.stream = text ++ [10] := by
    rw [sent]
    exact Rio.nextLine_line no (by omega) rest
  rw [next] at stored after
  refine ⟨positive, stored, ?_⟩
  have line : text ++ 10 :: rest = text ++ [10] ++ rest := List.append_cons text 10 rest
  rw [after, sent, line, List.drop_left]

/-- The loop that drains the headers goes over a line. -/
theorem drain_line {rio : Rio} {buf text rest : Bytes} (running : cstring buf ≠ lit "\r\n" ∧ cstring buf ≠ []) (no : 10 ∉ text)
    (short : text.length + 1 < maxline) (sent : rio.stream = text ++ 10 :: rest) :
    ∃ next : Rio, next.stream = rest ∧ drain rio buf = drain next (text ++ [10]) := by
  obtain ⟨positive, stored, after⟩ := readlineb_text no short sent
  refine ⟨_, after, ?_⟩
  rw [drain, if_pos running]
  simp only [if_neg (Nat.ne_of_gt positive), stored, Option.getD_some]

theorem cstring_line {text : Bytes} (clean : 0 ∉ text) : cstring (text ++ [10]) = text ++ [10] := by
  apply cstring_eq
  intro mem
  rcases List.mem_append.mp mem with mem | mem
  · exact clean mem
  · exact absurd mem (by decide)

/-- **The server understands the client**, and reads the request to its end. -/
theorem handleRequest_client {args : ClientArgs} (valid : args.Valid) {incoming : List Piece}
    (arrived : (incoming.map Piece.bytes).flatten = args.req) (w : Surroundings) (ts : ThreadsStats) (tm : TimeStats) :
    ∃ unread : Rio, unread.stream = [] ∧ ∀ method uri version, handleRequest w method uri version incoming ts tm =
      some (perform w ts.counted tm.dispatched (route args.method (47 :: args.filename) w.stat), unread) := by
  have sent : (Rio.readinitb incoming).stream = args.requestLine ++ 10 :: (args.hostLine ++ 10 :: lit "\r\n") := by
    rw [Rio.stream_readinitb, arrived, valid.req_eq]
  have lengths : args.requestLine.length + 1 < maxline ∧ args.hostLine.length + 1 < maxline := by
    have short := valid.short
    have literals : (lit " /").length = 2 ∧ (lit " HTTP/1.1\r").length = 10 ∧ (lit "host: ").length = 6 ∧ (lit "\r").length = 1 := by
      decide
    unfold maxbuf at short
    simp only [ClientArgs.requestLine, ClientArgs.hostLine, List.length_append, maxline]
    omega
  obtain ⟨requestNo, requestClean⟩ := valid.requestLine_clean
  obtain ⟨hostNo, hostClean⟩ := valid.hostLine_clean
  obtain ⟨-, stored, after⟩ := readlineb_text requestNo lengths.1 sent
  have whole := cstring_line requestClean
  -- neither line is blank
  have request : cstring (args.requestLine ++ [10]) ≠ lit "\r\n" ∧ cstring (args.requestLine ++ [10]) ≠ [] := by
    rw [whole]
    refine ⟨fun blank => ?_, fun nothing => absurd (List.append_eq_nil_iff.mp nothing).2 (List.cons_ne_nil _ _)⟩
    have length := congrArg List.length blank
    have literals : (lit " /").length = 2 ∧ (lit "\r\n").length = 2 := by decide
    simp only [ClientArgs.requestLine, List.length_append, List.length_singleton] at length
    omega
  have host : cstring (args.hostLine ++ [10]) ≠ lit "\r\n" ∧ cstring (args.hostLine ++ [10]) ≠ [] := by
    rw [cstring_line hostClean]
    exact ⟨fun blank => absurd (List.cons.inj blank).1 (by decide), List.cons_ne_nil _ _⟩
  obtain ⟨second, left, drained⟩ := drain_line request hostNo lengths.2 after
  have blank : lit "\r\n" = [13] ++ 10 :: [] := by decide
  obtain ⟨third, left', drained'⟩ := drain_line host (show 10 ∉ [13] by decide) (by decide) (left.trans blank)
  have stops : drain third ([13] ++ [10]) = third := by
    rw [drain, if_neg]
    exact fun running => running.1 rfl
  refine ⟨third, left', fun method uri version => ?_⟩
  unfold handleRequest
  simp only [stored]
  rw [whole, valid.scanRequest_eq, drained, drained', stops]

/-! ## The client reads the response -/

end OsProjects.Server
