import OsProjects.Server.Dispatch
import OsProjects.Server.Handler
import OsProjects.Server.Responses
import OsProjects.Server.Rio

/-!
# One request

`handle_request` from the first byte of the connection to the last byte of the response,
for one worker and with what it meets given: the file system, the programs, the log and the
clock. `sscanf` assigns as many of its arrays as the line has words, and nobody
looks at how many these were.
-/

namespace OsProjects.Server

open CText

/-- What a request meets: the answers of `stat`, the bytes `serve_static` reads from a file of a
size, what a program writes with its arguments, the log, and the times at which the log is
entered and left. -/
structure Surroundings where
  stat : Bytes → Option FileStat
  content : Bytes → Int → Bytes
  output : Bytes → Bytes → Bytes
  log : Bytes
  enter : Timeval
  exit : Timeval

/-- What a request has done: the counters, the entry in the log, and the response. -/
structure Outcome where
  stats : ThreadsStats
  entry : Option Bytes
  response : Bytes

/-- The times while the log has not been entered. -/
def TimeStats.dispatched (tm : TimeStats) : TimeStats := { tm with logEnter := tm.taskDispatch, logExit := tm.taskDispatch }

/-- Every request counts. -/
def ThreadsStats.counted (ts : ThreadsStats) : ThreadsStats := { ts with totalReq := increment ts.totalReq }

/-- `handle_request` from its first branch on. `st_size` becomes an `int`. -/
def perform (w : Surroundings) (ts : ThreadsStats) (tm : TimeStats) : Action → Outcome
  | .error cause errnum shortmsg longmsg => ⟨ts, none, sendError cause errnum shortmsg longmsg ts tm⟩
  | .post =>
    let ts := { ts with postReq := increment ts.postReq }
    let tm := { tm with logEnter := w.enter, logExit := w.exit }
    ⟨ts, none, servePost w.log.length (w.log ++ [0]) ts tm⟩
  | .dynamic filename cgiargs =>
    let ts := { ts with dynmReq := increment ts.dynmReq }
    let entry := appendStats [] ts tm
    let tm := { tm with logEnter := w.enter, logExit := w.exit }
    ⟨ts, some entry, serveDynamic (w.output filename cgiargs) ts tm⟩
  | .static filename size =>
    let ts := { ts with statReq := increment ts.statReq }
    let entry := appendStats [] ts tm
    let tm := { tm with logEnter := w.enter, logExit := w.exit }
    ⟨ts, some entry, serveStatic filename (Log.int32 size) (w.content filename (Log.int32 size)) ts tm⟩

/-- The loop that drains the headers. -/
def drain (rio : Rio) (buf : Bytes) : Rio :=
  if cstring buf ≠ lit "\r\n" ∧ cstring buf ≠ [] then
    let next := rio.readlineb maxline
    if next.1 = 0 then next.2.2 else drain next.2.2 (next.2.1.getD buf)
  else rio
termination_by rio.stream.length
decreasing_by exact rio.readlineb_lt (by decide) ‹_›

/-- `handle_request`, with what the three arrays hold before. The result is the outcome and the
connection, or nothing where there is no first line. -/
def handleRequest (w : Surroundings) (method uri version : Bytes) (incoming : List Piece) (ts : ThreadsStats)
    (tm : TimeStats) : Option (Outcome × Rio) :=
  let first := (Rio.readinitb incoming).readlineb maxline
  match first.2.1 with
  | none => none
  | some buf =>
    let words := scanRequest (cstring buf) method uri version
    some (perform w ts.counted tm.dispatched (route words.1 words.2.1 w.stat), drain first.2.2 buf)

/-! ## Uninitialised arrays -/

/-- The first line of a connection, as a string. -/
def firstLine (incoming : List Piece) : Bytes := cstring (Rio.nextLine (maxline - 1) (incoming.map Piece.bytes).flatten)

/-- The line assigns every string that a branch looks at: a method, and a URI where there is a `GET`. -/
def AssignsEnough (line : Bytes) : Prop :=
  ∃ method rest, scanWord line = some (method, rest) ∧
    (sameIgnoringCase method (lit "GET") = true → (scanWord rest).isSome = true)

/-- Whatever the arrays hold before, the request does the same. -/
def SameForAllArrays (w : Surroundings) (incoming : List Piece) (ts : ThreadsStats) (tm : TimeStats) : Prop :=
  ∀ method uri version method' uri' version',
    handleRequest w method uri version incoming ts tm = handleRequest w method' uri' version' incoming ts tm

variable {w : Surroundings} {incoming : List Piece} {ts : ThreadsStats} {tm : TimeStats}
  {line method method' uri uri' rest : Bytes}

/-- A request with a first line. -/
theorem handleRequest_eq (received : (incoming.map Piece.bytes).flatten ≠ []) (w : Surroundings) (ts : ThreadsStats)
    (tm : TimeStats) : ∃ unread, ∀ method uri version,
    handleRequest w method uri version incoming ts tm =
      some (perform w ts.counted tm.dispatched
        (route (scanRequest (firstLine incoming) method uri version).1
          (scanRequest (firstLine incoming) method uri version).2.1 w.stat), unread) := by
  have more : (Rio.readinitb incoming).stream ≠ [] := received
  obtain ⟨-, stored, -⟩ := Rio.readlineb_spec maxline more
  refine ⟨drain ((Rio.readinitb incoming).readlineb maxline).2.2 (Rio.nextLine (maxline - 1) (Rio.readinitb incoming).stream),
    fun method uri version => ?_⟩
  unfold handleRequest
  simp only [stored]
  rfl

/-- What a method that is not `GET` leads to does not depend on the URI. -/
theorem route_other (other : sameIgnoringCase method (lit "GET") = false) (uri uri' : Bytes)
    (stat : Bytes → Option FileStat) : route method uri stat = route method uri' stat := by
  unfold route
  rw [other]
  cases sameIgnoringCase method (lit "POST") <;> rfl

/-- A line that assigns enough leads to one action. -/
theorem AssignsEnough.route_eq (enough : AssignsEnough line) (stat : Bytes → Option FileStat)
    (method uri version method' uri' version' : Bytes) :
    route (scanRequest line method uri version).1 (scanRequest line method uri version).2.1 stat =
      route (scanRequest line method' uri' version').1 (scanRequest line method' uri' version').2.1 stat := by
  obtain ⟨word, rest, first, asks⟩ := enough
  unfold scanRequest
  rw [first]
  dsimp only
  cases second : scanWord rest with
  | none =>
    apply route_other
    rw [Bool.eq_false_iff]
    intro get
    have found := asks get
    rw [second] at found
    exact nomatch found
  | some found =>
    dsimp only
    split <;> rfl

/-! ### Telling two runs apart -/

theorem increment_ne (x : Int) : increment x ≠ x := by
  unfold increment Log.int32
  intro same
  have residue := Int.bmod_emod (x := x + 1) (m := 2 ^ 32)
  rw [same] at residue
  omega

/-- Without a word the method is whatever was there: here `POST` or nothing. -/
theorem differs_of_noWord (received : (incoming.map Piece.bytes).flatten ≠ []) (none : scanWord (firstLine incoming) = none)
    (w : Surroundings) (ts : ThreadsStats) (tm : TimeStats) :
    handleRequest w (lit "POST") [] [] incoming ts tm ≠ handleRequest w [] [] [] incoming ts tm := by
  obtain ⟨unread, eq⟩ := handleRequest_eq received w ts tm
  rw [eq, eq]
  unfold scanRequest
  rw [none]
  intro same
  have stats := congrArg (fun r => r.1.stats.postReq) (Option.some_inj.mp same)
  exact increment_ne _ stats

/-- Two error responses of one worker are only the same if they say the same. -/
theorem sendError_inj {cause cause' : Bytes} {errnum shortmsg longmsg errnum' shortmsg' longmsg' : String}
    (kind : (errnum, shortmsg, longmsg) ∈ errorKinds) (kind' : (errnum', shortmsg', longmsg') ∈ errorKinds)
    (length : (errorHeaders errnum shortmsg (errorBody cause errnum shortmsg longmsg).length).flatten.length =
      (errorHeaders errnum' shortmsg' (errorBody cause' errnum' shortmsg' longmsg').length).flatten.length)
    (same : sendError cause errnum shortmsg longmsg ts tm = sendError cause' errnum' shortmsg' longmsg' ts tm) :
    (errorHeaders errnum shortmsg (errorBody cause errnum shortmsg longmsg).length).flatten =
      (errorHeaders errnum' shortmsg' (errorBody cause' errnum' shortmsg' longmsg').length).flatten ∧
    errorBody cause errnum shortmsg longmsg = errorBody cause' errnum' shortmsg' longmsg' := by
  rw [sendError_eq kind, sendError_eq kind'] at same
  simp only [List.flatten_append, List.append_assoc] at same
  obtain ⟨headers, rest⟩ := List.append_inj same length
  exact ⟨headers, List.append_cancel_left (List.append_cancel_left rest)⟩

/-- The file `a` and the program `aaaa.cgi` get different answers in every file system. -/
theorem perform_differs (get : sameIgnoringCase method (lit "GET") = true) :
    perform w ts tm (route method (lit "a") w.stat) ≠ perform w ts tm (route method (lit "aaaa.cgi") w.stat) := by
  have file : staticFile (lit "a") = lit "./publica" := rfl
  have program : dynamicFile (lit "aaaa.cgi") = lit ".aaaa.cgi" := rfl
  have lengths : ∀ kind ∈ errorKinds.tail, ∀ kind' ∈ errorKinds.tail,
      (errorHeaders kind.1 kind.2.1 (errorBody (lit "./publica") kind.1 kind.2.1 kind.2.2).length).flatten.length =
        (errorHeaders kind'.1 kind'.2.1 (errorBody (lit ".aaaa.cgi") kind'.1 kind'.2.1 kind'.2.2).length).flatten.length := by
    decide +kernel
  have bodies : ∀ kind ∈ errorKinds.tail, ∀ kind' ∈ errorKinds.tail,
      errorBody (lit "./publica") kind.1 kind.2.1 kind.2.2 ≠ errorBody (lit ".aaaa.cgi") kind'.1 kind'.2.1 kind'.2.2 := by
    decide +kernel
  have errors : ∀ kind ∈ errorKinds.tail, ∀ kind' ∈ errorKinds.tail,
      sendError (lit "./publica") kind.1 kind.2.1 kind.2.2 ts tm ≠
        sendError (lit ".aaaa.cgi") kind'.1 kind'.2.1 kind'.2.2 ts tm := by
    intro kind mem kind' mem' same
    have same' := sendError_inj (List.mem_of_mem_tail mem) (List.mem_of_mem_tail mem') (lengths kind mem kind' mem') same
    exact bodies kind mem kind' mem' same'.2
  -- Refusals leave the counters alone, and what is served counts in one of two counters.
  intro same
  rcases route_file get (show isDynamic (lit "a") = false by decide) w.stat with ⟨_, _, _, mem, refused⟩ | ⟨size, served⟩
  · rcases route_program get (show isDynamic (lit "aaaa.cgi") = true by decide) w.stat with ⟨_, _, _, mem', refused'⟩ | runs
    · rw [refused, refused', file, program] at same
      exact errors _ mem _ mem' (congrArg Outcome.response same)
    · rw [refused, runs] at same
      exact increment_ne _ (congrArg (fun o => o.stats.dynmReq) same).symm
  · rw [served] at same
    have counted := congrArg (fun o => o.stats.statReq) same
    rcases route_program get (show isDynamic (lit "aaaa.cgi") = true by decide) w.stat with ⟨_, _, _, -, refused⟩ | runs
    · rw [refused] at counted
      exact increment_ne _ counted
    · rw [runs] at counted
      exact increment_ne _ counted

/-- After a lone `GET` the URI is whatever was there. -/
theorem differs_of_noUri (received : (incoming.map Piece.bytes).flatten ≠ [])
    (first : scanWord (firstLine incoming) = some (method, rest)) (get : sameIgnoringCase method (lit "GET") = true)
    (none : scanWord rest = none) (w : Surroundings) (ts : ThreadsStats) (tm : TimeStats) :
    handleRequest w [] (lit "a") [] incoming ts tm ≠ handleRequest w [] (lit "aaaa.cgi") [] incoming ts tm := by
  obtain ⟨unread, eq⟩ := handleRequest_eq received w ts tm
  have words : ∀ uri, scanRequest (firstLine incoming) [] uri [] = (method, uri, []) := by
    intro uri
    unfold scanRequest
    rw [first]
    dsimp only
    rw [none]
  rw [eq, eq, words, words]
  intro same
  exact perform_differs get (congrArg Prod.fst (Option.some_inj.mp same))

/-- **When a request does not depend on the arrays.** Exactly when its line assigns enough of them. -/
theorem sameForAllArrays_iff (received : (incoming.map Piece.bytes).flatten ≠ []) (w : Surroundings) (ts : ThreadsStats)
    (tm : TimeStats) : SameForAllArrays w incoming ts tm ↔ AssignsEnough (firstLine incoming) := by
  constructor
  · intro all
    cases first : scanWord (firstLine incoming) with
    | none => exact absurd (all _ _ _ _ _ _) (differs_of_noWord received first w ts tm)
    | some found =>
      obtain ⟨method, rest⟩ := found
      refine ⟨method, rest, first, fun get => ?_⟩
      cases second : scanWord rest with
      | none => exact absurd (all _ _ _ _ _ _) (differs_of_noUri received first get second w ts tm)
      | some found => rfl
  · intro enough method uri version method' uri' version'
    obtain ⟨unread, eq⟩ := handleRequest_eq received w ts tm
    rw [eq, eq, enough.route_eq w.stat method uri version method' uri' version']

/-- No files, and an empty log. -/
def emptySurroundings : Surroundings := ⟨fun _ => none, fun _ _ => [], fun _ _ => [], [], ⟨7, 0⟩, ⟨7, 0⟩⟩

/-- A request for the home page. -/
def homeRequest : List Piece := [⟨lit "GET / HTTP/1.0\r\n\r\n", by decide, by decide⟩]

theorem sameForAllArrays_home : SameForAllArrays emptySurroundings homeRequest firstStats firstTimes := by
  have enough : AssignsEnough (firstLine homeRequest) := ⟨_, _, rfl, fun _ => rfl⟩
  exact (sameForAllArrays_iff (by decide) _ _ _).mpr enough

/-- **An uninitialised array decides** what a blank line asks for. -/
theorem blank_line_uninitialised : ¬∀ w incoming ts tm, (incoming.map Piece.bytes).flatten ≠ [] →
    SameForAllArrays w incoming ts tm := by
  intro claim
  have blank : scanWord (firstLine [⟨lit "\r\n", by decide, by decide⟩]) = none := rfl
  apply differs_of_noWord (by decide) blank emptySurroundings firstStats firstTimes
  exact claim _ _ _ _ (by decide) _ _ _ _ _ _

end OsProjects.Server
