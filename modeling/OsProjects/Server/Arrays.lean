import OsProjects.Server.HandleRequest

/-!
# The arrays of a request

Everything `handle_request` and the functions it calls do to their arrays, in the order of
the source: the strings stored, the bytes set, the characters looked at and the lengths
given to `Rio_writen`. Most of the calls do not know the size of the array, so each
store is safe by what an earlier one has left room for.
-/

namespace OsProjects.Server

open CText

/-- The arrays on the stack. -/
inductive LocalArray where
  | buf
  | method
  | uri
  | version
  | filename
  | cgiargs
  | entry
  | hdr
  | stats
  | body
  | filetype

/-- The size an array is declared with. -/
def LocalArray.size : LocalArray → Nat
  | .buf | .method | .uri | .version | .filename | .cgiargs | .filetype => maxline
  | .entry | .hdr | .stats | .body => maxbuf

/-- One use of an array. -/
inductive Access where
  /-- A string is in the array, with its terminator. -/
  | store (a : LocalArray) (text : Bytes)
  /-- The first `n` bytes are written. -/
  | fill (a : LocalArray) (n : Nat)
  /-- One byte is written. -/
  | set (a : LocalArray) (pos : Nat)
  /-- A character of the string in the array is used. -/
  | index (a : LocalArray) (text : Bytes) (pos : Int)
  /-- `n` bytes of what is stored go to `Rio_writen`. -/
  | writen (stored : Bytes) (n : Int)

def Access.Safe : Access → Prop
  | .store a text => text.length + 1 ≤ a.size
  | .fill a n => n ≤ a.size
  | .set a pos => pos < a.size
  | .index _ text pos => 0 ≤ pos ∧ pos < text.length
  | .writen stored n => 0 ≤ n ∧ n ≤ stored.length

/-- What an access sends. -/
def Access.sent : Access → Bytes
  | .writen stored n => stored.take n.toNat
  | _ => []

/-! ## The functions -/

/-- The texts `append_stats` prints, in turn. -/
def statTexts (ts : ThreadsStats) (tm : TimeStats) : List Bytes :=
  [timeLine "Stat-Req-Arrival:: " tm.taskArrival, timeLine "Stat-Req-Dispatch:: " tm.taskDispatch,
    timeLine "Stat-Log-Arrival:: " tm.logEnter, timeLine "Stat-Log-Dispatch:: " tm.logExit,
    countLine "Stat-Thread-Id:: " ts.id, countLine "Stat-Thread-Count:: " ts.totalReq,
    countLine "Stat-Thread-Static:: " ts.statReq, countLine "Stat-Thread-Dynamic:: " ts.dynmReq,
    countLine "Stat-Thread-Post:: " ts.postReq ++ lit "\r\n"]

/-- `append_stats` on an array with the empty string: a `sprintf` behind each other. -/
def appendStatsAccesses (a : LocalArray) (ts : ThreadsStats) (tm : TimeStats) : List Access :=
  (statTexts ts tm).inits.tail.map fun printed => .store a printed.flatten

/-- A header from `snprintf` and its `Rio_writen`. -/
def headerAccesses (text : Bytes) : List Access :=
  [.store .hdr (snprintf maxbuf text), .writen (snprintf maxbuf text) text.length]

/-- `stats` in the three functions that respond. -/
def statsAccesses (ts : ThreadsStats) (tm : TimeStats) : List Access :=
  .set .stats 0 :: appendStatsAccesses .stats ts tm ++
    [.writen (statTexts ts tm).flatten (statTexts ts tm).flatten.length]

/-- `send_error`. -/
def sendErrorAccesses (cause : Bytes) (errnum shortmsg longmsg : String) (ts : ThreadsStats) (tm : TimeStats) :
    List Access :=
  let body := errorBody cause errnum shortmsg longmsg
  .store .body body :: headerAccesses (errorHeaders errnum shortmsg body.length).flatten ++ statsAccesses ts tm ++
    [.writen body body.length]

/-- `serve_static`, but for the file. -/
def serveStaticAccesses (filename : Bytes) (filesize : Int) (ts : ThreadsStats) (tm : TimeStats) : List Access :=
  .store .filetype (getFiletype filename) :: headerAccesses (staticHeaders filename filesize).flatten ++
    statsAccesses ts tm

/-- `serve_dynamic`, but for the program. -/
def serveDynamicAccesses (ts : ThreadsStats) (tm : TimeStats) : List Access :=
  headerAccesses (lit "HTTP/1.0 200 OK\r\nServer: OS-HW3 Web Server\r\n") ++ statsAccesses ts tm

/-- `serve_post`, with the log `c` and its terminator in the buffer of `log_read`. -/
def servePostAccesses (c : Bytes) (ts : ThreadsStats) (tm : TimeStats) : List Access :=
  headerAccesses (postHeaders (postBody c).length).flatten ++ statsAccesses ts tm ++
    [.writen (if c = [] then lit "Log is not implemented.\n" else c ++ [0]) (postBody c).length]

/-- The arrays that `sscanf` assigns. -/
def sscanfAccesses (line : Bytes) : List Access :=
  match scanWord line with
  | none => []
  | some (method, rest) => .store .method method ::
    match scanWord rest with
    | none => []
    | some (uri, rest) => .store .uri uri ::
      match scanWord rest with
      | none => []
      | some (version, _) => [.store .version version]

/-- The loop that drains the headers. -/
def drainAccesses (rio : Rio) (buf : Bytes) : List Access :=
  if cstring buf ≠ lit "\r\n" ∧ cstring buf ≠ [] then
    let next := rio.readlineb maxline
    if next.1 = 0 then [] else .store .buf (next.2.1.getD buf) :: drainAccesses next.2.2 (next.2.1.getD buf)
  else []
termination_by rio.stream.length
decreasing_by exact rio.readlineb_lt (by decide) ‹_›

/-- The part of `handle_request` that makes a filename of a URI. -/
def uriAccesses (uri : Bytes) : List Access :=
  .set .cgiargs 0 ::
  if isDynamic uri then
    (if 63 ∈ uri then
      [.fill .cgiargs (maxline - 1), .set .cgiargs (maxline - 1), .index .uri uri (uriPath uri).length]
    else []) ++ [.store .filename (dynamicFile uri)]
  else
    [.store .filename (snprintf maxline (lit "./public" ++ uri)), .index .uri uri (uri.length - 1)] ++
      if uri.getLast? = some 47 then [.store .filename (staticFile uri)] else []

/-- `entry`. -/
def entryAccesses (ts : ThreadsStats) (tm : TimeStats) : List Access := .set .entry 0 :: appendStatsAccesses .entry ts tm

/-- `handle_request` from the counters on. -/
def performAccesses (w : Surroundings) (ts : ThreadsStats) (tm : TimeStats) : Action → List Access
  | .error cause errnum shortmsg longmsg => sendErrorAccesses cause errnum shortmsg longmsg ts tm
  | .post =>
    servePostAccesses w.log { ts with postReq := increment ts.postReq } { tm with logEnter := w.enter, logExit := w.exit }
  | .dynamic _ _ =>
    let ts := { ts with dynmReq := increment ts.dynmReq }
    entryAccesses ts tm ++ serveDynamicAccesses ts { tm with logEnter := w.enter, logExit := w.exit }
  | .static filename size =>
    let ts := { ts with statReq := increment ts.statReq }
    entryAccesses ts tm ++
      serveStaticAccesses filename (Log.int32 size) ts { tm with logEnter := w.enter, logExit := w.exit }

/-- `handle_request`. -/
def handleRequestAccesses (w : Surroundings) (method uri version : Bytes) (incoming : List Piece) (ts : ThreadsStats)
    (tm : TimeStats) : List Access :=
  let first := (Rio.readinitb incoming).readlineb maxline
  match first.2.1 with
  | none => []
  | some buf =>
    let words := scanRequest (cstring buf) method uri version
    .store .buf buf :: sscanfAccesses (cstring buf) ++ drainAccesses first.2.2 buf ++
      (if sameIgnoringCase words.1 (lit "GET") then uriAccesses words.2.1 else []) ++
      performAccesses w ts.counted tm.dispatched (route words.1 words.2.1 w.stat)

/-! ## Safety -/

variable {w : Surroundings} {ts : ThreadsStats} {tm : TimeStats} {a : LocalArray} {text uri line : Bytes}
  {incoming : List Piece}

theorem LocalArray.size_eq (a : LocalArray) : a.size = 8192 := by cases a <;> rfl

theorem flatten_length_le {lines : List Bytes} {n : Nat} (short : ∀ line ∈ lines, line.length ≤ n) :
    lines.flatten.length ≤ n * lines.length := by
  induction lines with
  | nil => exact Nat.zero_le _
  | cons line lines ih =>
    have first := short line List.mem_cons_self
    have others := ih fun line mem => short line (List.mem_cons_of_mem _ mem)
    rw [List.flatten_cons, List.length_append, List.length_cons, Nat.mul_succ]
    omega

/-- Header lines fit an array many times. -/
theorem headers_length_lt {lines : List Bytes} (headers : ∀ line ∈ lines, HeaderLine line) (few : lines.length ≤ 10) :
    lines.flatten.length ≤ 1280 := by
  have le := flatten_length_le fun line mem => (headers line mem).short
  omega

theorem statTexts_flatten (ts : ThreadsStats) (tm : TimeStats) : (statTexts ts tm).flatten = appendStats [] ts tm := by
  simp only [appendStats, statTexts, List.flatten_cons, List.flatten_nil, List.nil_append, List.append_nil]

theorem appendStats_length_le (counters : ts.Fits) (times : tm.Fits) : (appendStats [] ts tm).length ≤ 1282 := by
  have le := headers_length_lt (statLines_headerLine counters times) (show 9 ≤ 10 by decide)
  rw [appendStats_eq, List.length_append, show (lit "\r\n").length = 2 from rfl]
  omega

/-- **`append_stats` stays inside its array.** -/
theorem appendStatsAccesses_safe (counters : ts.Fits) (times : tm.Fits) (a : LocalArray) :
    ∀ access ∈ appendStatsAccesses a ts tm, access.Safe := by
  intro access mem
  obtain ⟨printed, init, rfl⟩ := List.mem_map.mp mem
  obtain ⟨rest, eq⟩ := (List.mem_inits _ _).mp (List.mem_of_mem_tail init)
  have total := appendStats_length_le counters times
  rw [← statTexts_flatten, ← eq, List.flatten_append, List.length_append] at total
  change printed.flatten.length + 1 ≤ a.size
  rw [a.size_eq]
  omega

theorem headerAccesses_safe (short : text.length ≤ 1280) : ∀ access ∈ headerAccesses text, access.Safe := by
  have whole : snprintf maxbuf text = text := snprintf_eq (by unfold maxbuf; omega)
  have stored : text.length + 1 ≤ LocalArray.hdr.size := by
    rw [LocalArray.size_eq]
    omega
  unfold headerAccesses
  rw [whole]
  simp only [List.forall_mem_cons]
  exact ⟨stored, ⟨Int.natCast_nonneg _, le_refl _⟩, List.forall_mem_nil _⟩

theorem statsAccesses_safe (counters : ts.Fits) (times : tm.Fits) : ∀ access ∈ statsAccesses ts tm, access.Safe := by
  unfold statsAccesses
  simp only [List.cons_append, List.forall_mem_cons, List.forall_mem_append]
  refine ⟨show 0 < maxbuf by decide, appendStatsAccesses_safe counters times _, ⟨Int.natCast_nonneg _, le_refl _⟩, ?_⟩
  exact List.forall_mem_nil _

theorem entryAccesses_safe (counters : ts.Fits) (times : tm.Fits) : ∀ access ∈ entryAccesses ts tm, access.Safe :=
  List.forall_mem_cons.mpr ⟨show 0 < maxbuf by decide, appendStatsAccesses_safe counters times _⟩

theorem sendErrorAccesses_safe (counters : ts.Fits) (times : tm.Fits) {errnum shortmsg longmsg : String}
    (kind : (errnum, shortmsg, longmsg) ∈ errorKinds) (cause : Bytes) :
    ∀ access ∈ sendErrorAccesses cause errnum shortmsg longmsg ts tm, access.Safe := by
  have body := errorBody_length_lt cause errnum shortmsg longmsg
  have headers := errorHeaders_headerLine kind (isInt_length (body.trans (by decide)))
  unfold sendErrorAccesses
  simp only [List.cons_append, List.forall_mem_cons, List.forall_mem_append]
  refine ⟨body, ⟨?_, statsAccesses_safe counters times⟩, ⟨Int.natCast_nonneg _, le_refl _⟩, ?_⟩
  · exact headerAccesses_safe (headers_length_lt headers (show 3 ≤ 10 by decide))
  · exact List.forall_mem_nil _

theorem serveStaticAccesses_safe (counters : ts.Fits) (times : tm.Fits) {filesize : Int} (fits : IsInt filesize)
    (filename : Bytes) : ∀ access ∈ serveStaticAccesses filename filesize ts tm, access.Safe := by
  have type := getFiletype_length_le filename
  have headers := staticHeaders_headerLine fits filename
  unfold serveStaticAccesses
  simp only [List.cons_append, List.forall_mem_cons, List.forall_mem_append]
  refine ⟨?_, ?_, statsAccesses_safe counters times⟩
  · change (getFiletype filename).length + 1 ≤ LocalArray.filetype.size
    rw [LocalArray.size_eq]
    omega
  · exact headerAccesses_safe (headers_length_lt headers (show 4 ≤ 10 by decide))

theorem serveDynamicAccesses_safe (counters : ts.Fits) (times : tm.Fits) :
    ∀ access ∈ serveDynamicAccesses ts tm, access.Safe :=
  List.forall_mem_append.mpr ⟨headerAccesses_safe (by decide), statsAccesses_safe counters times⟩

theorem servePostAccesses_safe (counters : ts.Fits) (times : tm.Fits) {c : Bytes} (fits : IsInt (postBody c).length) :
    ∀ access ∈ servePostAccesses c ts tm, access.Safe := by
  have headers := postHeaders_headerLine fits
  unfold servePostAccesses
  simp only [List.forall_mem_append, List.forall_mem_cons]
  refine ⟨⟨?_, statsAccesses_safe counters times⟩, ⟨Int.natCast_nonneg _, ?_⟩, List.forall_mem_nil _⟩
  · exact headerAccesses_safe (headers_length_lt headers (show 4 ≤ 10 by decide))
  · unfold postBody
    split_ifs
    · exact le_refl _
    · rw [List.length_append, Nat.cast_add]
      omega

/-- A word that `sscanf` finds fits where the line fits. -/
theorem sscanfAccesses_safe (short : line.length < maxline) : ∀ access ∈ sscanfAccesses line, access.Safe := by
  have fits : ∀ {a : LocalArray} {word rest text : Bytes}, scanWord text = some (word, rest) → text.length < maxline →
      (Access.store a word).Safe ∧ rest.length < maxline := by
    intro a word rest text scan short
    have le := scanWord_length scan
    constructor
    · change word.length + 1 ≤ a.size
      rw [a.size_eq]
      unfold maxline at short
      omega
    · omega
  unfold sscanfAccesses
  cases first : scanWord line with
  | none => exact List.forall_mem_nil _
  | some found =>
    obtain ⟨method, rest⟩ := found
    obtain ⟨stored, short⟩ := fits first short
    refine List.forall_mem_cons.mpr ⟨stored, ?_⟩
    cases second : scanWord rest with
    | none => exact List.forall_mem_nil _
    | some found =>
      obtain ⟨uri, rest⟩ := found
      obtain ⟨stored, short⟩ := fits second short
      refine List.forall_mem_cons.mpr ⟨stored, ?_⟩
      cases third : scanWord rest with
      | none => exact List.forall_mem_nil _
      | some found => exact List.forall_mem_singleton.mpr (fits third short).1

/-- A line from `Rio_readlineb` fits `buf`. -/
theorem store_nextLine_safe (s : Bytes) : (Access.store .buf (Rio.nextLine (maxline - 1) s)).Safe := by
  have le := Rio.nextLine_length_le (maxline - 1) s
  change _ + 1 ≤ maxline
  have positive : 0 < maxline := by decide
  omega

theorem drainAccesses_safe (rio : Rio) (buf : Bytes) : ∀ access ∈ drainAccesses rio buf, access.Safe := by
  induction left : rio.stream.length using Nat.strong_induction_on generalizing rio buf with
  | h n ih =>
    subst left
    have room : 1 < maxline := by decide
    rw [drainAccesses]
    by_cases more : cstring buf ≠ lit "\r\n" ∧ cstring buf ≠ []
    · rw [if_pos more]
      dsimp only
      by_cases zero : (rio.readlineb maxline).1 = 0
      · rw [if_pos zero]
        exact List.forall_mem_nil _
      · have something : rio.stream ≠ [] := fun empty => zero (Rio.readlineb_end room empty).1
        obtain ⟨-, stored, -⟩ := Rio.readlineb_spec maxline something
        rw [if_neg zero, stored]
        exact List.forall_mem_cons.mpr ⟨store_nextLine_safe _, ih _ (rio.readlineb_lt room zero) _ _ rfl⟩
    · rw [if_neg more]
      exact List.forall_mem_nil _

theorem store_safe (short : text.length ≤ maxline - 1) : (Access.store a text).Safe := by
  change text.length + 1 ≤ a.size
  rw [a.size_eq]
  unfold maxline at short
  omega

/-- The place of the `?`. -/
theorem uriPath_length_lt (query : 63 ∈ uri) : (uriPath uri).length < uri.length := by
  apply lt_of_le_of_ne (uriPath_initial uri).length_le
  intro same
  have whole : uriPath uri = uri := (uriPath_initial uri).eq_of_length same
  have noQuery := List.takeWhile_eq_self_iff.mp whole 63 query
  exact absurd noQuery (by decide)

theorem staticFile_length_le (uri : Bytes) : (staticFile uri).length ≤ maxline - 1 := by
  have short : (snprintf maxline (lit "./public" ++ uri)).length ≤ maxline - 1 := List.length_take_le _ _
  have page : ((lit "home.html").take (maxline - (snprintf maxline (lit "./public" ++ uri)).length - 1)).length ≤
    maxline - (snprintf maxline (lit "./public" ++ uri)).length - 1 := List.length_take_le _ _
  unfold staticFile
  dsimp only
  split_ifs
  · rw [List.length_append]
    omega
  · exact short

/-- **The URI**: its last character, its `?` and the filename made of it. -/
theorem uriAccesses_safe (nonempty : uri ≠ []) : ∀ access ∈ uriAccesses uri, access.Safe := by
  have positive := List.length_pos_of_ne_nil nonempty
  have nil : ∀ access ∈ ([] : List Access), access.Safe := List.forall_mem_nil _
  unfold uriAccesses
  refine List.forall_mem_cons.mpr ⟨show 0 < maxline by decide, ?_⟩
  by_cases dynamic : isDynamic uri = true
  · rw [if_pos dynamic]
    refine List.forall_mem_append.mpr ⟨?_, List.forall_mem_singleton.mpr (store_safe (List.length_take_le _ _))⟩
    split_ifs with query
    · simp only [List.forall_mem_cons]
      have place := uriPath_length_lt query
      refine ⟨show maxline - 1 ≤ maxline by decide, show maxline - 1 < maxline by decide, ⟨?_, ?_⟩, nil⟩
      · exact Int.natCast_nonneg _
      · exact Int.ofNat_lt.mpr place
    · exact nil
  · rw [if_neg dynamic]
    refine List.forall_mem_append.mpr ⟨?_, ?_⟩
    · simp only [List.forall_mem_cons]
      refine ⟨store_safe (List.length_take_le _ _), ⟨?_, ?_⟩, nil⟩
      · omega
      · omega
    · split_ifs
      · exact List.forall_mem_singleton.mpr (store_safe (staticFile_length_le uri))
      · exact nil

/-! ## The whole request -/

theorem isInt_int32 (x : Int) : IsInt (Log.int32 x) := by
  have low : -((2 ^ 32 : Nat) / 2 : Int) ≤ Int.bmod x (2 ^ 32) := Int.le_bmod (by decide)
  have high : Int.bmod x (2 ^ 32) ≤ ((2 ^ 32 : Nat) - 1) / 2 := Int.bmod_le (by decide)
  unfold IsInt Log.int32
  omega

/-- What a request meets is in range: the length of the log is an `int`. -/
structure Surroundings.Fits (w : Surroundings) : Prop where
  log : (postBody w.log).length < 2 ^ 31
  enter : w.enter.Fits
  exit : w.exit.Fits

theorem performAccesses_safe (surroundings : w.Fits) (counters : ts.Fits) (times : tm.Fits) {method uri : Bytes} :
    ∀ access ∈ performAccesses w ts tm (route method uri w.stat), access.Safe := by
  have logged : TimeStats.Fits { tm with logEnter := w.enter, logExit := w.exit } :=
    ⟨times.taskArrival, times.taskDispatch, surroundings.enter, surroundings.exit⟩
  cases action : route method uri w.stat with
  | error cause errnum shortmsg longmsg => exact sendErrorAccesses_safe counters times (route_errorKinds action) cause
  | post =>
    have counted : ThreadsStats.Fits { ts with postReq := increment ts.postReq } :=
      { counters with postReq := isInt_int32 _ }
    exact servePostAccesses_safe counted logged (isInt_length surroundings.log)
  | dynamic filename cgiargs =>
    have counted : ThreadsStats.Fits { ts with dynmReq := increment ts.dynmReq } :=
      { counters with dynmReq := isInt_int32 _ }
    exact List.forall_mem_append.mpr ⟨entryAccesses_safe counted times, serveDynamicAccesses_safe counted logged⟩
  | static filename size =>
    have counted : ThreadsStats.Fits { ts with statReq := increment ts.statReq } :=
      { counters with statReq := isInt_int32 _ }
    exact List.forall_mem_append.mpr
      ⟨entryAccesses_safe counted times, serveStaticAccesses_safe counted logged (isInt_int32 size) filename⟩

/-- **No array is overrun** by a request whose first line has a method and a URI. -/
theorem handleRequestAccesses_safe (surroundings : w.Fits) (counters : ts.Fits) (times : tm.Fits)
    (asks : ∃ method uri, Asks (firstLine incoming) method uri) (method uri version : Bytes) :
    ∀ access ∈ handleRequestAccesses w method uri version incoming ts tm, access.Safe := by
  obtain ⟨asked, target, asks⟩ := asks
  have counted : ts.counted.Fits := { counters with totalReq := isInt_int32 _ }
  have dispatched : tm.dispatched.Fits := ⟨times.taskArrival, times.taskDispatch, times.taskDispatch, times.taskDispatch⟩
  by_cases received : (Rio.readinitb incoming).stream = []
  · obtain ⟨-, nothing, -⟩ := Rio.readlineb_end (show 1 < maxline by decide) received
    unfold handleRequestAccesses
    dsimp only
    rw [nothing]
    exact List.forall_mem_nil _
  · obtain ⟨-, stored, -⟩ := Rio.readlineb_spec maxline received
    obtain ⟨isMethod, isUri⟩ := asks.scan method uri version
    obtain ⟨rest, rest', -, second⟩ := asks.words
    obtain ⟨-, nonempty, -⟩ := scanWord_spec second
    unfold handleRequestAccesses
    dsimp only
    rw [stored]
    change ∀ access ∈ .store .buf _ :: sscanfAccesses (firstLine incoming) ++ drainAccesses _ _ ++
      (if sameIgnoringCase (scanRequest (firstLine incoming) method uri version).1 (lit "GET") then
        uriAccesses (scanRequest (firstLine incoming) method uri version).2.1 else []) ++
      performAccesses w ts.counted tm.dispatched (route (scanRequest (firstLine incoming) method uri version).1
        (scanRequest (firstLine incoming) method uri version).2.1 w.stat), access.Safe
    rw [isMethod, isUri]
    simp only [List.cons_append, List.forall_mem_cons, List.forall_mem_append]
    refine ⟨store_nextLine_safe _, ⟨⟨sscanfAccesses_safe asks.short, drainAccesses_safe _ _⟩, ?_⟩,
      performAccesses_safe surroundings counted dispatched⟩
    split_ifs
    · exact uriAccesses_safe nonempty
    · exact List.forall_mem_nil _

theorem handleRequestAccesses_safe_home : Asks (firstLine homeRequest) (lit "GET") (lit "/") ∧
    ∀ access ∈ handleRequestAccesses emptySurroundings [] [] [] homeRequest firstStats firstTimes, access.Safe := by
  obtain ⟨counters, time, times⟩ := first_fits
  have surroundings : emptySurroundings.Fits := ⟨by decide, time, time⟩
  have asks : Asks (firstLine homeRequest) (lit "GET") (lit "/") := ⟨by decide, _, _, rfl, rfl⟩
  exact ⟨asks, handleRequestAccesses_safe surroundings counters times ⟨_, _, asks⟩ [] [] []⟩

/-! ## What is sent -/

/-- What a list of accesses sends. -/
def sentBy (accesses : List Access) : Bytes := (accesses.map Access.sent).flatten

/-- What is sent behind the header and the statistics from elsewhere: a file, or a program's output. -/
def payload (w : Surroundings) : Action → Bytes
  | .dynamic filename cgiargs => w.output filename cgiargs
  | .static filename size => w.content filename (Log.int32 size)
  | _ => []

theorem sentBy_append (l l' : List Access) : sentBy (l ++ l') = sentBy l ++ sentBy l' := by
  unfold sentBy
  rw [List.map_append, List.flatten_append]

theorem sentBy_cons (access : Access) (l : List Access) : sentBy (access :: l) = access.sent ++ sentBy l := rfl

theorem sentBy_writen (stored : Bytes) : sentBy [.writen stored stored.length] = stored := by
  unfold sentBy Access.sent
  simp

theorem sentBy_appendStats (a : LocalArray) (ts : ThreadsStats) (tm : TimeStats) :
    sentBy (appendStatsAccesses a ts tm) = [] := by
  unfold sentBy appendStatsAccesses
  rw [List.map_map]
  apply List.flatten_eq_nil_iff.mpr
  intro l mem
  obtain ⟨printed, -, rfl⟩ := List.mem_map.mp mem
  rfl

theorem sentBy_header (short : text.length ≤ 1280) : sentBy (headerAccesses text) = text := by
  have whole : snprintf maxbuf text = text := snprintf_eq (by unfold maxbuf; omega)
  unfold headerAccesses
  rw [sentBy_cons, whole]
  exact sentBy_writen text

theorem sentBy_stats (ts : ThreadsStats) (tm : TimeStats) : sentBy (statsAccesses ts tm) = appendStats [] ts tm := by
  unfold statsAccesses
  rw [List.cons_append, sentBy_cons, sentBy_append, sentBy_appendStats, sentBy_writen, statTexts_flatten]
  rfl

theorem sentBy_entry (ts : ThreadsStats) (tm : TimeStats) : sentBy (entryAccesses ts tm) = [] := by
  unfold entryAccesses
  rw [sentBy_cons, sentBy_appendStats]
  rfl

/-- Header lines, statistics and a body. -/
theorem framed_eq (headers : List Bytes) (ts : ThreadsStats) (tm : TimeStats) (body : Bytes) :
    (headers ++ statLines ts tm).flatten ++ lit "\r\n" ++ body = headers.flatten ++ (appendStats [] ts tm ++ body) := by
  rw [List.flatten_append, appendStats_eq]
  simp only [List.append_assoc]

theorem sentBy_sendError {errnum shortmsg longmsg : String} (kind : (errnum, shortmsg, longmsg) ∈ errorKinds)
    (cause : Bytes) (ts : ThreadsStats) (tm : TimeStats) :
    sendError cause errnum shortmsg longmsg ts tm = sentBy (sendErrorAccesses cause errnum shortmsg longmsg ts tm) := by
  have body := errorBody_length_lt cause errnum shortmsg longmsg
  have headers := errorHeaders_headerLine kind (isInt_length (body.trans (by decide)))
  unfold sendErrorAccesses
  rw [sendError_eq kind, framed_eq]
  dsimp only
  rw [List.append_assoc, List.cons_append, sentBy_cons, sentBy_append, sentBy_append, sentBy_stats, sentBy_writen,
    sentBy_header (headers_length_lt headers (show 3 ≤ 10 by decide))]
  rfl

theorem sentBy_serveStatic {filesize : Int} (fits : IsInt filesize) (filename content : Bytes) (ts : ThreadsStats)
    (tm : TimeStats) : serveStatic filename filesize content ts tm =
      sentBy (serveStaticAccesses filename filesize ts tm) ++ content := by
  have headers := staticHeaders_headerLine fits filename
  unfold serveStaticAccesses
  rw [serveStatic_eq fits, framed_eq, List.cons_append, sentBy_cons, sentBy_append, sentBy_stats,
    sentBy_header (headers_length_lt headers (show 4 ≤ 10 by decide))]
  simp only [List.append_assoc]
  rfl

theorem sentBy_serveDynamic (output : Bytes) (ts : ThreadsStats) (tm : TimeStats) :
    serveDynamic output ts tm = sentBy (serveDynamicAccesses ts tm) ++ output := by
  unfold serveDynamicAccesses serveDynamic
  rw [sentBy_append, sentBy_stats, sentBy_header (by decide)]

theorem sentBy_servePost {c : Bytes} (fits : IsInt (postBody c).length) (ts : ThreadsStats) (tm : TimeStats) :
    servePost c.length (c ++ [0]) ts tm = sentBy (servePostAccesses c ts tm) := by
  have headers := postHeaders_headerLine fits
  have log : sentBy [.writen (if c = [] then lit "Log is not implemented.\n" else c ++ [0]) (postBody c).length] =
      postBody c := by
    unfold sentBy Access.sent postBody
    split_ifs <;> simp
  unfold servePostAccesses
  rw [servePost_eq fits, framed_eq, sentBy_append, sentBy_append, sentBy_stats, log,
    sentBy_header (headers_length_lt headers (show 4 ≤ 10 by decide)), List.append_assoc]

/-- **The accesses send the response**, up to the file or the program's output. -/
theorem sentBy_performAccesses (surroundings : w.Fits) (method uri : Bytes) :
    (perform w ts tm (route method uri w.stat)).response =
      sentBy (performAccesses w ts tm (route method uri w.stat)) ++ payload w (route method uri w.stat) := by
  cases action : route method uri w.stat with
  | error cause errnum shortmsg longmsg =>
    exact (sentBy_sendError (route_errorKinds action) cause ts tm).trans (List.append_nil _).symm
  | post => exact (sentBy_servePost (isInt_length surroundings.log) _ _).trans (List.append_nil _).symm
  | dynamic filename cgiargs =>
    unfold perform performAccesses
    dsimp only
    rw [sentBy_append, sentBy_entry, List.nil_append]
    exact sentBy_serveDynamic _ _ _
  | static filename size =>
    unfold perform performAccesses
    dsimp only
    rw [sentBy_append, sentBy_entry, List.nil_append]
    exact sentBy_serveStatic (isInt_int32 size) filename _ _ _

end OsProjects.Server
