import OsProjects.Lib.CText
import OsProjects.Server.Queue

/-!
# Requests and responses

`request.c` without its input and output: the texts it writes, and what it does with a
request line. `route` is the decision `handle_request` takes; the counters it updates and
the log it writes are the business of `Handler`.
-/

namespace OsProjects.Server

open CText

/-- `MAXLINE`. -/
def maxline : Nat := 8192

/-- `MAXBUF`. -/
def maxbuf : Nat := 8192

/-- `time_stats`. -/
structure TimeStats where
  taskArrival : Timeval
  taskDispatch : Timeval
  logEnter : Timeval
  logExit : Timeval

/-- `threads_stats`. -/
structure ThreadsStats where
  id : Int
  totalReq : Int
  statReq : Int
  dynmReq : Int
  postReq : Int

/-! ## Texts -/

def timeLine (label : String) (t : Timeval) : Bytes :=
  lit label ++ (printd t.sec ++ lit "." ++ printd06 t.usec ++ lit "\r\n")

def countLine (label : String) (x : Int) : Bytes := lit label ++ (printd x ++ lit "\r\n")

/-- `append_stats`: the string in `buf` afterwards. Its length is what the function returns. -/
def appendStats (buf : Bytes) (ts : ThreadsStats) (tm : TimeStats) : Bytes :=
  buf ++ (timeLine "Stat-Req-Arrival:: " tm.taskArrival ++
    (timeLine "Stat-Req-Dispatch:: " tm.taskDispatch ++
    (timeLine "Stat-Log-Arrival:: " tm.logEnter ++
    (timeLine "Stat-Log-Dispatch:: " tm.logExit ++
    (countLine "Stat-Thread-Id:: " ts.id ++
    (countLine "Stat-Thread-Count:: " ts.totalReq ++
    (countLine "Stat-Thread-Static:: " ts.statReq ++
    (countLine "Stat-Thread-Dynamic:: " ts.dynmReq ++
    (countLine "Stat-Thread-Post:: " ts.postReq ++ lit "\r\n")))))))))

/-- `get_filetype`. -/
def getFiletype (filename : Bytes) : Bytes :=
  if strstr filename (lit ".html") then lit "text/html"
  else if strstr filename (lit ".gif") then lit "image/gif"
  else if strstr filename (lit ".jpg") then lit "image/jpeg"
  else if strstr filename (lit ".png") then lit "image/png"
  else lit "text/plain"

/-- `send_error`: the bytes written to the connection. -/
def sendError (cause : Bytes) (errnum shortmsg longmsg : String) (ts : ThreadsStats) (tm : TimeStats) : Bytes :=
  let body := snprintf maxbuf
    (lit "<html><title>OS-HW3 Error</title><body bgcolor=\"ffffff\">\r\n" ++
      lit errnum ++ lit ": " ++ lit shortmsg ++ lit "\r\n<p>" ++ lit longmsg ++ lit ": " ++ cause ++
      lit "\r\n<hr>OS-HW3 Web Server\r\n")
  let hdr := snprintf maxbuf
    (lit "HTTP/1.0 " ++ lit errnum ++ lit " " ++ lit shortmsg ++
      lit "\r\nContent-Type: text/html\r\nContent-Length: " ++ printd body.length ++ lit "\r\n")
  hdr ++ appendStats [] ts tm ++ body

/-- `serve_static`, with the bytes read from the file. -/
def serveStatic (filename : Bytes) (filesize : Int) (content : Bytes) (ts : ThreadsStats) (tm : TimeStats) : Bytes :=
  snprintf maxbuf
    (lit "HTTP/1.0 200 OK\r\nServer: OS-HW3 Web Server\r\nContent-Length: " ++ printd filesize ++
      lit "\r\nContent-Type: " ++ getFiletype filename ++ lit "\r\n") ++
    appendStats [] ts tm ++ content

/-- `serve_dynamic`, with what the program wrote to the connection. -/
def serveDynamic (output : Bytes) (ts : ThreadsStats) (tm : TimeStats) : Bytes :=
  lit "HTTP/1.0 200 OK\r\nServer: OS-HW3 Web Server\r\n" ++ appendStats [] ts tm ++ output

/-- `serve_post`, with what `log_read` returned. -/
def servePost (logLen : Int) (logBuf : Bytes) (ts : ThreadsStats) (tm : TimeStats) : Bytes :=
  let fallback := lit "Log is not implemented.\n"
  let body := if logLen = 0 then fallback else logBuf
  let logLen := if logLen = 0 then (fallback.length : Int) else logLen
  snprintf maxbuf
    (lit "HTTP/1.0 200 OK\r\nServer: OS-HW3 Web Server\r\nContent-Length: " ++ printd logLen ++
      lit "\r\nContent-Type: text/plain\r\n") ++
    appendStats [] ts tm ++ body.take logLen.toNat

/-! ## The request line -/

/-- `sscanf(buf, "%s %s %s", method, uri, version)`. It stops at the first word that is
missing, and the arrays it has not assigned keep what they held. -/
def scanRequest (buf : Bytes) (method uri version : Bytes) : Bytes × Bytes × Bytes :=
  match scanWord buf with
  | none => (method, uri, version)
  | some (method, rest) =>
    match scanWord rest with
    | none => (method, uri, version)
    | some (uri, rest) =>
      match scanWord rest with
      | none => (method, uri, version)
      | some (version, _) => (method, uri, version)

/-- What `handle_request` asks `stat` for. -/
structure FileStat where
  isReg : Bool
  userRead : Bool
  userExec : Bool
  size : Int

/-- What `handle_request` does with a request. -/
inductive Action where
  | error (cause : Bytes) (errnum shortmsg longmsg : String)
  | post
  | dynamic (filename cgiargs : Bytes)
  | static (filename : Bytes) (size : Int)

def isDynamic (uri : Bytes) : Bool := strstr uri (lit ".cgi")

/-- The file of a dynamic request: the URI is cut at the first `?`. -/
def dynamicFile (uri : Bytes) : Bytes := snprintf maxline (lit "." ++ uri.takeWhile (· != 63))

def cgiArgs (uri : Bytes) : Bytes := ((uri.dropWhile (· != 63)).drop 1).take (maxline - 1)

/-- The file of a static request: a URI that ends with a slash gets `home.html`, as far as it fits. -/
def staticFile (uri : Bytes) : Bytes :=
  let filename := snprintf maxline (lit "./public" ++ uri)
  if uri.getLast? = some 47 then filename ++ (lit "home.html").take (maxline - filename.length - 1) else filename

/-- `handle_request` after the request line, up to the counters. -/
def route (method uri : Bytes) (stat : Bytes → Option FileStat) : Action :=
  if !sameIgnoringCase method (lit "GET") && !sameIgnoringCase method (lit "POST") then
    .error method "501" "Not Implemented" "OS-HW3 Server does not implement this method"
  else if sameIgnoringCase method (lit "POST") then .post
  else
    let filename := if isDynamic uri then dynamicFile uri else staticFile uri
    match stat filename with
    | none => .error filename "404" "Not found" "OS-HW3 Server could not find this file"
    | some sbuf =>
      if isDynamic uri then
        if !sbuf.isReg || !sbuf.userExec then
          .error filename "403" "Forbidden" "OS-HW3 Server could not run the CGI program"
        else .dynamic filename (cgiArgs uri)
      else if !sbuf.isReg || !sbuf.userRead then
        .error filename "403" "Forbidden" "OS-HW3 Server could not read the file"
      else .static filename sbuf.size

/-! ## Reading the statistics back -/

/-- The number that a text shows behind a label. -/
def shownCount (label : String) (text : Bytes) : Option Int := (labelled label text).map readInt

/-- The time that a text shows behind a label. -/
def shownTime (label : String) (text : Bytes) : Option Timeval :=
  (labelled label text).map fun value => ⟨readInt value, readInt ((value.dropWhile (· != 46)).drop 1)⟩

section Lines

variable {label lab : String} {rest : Bytes}

/-- The value of a `timeLine`. -/
def timeValue (t : Timeval) : Bytes := printd t.sec ++ 46 :: (printd06 t.usec ++ [13])

theorem timeLine_append (t : Timeval) : timeLine lab t ++ rest = lit lab ++ timeValue t ++ 10 :: rest := by
  unfold timeLine timeValue
  rw [show lit "." = [46] from rfl, show lit "\r\n" = [13, 10] from rfl]
  simp only [List.append_assoc, List.cons_append, List.nil_append]

theorem countLine_append (x : Int) : countLine lab x ++ rest = lit lab ++ (printd x ++ [13]) ++ 10 :: rest := by
  unfold countLine
  rw [show lit "\r\n" = [13, 10] from rfl]
  simp only [List.append_assoc, List.cons_append, List.nil_append]

/-- The values hold no control character but their `\r`. -/
theorem timeValue_no_control {t : Timeval} {b : UInt8} (mem : b ∈ timeValue t) : 45 ≤ b ∨ b = 13 := by
  rcases List.mem_append.mp mem with mem | mem
  · exact .inl (mem_printd mem)
  · rcases List.mem_cons.mp mem with rfl | mem
    · exact .inl (by decide)
    · rcases List.mem_append.mp mem with mem | mem
      · exact .inl (mem_printd06 mem)
      · exact .inr (List.mem_singleton.mp mem)

theorem countValue_no_control {x : Int} {b : UInt8} (mem : b ∈ printd x ++ [13]) : 45 ≤ b ∨ b = 13 := by
  rcases List.mem_append.mp mem with mem | mem
  · exact .inl (mem_printd mem)
  · exact .inr (List.mem_singleton.mp mem)

theorem notMem_line {value : Bytes} {c : UInt8} (control : c < 13) (plain : c ∉ lit lab)
    (clean : ∀ b ∈ value, 45 ≤ b ∨ b = 13) : c ∉ lit lab ++ value := by
  intro mem
  rcases List.mem_append.mp mem with mem | mem
  · exact plain mem
  · have low := UInt8.lt_iff_toNat_lt.mp control
    rcases clean c mem with high | rfl
    · have := UInt8.le_iff_toNat_le.mp high
      change 45 ≤ c.toNat at this
      change c.toNat < 13 at low
      omega
    · exact absurd control (by decide)

theorem labelled_timeLine (plain : 10 ∉ lit label) (t : Timeval) :
    labelled label (timeLine label t ++ rest) = some (timeValue t) := by
  rw [timeLine_append]
  exact labelled_line (notMem_line (by decide) plain fun _ => timeValue_no_control)

theorem labelled_countLine (plain : 10 ∉ lit label) (x : Int) :
    labelled label (countLine label x ++ rest) = some (printd x ++ [13]) := by
  rw [countLine_append]
  exact labelled_line (notMem_line (by decide) plain fun _ => countValue_no_control)

theorem skip_timeLine (plain : 10 ∉ lit lab) (differ : ¬lit label <+: lit lab ∧ ¬lit lab <+: lit label) (t : Timeval) :
    labelled label (timeLine lab t ++ rest) = labelled label rest := by
  rw [timeLine_append]
  exact labelled_skip differ (notMem_line (by decide) plain fun _ => timeValue_no_control)

theorem skip_countLine (plain : 10 ∉ lit lab) (differ : ¬lit label <+: lit lab ∧ ¬lit lab <+: lit label) (x : Int) :
    labelled label (countLine lab x ++ rest) = labelled label rest := by
  rw [countLine_append]
  exact labelled_skip differ (notMem_line (by decide) plain fun _ => countValue_no_control)

end Lines

/-- **The counters an entry shows** are those it was made from. -/
theorem shown_appendStats (ts : ThreadsStats) (tm : TimeStats) :
    shownCount "Stat-Thread-Id:: " (appendStats [] ts tm) = some ts.id ∧
    shownCount "Stat-Thread-Static:: " (appendStats [] ts tm) = some ts.statReq ∧
    shownCount "Stat-Thread-Dynamic:: " (appendStats [] ts tm) = some ts.dynmReq ∧
    shownTime "Stat-Log-Arrival:: " (appendStats [] ts tm) = some tm.logEnter := by
  have stop : ∀ b ∈ ([13] : Bytes).head?, isDigit b = false := by
    intro b head
    obtain rfl := Option.some_inj.mp head
    rfl
  have read : ∀ x, readInt (printd x ++ [13]) = x := fun x => readInt_printd x stop
  have time : ∀ t, (⟨readInt (timeValue t), readInt (((timeValue t).dropWhile (· != 46)).drop 1)⟩ : Timeval) = t := by
    intro t
    have usec : ((timeValue t).dropWhile (· != 46)).drop 1 = printd06 t.usec ++ [13] := by
      unfold timeValue
      rw [List.dropWhile_append_of_pos]
      · rfl
      · intro b mem
        rw [bne_iff_ne]
        rintro rfl
        exact printd_no_point mem
    have point : ∀ b ∈ (46 :: (printd06 t.usec ++ [13])).head?, isDigit b = false := by
      intro b head
      obtain rfl := Option.some_inj.mp head
      rfl
    rw [usec, readInt_printd06 _ stop]
    unfold timeValue
    rw [readInt_printd _ point]
  unfold shownCount shownTime appendStats
  rw [List.nil_append]
  refine ⟨?_, ?_, ?_, ?_⟩
  · rw [skip_timeLine (by decide) (by decide), skip_timeLine (by decide) (by decide), skip_timeLine (by decide) (by decide),
      skip_timeLine (by decide) (by decide), labelled_countLine (by decide), Option.map_some, read]
  · rw [skip_timeLine (by decide) (by decide), skip_timeLine (by decide) (by decide), skip_timeLine (by decide) (by decide),
      skip_timeLine (by decide) (by decide), skip_countLine (by decide) (by decide), skip_countLine (by decide) (by decide),
      labelled_countLine (by decide), Option.map_some, read]
  · rw [skip_timeLine (by decide) (by decide), skip_timeLine (by decide) (by decide), skip_timeLine (by decide) (by decide),
      skip_timeLine (by decide) (by decide), skip_countLine (by decide) (by decide), skip_countLine (by decide) (by decide),
      skip_countLine (by decide) (by decide), labelled_countLine (by decide), Option.map_some, read]
  · rw [skip_timeLine (by decide) (by decide), skip_timeLine (by decide) (by decide), labelled_timeLine (by decide),
      Option.map_some, time]

end OsProjects.Server
