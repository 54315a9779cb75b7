import OsProjects.Server.Request

/-!
# The lines of a response

What `send_error`, `serve_static` and `serve_post` write, line by line: a status line and
headers of their own, the nine lines of `append_stats`, the blank line that
`append_stats` ends with, and the body. Numbers of C are short, so no line is long.
-/

namespace OsProjects.Server

open CText

/-! ## Numbers in range -/

/-- A value of an `int`. -/
def IsInt (x : Int) : Prop := -2 ^ 31 ≤ x ∧ x < 2 ^ 31

/-- A value of a `long`. -/
def IsLong (x : Int) : Prop := -2 ^ 63 ≤ x ∧ x < 2 ^ 63

structure Timeval.Fits (t : Timeval) : Prop where
  sec : IsLong t.sec
  usec : IsLong t.usec

structure TimeStats.Fits (tm : TimeStats) : Prop where
  taskArrival : tm.taskArrival.Fits
  taskDispatch : tm.taskDispatch.Fits
  logEnter : tm.logEnter.Fits
  logExit : tm.logExit.Fits

structure ThreadsStats.Fits (ts : ThreadsStats) : Prop where
  id : IsInt ts.id
  totalReq : IsInt ts.totalReq
  statReq : IsInt ts.statReq
  dynmReq : IsInt ts.dynmReq
  postReq : IsInt ts.postReq

theorem isInt_length {n : Nat} (small : n < 2 ^ 31) : IsInt n := ⟨by omega, by omega⟩

theorem digits_length_le {n k : Nat} (positive : 0 < k) (small : n < 10 ^ k) : (digits n).length ≤ k := by
  unfold digits
  rw [List.length_map]
  exact (Nat.length_toDigits_le_iff (by decide) positive).mpr small

theorem IsInt.isLong {x : Int} (int : IsInt x) : IsLong x := by
  obtain ⟨low, high⟩ := int
  unfold IsLong
  omega

theorem IsLong.digits_length_le {x : Int} (long : IsLong x) : (digits x.natAbs).length ≤ 19 := by
  obtain ⟨low, high⟩ := long
  exact Server.digits_length_le (by decide) (by omega)

theorem IsLong.printd_length_le {x : Int} (long : IsLong x) : (printd x).length ≤ 20 := by
  have short := long.digits_length_le
  unfold printd
  split_ifs
  · rw [List.length_append, show (lit "-").length = 1 from rfl]
    omega
  · omega

theorem IsLong.printd06_length_le {x : Int} (long : IsLong x) : (printd06 x).length ≤ 20 := by
  have short := long.digits_length_le
  have sign : (if x < 0 then lit "-" else []).length ≤ 1 := by
    split_ifs
    · exact le_refl 1
    · exact Nat.zero_le 1
  unfold printd06
  simp only [List.length_append, List.length_replicate]
  omega

/-! ## Header lines -/

/-- A short line that is not blank and holds no terminator. -/
structure HeaderLine (line : Bytes) : Prop where
  ends : ∃ text, line = text ++ [10] ∧ 10 ∉ text ∧ text ≠ [13]
  noNul : 0 ∉ line
  short : line.length ≤ 128

/-- The nine lines of `append_stats`. -/
def statLines (ts : ThreadsStats) (tm : TimeStats) : List Bytes :=
  [timeLine "Stat-Req-Arrival:: " tm.taskArrival, timeLine "Stat-Req-Dispatch:: " tm.taskDispatch,
    timeLine "Stat-Log-Arrival:: " tm.logEnter, timeLine "Stat-Log-Dispatch:: " tm.logExit,
    countLine "Stat-Thread-Id:: " ts.id, countLine "Stat-Thread-Count:: " ts.totalReq,
    countLine "Stat-Thread-Static:: " ts.statReq, countLine "Stat-Thread-Dynamic:: " ts.dynmReq,
    countLine "Stat-Thread-Post:: " ts.postReq]

theorem appendStats_eq (ts : ThreadsStats) (tm : TimeStats) :
    appendStats [] ts tm = (statLines ts tm).flatten ++ lit "\r\n" := by
  simp only [appendStats, statLines, List.flatten_cons, List.flatten_nil, List.nil_append, List.append_assoc]

variable {lab : String} {value : Bytes}

theorem HeaderLine.of_text {text : Bytes} (plain : 10 ∉ text ∧ 0 ∉ text) (long : 1 < text.length)
    (short : text.length < 128) : HeaderLine (text ++ [10]) := by
  constructor
  · refine ⟨text, rfl, plain.1, fun e => ?_⟩
    rw [e] at long
    exact absurd long (by decide)
  · intro mem
    rcases List.mem_append.mp mem with mem | mem
    · exact plain.2 mem
    · exact absurd mem (by decide)
  · rw [List.length_append, List.length_singleton]
    omega

/-- A label, a value and the end of the line. -/
theorem HeaderLine.of_value (plain : 10 ∉ lit lab ∧ 0 ∉ lit lab) (label : 1 < (lit lab).length)
    (clean : ∀ b ∈ value, 45 ≤ b ∨ b = 13) (short : (lit lab).length + value.length < 128) :
    HeaderLine (lit lab ++ value ++ [10]) := by
  apply HeaderLine.of_text
  · exact ⟨notMem_line (by decide) plain.1 clean, notMem_line (by decide) plain.2 clean⟩
  · rw [List.length_append]
    omega
  · rwa [List.length_append]

/-- The text before a number is on one line, and short. -/
structure IsLabel (lab : String) : Prop where
  plain : 10 ∉ lit lab ∧ 0 ∉ lit lab
  long : 1 < (lit lab).length
  short : (lit lab).length < 80

instance : DecidablePred IsLabel := fun lab =>
  decidable_of_iff ((10 ∉ lit lab ∧ 0 ∉ lit lab) ∧ 1 < (lit lab).length ∧ (lit lab).length < 80)
    ⟨fun h => ⟨h.1, h.2.1, h.2.2⟩, fun h => ⟨h.plain, h.long, h.short⟩⟩

theorem timeLine_headerLine {t : Timeval} (fits : t.Fits) (label : IsLabel lab) : HeaderLine (timeLine lab t) := by
  have short := label.short
  have sec := fits.sec.printd_length_le
  have usec := fits.usec.printd06_length_le
  have eq : timeLine lab t = lit lab ++ timeValue t ++ [10] := by
    rw [← timeLine_append, List.append_nil]
  rw [eq]
  apply HeaderLine.of_value label.plain label.long fun _ => timeValue_no_control
  unfold timeValue
  simp only [List.length_append, List.length_cons, List.length_nil]
  omega

theorem countLine_headerLine {x : Int} (fits : IsLong x) (label : IsLabel lab) : HeaderLine (countLine lab x) := by
  have short := label.short
  have digits := fits.printd_length_le
  have eq : countLine lab x = lit lab ++ (printd x ++ [13]) ++ [10] := by
    rw [← countLine_append, List.append_nil]
  rw [eq]
  apply HeaderLine.of_value label.plain label.long fun _ => countValue_no_control
  rw [List.length_append, List.length_singleton]
  omega

theorem statLines_headerLine {ts : ThreadsStats} {tm : TimeStats} (counters : ts.Fits) (times : tm.Fits) :
    ∀ line ∈ statLines ts tm, HeaderLine line := by
  unfold statLines
  simp only [List.forall_mem_cons]
  refine ⟨?_, ?_, ?_, ?_, ?_, ?_, ?_, ?_, ?_, List.forall_mem_nil _⟩
  · exact timeLine_headerLine times.taskArrival (by decide)
  · exact timeLine_headerLine times.taskDispatch (by decide)
  · exact timeLine_headerLine times.logEnter (by decide)
  · exact timeLine_headerLine times.logExit (by decide)
  · exact countLine_headerLine counters.id.isLong (by decide)
  · exact countLine_headerLine counters.totalReq.isLong (by decide)
  · exact countLine_headerLine counters.statReq.isLong (by decide)
  · exact countLine_headerLine counters.dynmReq.isLong (by decide)
  · exact countLine_headerLine counters.postReq.isLong (by decide)

/-! ## The three responses -/

/-- The lines before the statistics in `serve_static`. -/
def staticHeaders (filename : Bytes) (filesize : Int) : List Bytes :=
  [lit "HTTP/1.0 200 OK\r\n", lit "Server: OS-HW3 Web Server\r\n", countLine "Content-Length: " filesize,
    lit "Content-Type: " ++ getFiletype filename ++ lit "\r\n"]

/-- The lines before the statistics in `serve_post`. -/
def postHeaders (logLen : Int) : List Bytes :=
  [lit "HTTP/1.0 200 OK\r\n", lit "Server: OS-HW3 Web Server\r\n", countLine "Content-Length: " logLen,
    lit "Content-Type: text/plain\r\n"]

/-- `body` in `serve_post`, for the log `c`. -/
def postBody (c : Bytes) : Bytes := if c = [] then lit "Log is not implemented.\n" else c

/-- The lines before the statistics in `send_error`. -/
def errorHeaders (errnum shortmsg : String) (bodyLen : Int) : List Bytes :=
  [lit "HTTP/1.0 " ++ lit errnum ++ lit " " ++ lit shortmsg ++ lit "\r\n", lit "Content-Type: text/html\r\n",
    countLine "Content-Length: " bodyLen]

/-- `body` in `send_error`. -/
def errorBody (cause : Bytes) (errnum shortmsg longmsg : String) : Bytes :=
  snprintf maxbuf
    (lit "<html><title>OS-HW3 Error</title><body bgcolor=\"ffffff\">\r\n" ++
      lit errnum ++ lit ": " ++ lit shortmsg ++ lit "\r\n<p>" ++ lit longmsg ++ lit ": " ++ cause ++
      lit "\r\n<hr>OS-HW3 Web Server\r\n")

/-- The arguments `handle_request` calls `send_error` with, but for the cause. -/
def errorKinds : List (String × String × String) :=
  [("501", "Not Implemented", "OS-HW3 Server does not implement this method"),
    ("404", "Not found", "OS-HW3 Server could not find this file"),
    ("403", "Forbidden", "OS-HW3 Server could not run the CGI program"),
    ("403", "Forbidden", "OS-HW3 Server could not read the file")]

theorem route_errorKinds {method uri cause : Bytes} {stat : Bytes → Option FileStat} {errnum shortmsg longmsg : String}
    (error : route method uri stat = .error cause errnum shortmsg longmsg) :
    (errnum, shortmsg, longmsg) ∈ errorKinds := by
  unfold route at error
  split_ifs at error with unsupported post dynamic
  · obtain ⟨-, rfl, rfl, rfl⟩ := Action.error.inj error
    decide
  all_goals
    dsimp only at error
    split at error
    · obtain ⟨-, rfl, rfl, rfl⟩ := Action.error.inj error
      decide
    · split_ifs at error
      obtain ⟨-, rfl, rfl, rfl⟩ := Action.error.inj error
      decide

/-- A header that fits its array is written whole. -/
theorem snprintf_eq {text : Bytes} (short : text.length < maxbuf) : snprintf maxbuf text = text :=
  List.take_of_length_le (by omega)

theorem getFiletype_mem (filename : Bytes) :
    getFiletype filename ∈ [lit "text/html", lit "image/gif", lit "image/jpeg", lit "image/png", lit "text/plain"] := by
  unfold getFiletype
  split_ifs <;> decide

theorem getFiletype_length_le (filename : Bytes) : (getFiletype filename).length ≤ 10 := by
  have short : ∀ filetype ∈ [lit "text/html", lit "image/gif", lit "image/jpeg", lit "image/png", lit "text/plain"],
      filetype.length ≤ 10 := by decide
  exact short _ (getFiletype_mem filename)

section Texts

variable {ts : ThreadsStats} {tm : TimeStats}

/-- The lines that `serve_static` and `serve_post` start with. -/
theorem okHeader_eq : lit "HTTP/1.0 200 OK\r\nServer: OS-HW3 Web Server\r\nContent-Length: " =
    lit "HTTP/1.0 200 OK\r\n" ++ (lit "Server: OS-HW3 Web Server\r\n" ++ lit "Content-Length: ") := by
  decide

theorem okHeader_length :
    (lit "HTTP/1.0 200 OK\r\nServer: OS-HW3 Web Server\r\nContent-Length: ").length = 60 := by
  decide

theorem okHeader_headerLine :
    HeaderLine (lit "HTTP/1.0 200 OK\r\n") ∧ HeaderLine (lit "Server: OS-HW3 Web Server\r\n") := by
  constructor
  · exact .of_text (show 10 ∉ lit "HTTP/1.0 200 OK\r" ∧ 0 ∉ lit "HTTP/1.0 200 OK\r" by decide) (by decide) (by decide)
  · exact .of_text (show 10 ∉ lit "Server: OS-HW3 Web Server\r" ∧ 0 ∉ lit "Server: OS-HW3 Web Server\r" by decide)
      (by decide) (by decide)

theorem serveStatic_eq {filesize : Int} (fits : IsInt filesize) (filename content : Bytes) :
    serveStatic filename filesize content ts tm =
      (staticHeaders filename filesize ++ statLines ts tm).flatten ++ lit "\r\n" ++ content := by
  have size := fits.isLong.printd_length_le
  have type := getFiletype_length_le filename
  have middle : lit "\r\nContent-Type: " = lit "\r\n" ++ lit "Content-Type: " := by decide
  have long : (lit "\r\nContent-Type: ").length = 16 ∧ (lit "\r\n").length = 2 := by decide
  unfold serveStatic
  rw [snprintf_eq]
  · rw [appendStats_eq, okHeader_eq, middle]
    simp only [staticHeaders, countLine, List.flatten_append, List.flatten_cons, List.flatten_nil, List.append_nil,
      List.append_assoc]
  · simp only [List.length_append, okHeader_length, maxbuf]
    omega

theorem servePost_eq {c : Bytes} (fits : IsInt (postBody c).length) :
    servePost c.length (c ++ [0]) ts tm =
      (postHeaders (postBody c).length ++ statLines ts tm).flatten ++ lit "\r\n" ++ postBody c := by
  have size := fits.isLong.printd_length_le
  have last : lit "\r\nContent-Type: text/plain\r\n" = lit "\r\n" ++ lit "Content-Type: text/plain\r\n" := by decide
  have long : (lit "\r\nContent-Type: text/plain\r\n").length = 28 := by decide
  have logLen : (if (c.length : Int) = 0 then ((lit "Log is not implemented.\n").length : Int) else c.length) =
      (postBody c).length := by
    unfold postBody
    by_cases empty : c = []
    · rw [if_pos empty, empty]
      rfl
    · rw [if_neg empty, if_neg]
      have := List.length_pos_of_ne_nil empty
      omega
  have body : (if (c.length : Int) = 0 then lit "Log is not implemented.\n" else c ++ [0]).take (postBody c).length =
      postBody c := by
    unfold postBody
    by_cases empty : c = []
    · rw [if_pos empty, empty]
      rfl
    · have positive := List.length_pos_of_ne_nil empty
      rw [if_neg empty, if_neg (by omega), List.take_left]
  unfold servePost
  simp only [logLen, Int.toNat_natCast, body]
  rw [snprintf_eq]
  · rw [appendStats_eq, okHeader_eq, last]
    simp only [postHeaders, countLine, List.flatten_append, List.flatten_cons, List.flatten_nil, List.append_nil,
      List.append_assoc]
  · simp only [List.length_append, okHeader_length, maxbuf]
    omega

theorem errorBody_length_lt (cause : Bytes) (errnum shortmsg longmsg : String) :
    (errorBody cause errnum shortmsg longmsg).length < maxbuf :=
  (List.length_take_le _ _).trans_lt (by decide)

theorem sendError_eq {errnum shortmsg longmsg : String} (kind : (errnum, shortmsg, longmsg) ∈ errorKinds) (cause : Bytes) :
    sendError cause errnum shortmsg longmsg ts tm =
      (errorHeaders errnum shortmsg (errorBody cause errnum shortmsg longmsg).length ++ statLines ts tm).flatten ++
        lit "\r\n" ++ errorBody cause errnum shortmsg longmsg := by
  have bodyLen := errorBody_length_lt cause errnum shortmsg longmsg
  unfold maxbuf at bodyLen
  have size : (printd (errorBody cause errnum shortmsg longmsg).length).length ≤ 20 :=
    IsLong.printd_length_le ⟨by omega, by omega⟩
  have texts : ∀ kind ∈ errorKinds, (lit kind.1).length ≤ 20 ∧ (lit kind.2.1).length ≤ 20 := by decide
  have short := texts _ kind
  have middle : lit "\r\nContent-Type: text/html\r\nContent-Length: " =
      lit "\r\n" ++ (lit "Content-Type: text/html\r\n" ++ lit "Content-Length: ") := by decide
  have long : (lit "HTTP/1.0 ").length = 9 ∧ (lit " ").length = 1 ∧
    (lit "\r\nContent-Type: text/html\r\nContent-Length: ").length = 43 ∧ (lit "\r\n").length = 2 := by decide
  unfold sendError
  change snprintf maxbuf (_ ++ printd (errorBody cause errnum shortmsg longmsg).length ++ _) ++ _ ++
    errorBody cause errnum shortmsg longmsg = _
  rw [snprintf_eq]
  · rw [appendStats_eq, middle]
    simp only [errorHeaders, countLine, List.flatten_append, List.flatten_cons, List.flatten_nil, List.append_nil,
      List.append_assoc]
  · simp only [List.length_append, maxbuf] at short ⊢
    omega

theorem staticHeaders_headerLine {filesize : Int} (fits : IsInt filesize) (filename : Bytes) :
    ∀ line ∈ staticHeaders filename filesize, HeaderLine line := by
  have type : HeaderLine (lit "Content-Type: " ++ getFiletype filename ++ lit "\r\n") := by
    have plain : ∀ filetype ∈ [lit "text/html", lit "image/gif", lit "image/jpeg", lit "image/png", lit "text/plain"],
        ∀ b ∈ filetype ++ [13], 45 ≤ b ∨ b = 13 := by decide +kernel
    have short := getFiletype_length_le filename
    have eq : lit "Content-Type: " ++ getFiletype filename ++ lit "\r\n" =
        lit "Content-Type: " ++ (getFiletype filename ++ [13]) ++ [10] := by
      simp only [List.append_assoc, show lit "\r\n" = [13] ++ [10] from rfl]
    rw [eq]
    apply HeaderLine.of_value (by decide) (by decide) (plain _ (getFiletype_mem filename))
    rw [List.length_append, show (lit "Content-Type: ").length = 14 from rfl, List.length_singleton]
    omega
  unfold staticHeaders
  simp only [List.forall_mem_cons]
  refine ⟨okHeader_headerLine.1, okHeader_headerLine.2, ?_, type, List.forall_mem_nil _⟩
  exact countLine_headerLine fits.isLong (by decide)

theorem postHeaders_headerLine {logLen : Int} (fits : IsInt logLen) : ∀ line ∈ postHeaders logLen, HeaderLine line := by
  unfold postHeaders
  simp only [List.forall_mem_cons]
  refine ⟨okHeader_headerLine.1, okHeader_headerLine.2, ?_, ?_, List.forall_mem_nil _⟩
  · exact countLine_headerLine fits.isLong (by decide)
  · exact .of_text (show 10 ∉ lit "Content-Type: text/plain\r" ∧ 0 ∉ lit "Content-Type: text/plain\r" by decide)
      (by decide) (by decide)

theorem errorHeaders_headerLine {errnum shortmsg longmsg : String} (kind : (errnum, shortmsg, longmsg) ∈ errorKinds)
    {bodyLen : Int} (fits : IsInt bodyLen) : ∀ line ∈ errorHeaders errnum shortmsg bodyLen, HeaderLine line := by
  have status : HeaderLine (lit "HTTP/1.0 " ++ lit errnum ++ lit " " ++ lit shortmsg ++ lit "\r\n") := by
    have plain : ∀ kind ∈ errorKinds, (10 ∉ lit "HTTP/1.0 " ++ lit kind.1 ++ lit " " ++ lit kind.2.1 ++ [13] ∧
        0 ∉ lit "HTTP/1.0 " ++ lit kind.1 ++ lit " " ++ lit kind.2.1 ++ [13]) ∧
        1 < (lit "HTTP/1.0 " ++ lit kind.1 ++ lit " " ++ lit kind.2.1 ++ [13]).length ∧
        (lit "HTTP/1.0 " ++ lit kind.1 ++ lit " " ++ lit kind.2.1 ++ [13]).length < 128 := by decide
    obtain ⟨clean, long, short⟩ := plain _ kind
    rw [show lit "\r\n" = [13] ++ [10] from rfl, ← List.append_assoc]
    exact .of_text clean long short
  unfold errorHeaders
  simp only [List.forall_mem_cons]
  refine ⟨status, ?_, ?_, List.forall_mem_nil _⟩
  · exact .of_text (show 10 ∉ lit "Content-Type: text/html\r" ∧ 0 ∉ lit "Content-Type: text/html\r" by decide)
      (by decide) (by decide)
  · exact countLine_headerLine fits.isLong (by decide)

end Texts

/-! ## A worker at its first request -/

def firstStats : ThreadsStats := ⟨1, 0, 0, 0, 0⟩

def firstTimes : TimeStats := ⟨⟨7, 0⟩, ⟨7, 0⟩, ⟨7, 0⟩, ⟨7, 0⟩⟩

theorem first_fits : firstStats.Fits ∧ (⟨7, 0⟩ : Timeval).Fits ∧ firstTimes.Fits := by
  have int : ∀ x, 0 ≤ x ∧ x ≤ 7 → IsInt x := fun x range => ⟨by omega, by omega⟩
  have zero := int 0 (by decide)
  have time : Timeval.Fits ⟨7, 0⟩ := ⟨(int 7 (by decide)).isLong, zero.isLong⟩
  exact ⟨⟨int 1 (by decide), zero, zero, zero, zero⟩, time, ⟨time, time, time, time⟩⟩

end OsProjects.Server
