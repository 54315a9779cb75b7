import OsProjects.Server.Confinement
import OsProjects.Server.Responses

/-!
# Programs and files

Which requests `handle_request` answers by running a program. It looks for `.cgi` in the
whole URI and cuts the URI at the `?` afterwards, so a query can make a program of any file.
-/

namespace OsProjects.Server

open CText

/-- A first line with a method and a URI. -/
structure Asks (buf method uri : Bytes) : Prop where
  short : buf.length < maxline
  words : ∃ rest rest', scanWord buf = some (method, rest) ∧ scanWord rest = some (uri, rest')

/-- The part of a URI before the first `?`. -/
def uriPath (uri : Bytes) : Bytes := uri.takeWhile (· != 63)

/-- The action is about the file of a static request. -/
def ServedStatically (uri : Bytes) (action : Action) : Prop :=
  (∃ size, action = .static (staticFile uri) size) ∨
  ∃ errnum shortmsg longmsg, action = .error (staticFile uri) errnum shortmsg longmsg

/-- What runs is a CGI program, and what is not a CGI program is served as a file. -/
structure OnlyCgi (uri : Bytes) (action : Action) : Prop where
  runs : ∀ filename cgiargs, action = .dynamic filename cgiargs →
    filename = lit "." ++ uriPath uri ∧ strstr (uriPath uri) (lit ".cgi") = true
  serves : strstr (uriPath uri) (lit ".cgi") = false → ServedStatically uri action

variable {buf method uri : Bytes}

/-- What `sscanf` makes of such a line, whatever the arrays held. -/
theorem Asks.scan (asks : Asks buf method uri) (method₀ uri₀ version₀ : Bytes) :
    (scanRequest buf method₀ uri₀ version₀).1 = method ∧ (scanRequest buf method₀ uri₀ version₀).2.1 = uri := by
  obtain ⟨rest, rest', first, second⟩ := asks.words
  unfold scanRequest
  rw [first]
  dsimp only
  rw [second]
  dsimp only
  split <;> exact ⟨rfl, rfl⟩

theorem Asks.length_le (asks : Asks buf method uri) : method.length + uri.length < maxline := by
  obtain ⟨rest, rest', first, second⟩ := asks.words
  have short := asks.short
  have inLine := scanWord_length first
  have inRest := scanWord_length second
  omega

/-- `GET` has three letters. -/
theorem get_length (get : sameIgnoringCase method (lit "GET") = true) : method.length = 3 := by
  have same : method.map toLower = (lit "GET").map toLower := eq_of_beq get
  have := congrArg List.length same
  rwa [List.length_map, List.length_map] at this

theorem uriPath_initial (uri : Bytes) : uriPath uri <+: uri := List.takeWhile_prefix _

/-- The name of the program fits its array. -/
theorem dynamicFile_eq (short : uri.length + 2 < maxline) : dynamicFile uri = lit "." ++ uriPath uri := by
  have le := (uriPath_initial uri).length_le
  unfold dynamicFile snprintf
  apply List.take_of_length_le
  rw [List.length_append, show (lit ".").length = 1 from rfl]
  change 1 + (uriPath uri).length ≤ maxline - 1
  omega

/-- The two kinds of request name different files. -/
theorem dynamicFile_ne_staticFile (short : uri.length + 2 < maxline) : dynamicFile uri ≠ staticFile uri := by
  have le := (uriPath_initial uri).length_le
  have longer : (lit "." ++ uriPath uri).length < (snprintf maxline (lit "./public" ++ uri)).length := by
    unfold snprintf
    rw [List.length_take, List.length_append, List.length_append, show (lit ".").length = 1 from rfl,
      show (lit "./public").length = 8 from rfl]
    omega
  have atLeast : (snprintf maxline (lit "./public" ++ uri)).length ≤ (staticFile uri).length := by
    unfold staticFile
    dsimp only
    split_ifs
    · rw [List.length_append]
      exact Nat.le_add_right _ _
    · exact le_refl _
  rw [dynamicFile_eq short]
  intro e
  rw [← e] at atLeast
  omega

/-- A `GET` for a file is refused with the name of the file, or serves it. -/
theorem route_file (get : sameIgnoringCase method (lit "GET") = true) (static : isDynamic uri = false)
    (stat : Bytes → Option FileStat) :
    (∃ errnum shortmsg longmsg, (errnum, shortmsg, longmsg) ∈ errorKinds.tail ∧
      route method uri stat = .error (staticFile uri) errnum shortmsg longmsg) ∨
    ∃ size, route method uri stat = .static (staticFile uri) size := by
  rw [route_static get static]
  cases stat (staticFile uri) with
  | none => exact .inl ⟨_, _, _, by decide, rfl⟩
  | some sbuf =>
    dsimp only
    split_ifs
    · exact .inl ⟨_, _, _, by decide, rfl⟩
    · exact .inr ⟨_, rfl⟩

/-- A `GET` for a program is refused with the name of the program, or runs it. -/
theorem route_program (get : sameIgnoringCase method (lit "GET") = true) (dynamic : isDynamic uri = true)
    (stat : Bytes → Option FileStat) :
    (∃ errnum shortmsg longmsg, (errnum, shortmsg, longmsg) ∈ errorKinds.tail ∧
      route method uri stat = .error (dynamicFile uri) errnum shortmsg longmsg) ∨
    route method uri stat = .dynamic (dynamicFile uri) (cgiArgs uri) := by
  rw [route_dynamic get dynamic]
  cases stat (dynamicFile uri) with
  | none => exact .inl ⟨_, _, _, by decide, rfl⟩
  | some sbuf =>
    dsimp only
    split_ifs
    · exact .inl ⟨_, _, _, by decide, rfl⟩
    · exact .inr rfl

theorem servedStatically_of_static (get : sameIgnoringCase method (lit "GET") = true) (static : isDynamic uri = false)
    (stat : Bytes → Option FileStat) : ServedStatically uri (route method uri stat) := by
  rcases route_file get static stat with ⟨errnum, shortmsg, longmsg, -, refused⟩ | ⟨size, served⟩
  · exact .inr ⟨errnum, shortmsg, longmsg, refused⟩
  · exact .inl ⟨size, served⟩

theorem not_servedStatically_of_dynamic (get : sameIgnoringCase method (lit "GET") = true) (dynamic : isDynamic uri = true)
    (short : uri.length + 2 < maxline) (stat : Bytes → Option FileStat) :
    ¬ServedStatically uri (route method uri stat) := by
  have differ := dynamicFile_ne_staticFile short
  rcases route_program get dynamic stat with ⟨errnum, shortmsg, longmsg, -, refused⟩ | runs
  · rw [refused]
    rintro (⟨size, same⟩ | ⟨errnum', shortmsg', longmsg', same⟩)
    · exact nomatch same
    · exact differ (Action.error.inj same).1
  · rw [runs]
    rintro (⟨size, same⟩ | ⟨errnum', shortmsg', longmsg', same⟩)
    · exact nomatch same
    · exact nomatch same

/-- **When only CGI programs run.** Exactly when a `.cgi` of the URI is not just in the query. -/
theorem onlyCgi_iff (asks : Asks buf method uri) (get : sameIgnoringCase method (lit "GET") = true)
    (method₀ uri₀ version₀ : Bytes) (stat : Bytes → Option FileStat) :
    OnlyCgi uri (route (scanRequest buf method₀ uri₀ version₀).1 (scanRequest buf method₀ uri₀ version₀).2.1 stat) ↔
      (strstr uri (lit ".cgi") = true → strstr (uriPath uri) (lit ".cgi") = true) := by
  obtain ⟨isMethod, isUri⟩ := asks.scan method₀ uri₀ version₀
  have length := asks.length_le
  have three := get_length get
  have short : uri.length + 2 < maxline := by omega
  rw [isMethod, isUri]
  constructor
  · intro only dynamic
    by_contra noCgi
    exact not_servedStatically_of_dynamic get dynamic short stat (only.serves (Bool.eq_false_iff.mpr noCgi))
  · intro inPath
    constructor
    · intro filename cgiargs runs
      have dynamic : isDynamic uri = true := by
        by_contra static
        rcases servedStatically_of_static get (Bool.eq_false_iff.mpr static) stat with ⟨size, serves⟩ | ⟨_, _, _, fails⟩
        · exact nomatch runs.symm.trans serves
        · exact nomatch runs.symm.trans fails
      refine ⟨?_, inPath dynamic⟩
      rw [← dynamicFile_eq short]
      rcases route_program get dynamic stat with ⟨errnum, shortmsg, longmsg, -, refused⟩ | runs'
      · exact nomatch runs.symm.trans refused
      · exact (Action.dynamic.inj (runs.symm.trans runs')).1
    · intro noCgi
      apply servedStatically_of_static get
      rw [Bool.eq_false_iff]
      exact fun dynamic => Bool.eq_false_iff.mp noCgi (inPath dynamic)

/-- A program with arguments. -/
theorem onlyCgi_program : OnlyCgi (lit "/output.cgi?8")
    (route (scanRequest (lit "GET /output.cgi?8 HTTP/1.0\r\n") [] [] []).1
      (scanRequest (lit "GET /output.cgi?8 HTTP/1.0\r\n") [] [] []).2.1 fun _ => some ⟨true, true, true, 0⟩) := by
  have asks : Asks (lit "GET /output.cgi?8 HTTP/1.0\r\n") (lit "GET") (lit "/output.cgi?8") :=
    ⟨by decide, _, _, rfl, rfl⟩
  exact (onlyCgi_iff asks (by decide) [] [] [] _).mpr fun _ => by decide

/-- **A query is enough to run a file**: here the server itself. -/
theorem query_runs_file : ¬∀ buf method uri stat, Asks buf method uri → sameIgnoringCase method (lit "GET") = true →
    OnlyCgi uri (route (scanRequest buf [] [] []).1 (scanRequest buf [] [] []).2.1 stat) := by
  intro claim
  have only := claim (lit "GET /server?.cgi HTTP/1.0\r\n") (lit "GET") (lit "/server?.cgi")
    (fun _ => some ⟨true, true, true, 0⟩) ⟨by decide, _, _, rfl, rfl⟩ (by decide)
  have runs : route (scanRequest (lit "GET /server?.cgi HTTP/1.0\r\n") [] [] []).1
      (scanRequest (lit "GET /server?.cgi HTTP/1.0\r\n") [] [] []).2.1 (fun _ => some ⟨true, true, true, 0⟩) =
      .dynamic (lit "./server") (lit ".cgi") := rfl
  have inPath := (only.runs _ _ runs).2
  exact absurd inPath (by decide)

end OsProjects.Server
