import OsProjects.Lib.Path
import OsProjects.Server.Request

/-!
# Which files a request can reach

The URI is pasted behind a prefix and its `..` components are kept, so where the file lies
depends on how often the URI goes up. A directory is the list of the names on the way from
the root to it.
-/

namespace OsProjects.Server

open CText OsProjects.Path

/-- The components of a path, without the empty ones and `.`. -/
def parts (path : Bytes) : List Bytes := (path.splitOn 47).filter fun c => c != [] && c != lit "."

/-- A path resolved from the working directory, `..` by `..`. -/
def resolve (cwd : List Bytes) (path : Bytes) : List Bytes :=
  walk (lit "..") (if path.head? = some 47 then [] else cwd) (parts path)

/-- A list of names that can be a directory. -/
def Directory (dir : List Bytes) : Prop := ∀ c ∈ dir, c ≠ [] ∧ c ≠ lit "." ∧ c ≠ lit ".." ∧ 47 ∉ c

/-- The file that is opened or executed lies inside `./public` or inside the working directory. -/
def Confined (cwd : List Bytes) : Action → Prop
  | .static filename _ => cwd ++ [lit "public"] <+: resolve cwd filename
  | .dynamic filename _ => cwd <+: resolve cwd filename
  | _ => True

/-- The URI never goes up further than it went down. What counts is what fits into `filename`:
behind `.` and up to the `?` for a dynamic request, behind `public` for a static one, which
may leave `public` as long as it comes back into it. -/
def Tame (uri : Bytes) : Prop :=
  if isDynamic uri then StaysBelow (lit "..") (parts (lit "." ++ (uri.takeWhile (· != 63)).take (maxline - 2)))
  else EndsIn (lit "..") (lit "public") (parts (lit "public" ++ uri.take (maxline - 9)))

/-! ## Components -/

theorem parts_append (a b : Bytes) : parts (a ++ 47 :: b) = parts a ++ parts b := by
  unfold parts
  rw [List.splitOn_append_cons_self, List.filter_append]

theorem length_le_of_mem_parts {path c : Bytes} (mem : c ∈ parts path) : c.length ≤ path.length := by
  have split : ∀ c ∈ path.splitOn 47, c.length ≤ path.length := by
    clear mem
    unfold List.splitOn
    induction path with
    | nil =>
      intro c mem
      rw [List.splitOnP_nil] at mem
      rw [List.mem_singleton.mp mem]
    | cons b path ih =>
      intro c mem
      rw [List.splitOnP_cons_eq_if_modifyHead] at mem
      split_ifs at mem
      · rcases List.mem_cons.mp mem with rfl | mem
        · exact Nat.zero_le _
        · exact Nat.le_succ_of_le (ih c mem)
      · cases rest : path.splitOnP (· == 47) with
        | nil => rw [rest] at mem; exact absurd mem List.not_mem_nil
        | cons d ds =>
          rw [rest] at mem ih
          rcases List.mem_cons.mp mem with rfl | mem
          · exact Nat.succ_le_succ (ih d List.mem_cons_self)
          · exact Nat.le_succ_of_le (ih c (List.mem_cons_of_mem d mem))
  exact split c (List.mem_of_mem_filter mem)

/-- What fits of `home.html` is no component or an ordinary one. -/
theorem parts_home (k : Nat) : parts ((lit "home.html").take k) = [] ∨ ∃ c, parts ((lit "home.html").take k) = [c] ∧
    c ≠ lit ".." ∧ c ≠ lit "public" := by
  have small : ∀ k < 10, parts ((lit "home.html").take k) = [] ∨
      parts ((lit "home.html").take k) = [(lit "home.html").take k] ∧
      (lit "home.html").take k ≠ lit ".." ∧ (lit "home.html").take k ≠ lit "public" := by decide
  have cut : (lit "home.html").take k = (lit "home.html").take (min k 9) := by
    rw [← List.take_take]
    rfl
  rw [cut]
  rcases small (min k 9) (by omega) with none | one
  · exact .inl none
  · exact .inr ⟨_, one⟩

/-- `parts` of the file of a static request, but for the `home.html`. -/
theorem parts_staticFile (uri : Bytes) :
    ∃ home, parts (staticFile uri) = parts (lit "public" ++ uri.take (maxline - 9)) ++ home ∧
      (home = [] ∨ ∃ c, home = [c] ∧ c ≠ lit ".." ∧ c ≠ lit "public") := by
  have fits : snprintf maxline (lit "./public" ++ uri) = lit "." ++ 47 :: (lit "public" ++ uri.take (maxline - 9)) := rfl
  have dot : ∀ rest, parts (lit "." ++ 47 :: rest) = parts rest := by
    intro rest
    rw [parts_append]
    rfl
  unfold staticFile
  simp only [fits]
  split_ifs with slash
  · by_cases long : uri.length ≤ maxline - 9
    · obtain ⟨dir, rfl⟩ := List.getLast?_eq_some_iff.mp slash
      rw [List.take_of_length_le long]
      generalize maxline - (lit "." ++ 47 :: (lit "public" ++ (dir ++ [47]))).length - 1 = k
      refine ⟨parts ((lit "home.html").take k), ?_, parts_home k⟩
      rw [List.append_assoc, List.cons_append, dot, ← List.append_assoc (lit "public"), List.append_assoc _ [47],
        List.singleton_append, parts_append, parts_append]
      simp [parts]
    · have full : maxline - (lit "." ++ 47 :: (lit "public" ++ uri.take (maxline - 9))).length - 1 = 0 := by
        have short : (uri.take (maxline - 9)).length = maxline - 9 := List.length_take_of_le (by omega)
        simp only [List.length_append, List.length_cons, short]
        decide
      rw [full, List.take_zero, List.append_nil]
      exact ⟨[], by rw [dot, List.append_nil], .inl rfl⟩
  · exact ⟨[], by rw [dot, List.append_nil], .inl rfl⟩

/-! ## Confinement -/

theorem get_not_post {method : Bytes} (get : sameIgnoringCase method (lit "GET") = true) :
    sameIgnoringCase method (lit "POST") = false := by
  unfold sameIgnoringCase at get ⊢
  rw [eq_of_beq get]
  decide

/-- A `GET` for a static file. -/
theorem route_static {method uri : Bytes} (get : sameIgnoringCase method (lit "GET") = true)
    (static : isDynamic uri = false) (stat : Bytes → Option FileStat) :
    route method uri stat = match stat (staticFile uri) with
      | none => .error (staticFile uri) "404" "Not found" "OS-HW3 Server could not find this file"
      | some sbuf =>
        if !sbuf.isReg || !sbuf.userRead then
          .error (staticFile uri) "403" "Forbidden" "OS-HW3 Server could not read the file"
        else .static (staticFile uri) sbuf.size := by
  unfold route
  rw [get, get_not_post get, static]
  rfl

/-- A `GET` for a program. -/
theorem route_dynamic {method uri : Bytes} (get : sameIgnoringCase method (lit "GET") = true)
    (dynamic : isDynamic uri = true) (stat : Bytes → Option FileStat) :
    route method uri stat = match stat (dynamicFile uri) with
      | none => .error (dynamicFile uri) "404" "Not found" "OS-HW3 Server could not find this file"
      | some sbuf =>
        if !sbuf.isReg || !sbuf.userExec then
          .error (dynamicFile uri) "403" "Forbidden" "OS-HW3 Server could not run the CGI program"
        else .dynamic (dynamicFile uri) (cgiArgs uri) := by
  unfold route
  rw [get, get_not_post get, dynamic]
  rfl

/-- A working directory with a name that is no component of `path`. -/
theorem exists_fresh (path : Bytes) : ∃ fresh, Directory [fresh] ∧ fresh ∉ parts path := by
  refine ⟨List.replicate (path.length + 3) 97, ?_, ?_⟩
  · intro c mem
    obtain rfl := List.mem_singleton.mp mem
    refine ⟨?_, ?_, ?_, ?_⟩
    · exact fun e => nomatch congrArg List.length e
    · intro e
      have := congrArg List.length e
      rw [List.length_replicate] at this
      exact nomatch this
    · intro e
      have := congrArg List.length e
      rw [List.length_replicate] at this
      exact nomatch this
    · exact fun mem => absurd (List.eq_of_mem_replicate mem) (by decide)
  · intro mem
    have := length_le_of_mem_parts mem
    rw [List.length_replicate] at this
    omega

theorem resolve_staticFile (cwd : List Bytes) (uri : Bytes) :
    resolve cwd (staticFile uri) = walk (lit "..") cwd (parts (staticFile uri)) := by
  unfold resolve
  rw [if_neg]
  unfold staticFile
  split_ifs <;> exact fun e => nomatch e

theorem resolve_dynamicFile (cwd : List Bytes) (uri : Bytes) :
    resolve cwd (dynamicFile uri) = walk (lit "..") cwd (parts (dynamicFile uri)) := rfl

/-- The page of a directory is inside it. -/
theorem endsIn_staticFile (uri : Bytes) :
    EndsIn (lit "..") (lit "public") (parts (lit "public" ++ uri.take (maxline - 9))) ↔
      EndsIn (lit "..") (lit "public") (parts (staticFile uri)) := by
  obtain ⟨home, parts_eq, plain⟩ := parts_staticFile uri
  rw [parts_eq]
  rcases plain with rfl | ⟨c, rfl, notUp, other⟩
  · rw [List.append_nil]
  · exact (endsIn_concat notUp other).symm

/-- **Static files.** The working directory that shows an escape has a name that the URI cannot know. -/
theorem static_confined_iff {method uri : Bytes} (get : sameIgnoringCase method (lit "GET") = true)
    (static : isDynamic uri = false) : (∀ cwd stat, Directory cwd → Confined cwd (route method uri stat)) ↔
      EndsIn (lit "..") (lit "public") (parts (staticFile uri)) := by
  constructor
  · intro confined
    obtain ⟨fresh, directory, isFresh⟩ := exists_fresh (staticFile uri)
    have inside := confined [fresh] (fun _ => some ⟨true, true, true, 0⟩) directory
    rw [route_static get static] at inside
    change [fresh] ++ [lit "public"] <+: resolve [fresh] (staticFile uri) at inside
    rw [resolve_staticFile] at inside
    have stays := staysBelow_of_mem isFresh (inside.subset List.mem_cons_self)
    rw [(stays.walk [fresh]).1] at inside
    obtain ⟨tail, result⟩ := (List.prefix_append_right_inj [fresh]).mp inside
    exact endsIn_of_walk stays result.symm
  · intro ends cwd stat _
    have inside : cwd ++ [lit "public"] <+: resolve cwd (staticFile uri) := by
      rw [resolve_staticFile]
      exact ends.walk (by decide) cwd
    rw [route_static get static]
    cases stat (staticFile uri) with
    | none => trivial
    | some sbuf =>
      simp only
      split_ifs
      · trivial
      · exact inside

/-- **Programs.** -/
theorem dynamic_confined_iff {method uri : Bytes} (get : sameIgnoringCase method (lit "GET") = true)
    (dynamic : isDynamic uri = true) : (∀ cwd stat, Directory cwd → Confined cwd (route method uri stat)) ↔
      StaysBelow (lit "..") (parts (dynamicFile uri)) := by
  constructor
  · intro confined
    obtain ⟨fresh, directory, isFresh⟩ := exists_fresh (dynamicFile uri)
    have inside := confined [fresh] (fun _ => some ⟨true, true, true, 0⟩) directory
    rw [route_dynamic get dynamic] at inside
    change [fresh] <+: resolve [fresh] (dynamicFile uri) at inside
    rw [resolve_dynamicFile] at inside
    exact staysBelow_of_mem isFresh (inside.subset List.mem_cons_self)
  · intro stays cwd stat _
    have inside : cwd <+: resolve cwd (dynamicFile uri) := by
      rw [resolve_dynamicFile, (stays.walk cwd).1]
      exact List.prefix_append _ _
    rw [route_dynamic get dynamic]
    cases stat (dynamicFile uri) with
    | none => trivial
    | some sbuf =>
      simp only
      split_ifs
      · trivial
      · exact inside

/-- **A `GET` is confined exactly when its URI is tame**, in every working directory. -/
theorem get_confined_iff {method : Bytes} (get : sameIgnoringCase method (lit "GET") = true) (uri : Bytes) :
    (∀ cwd stat, Directory cwd → Confined cwd (route method uri stat)) ↔ Tame uri := by
  unfold Tame
  cases dynamic : isDynamic uri with
  | false =>
    rw [if_neg Bool.false_ne_true, endsIn_staticFile]
    exact static_confined_iff get dynamic
  | true =>
    rw [if_pos rfl]
    exact dynamic_confined_iff get dynamic

/-- A page in a subdirectory, reached with a detour. -/
theorem get_confined_detour : Directory [lit "server"] ∧
    Confined [lit "server"] (route (lit "GET") (lit "/a/../b.html") fun _ => some ⟨true, true, true, 0⟩) := by
  have tame : Tame (lit "/a/../b.html") := by
    have split : parts (lit "public" ++ (lit "/a/../b.html").take (maxline - 9)) =
        [] ++ lit "public" :: [lit "a", lit "..", lit "b.html"] := by decide
    refine ⟨[], [lit "a", lit "..", lit "b.html"], split, rfl, ?_, ?_⟩
    · intro before pre
      rw [List.prefix_nil.mp pre]
      decide
    · intro before pre
      have all : ∀ before ∈ [lit "a", lit "..", lit "b.html"].inits, 0 ≤ level (lit "..") before := by decide
      exact all before ((List.mem_inits _ _).mpr pre)
  have directory : Directory [lit "server"] := by
    unfold Directory
    decide
  exact ⟨directory, (get_confined_iff rfl _).mpr tame _ _ directory⟩

/-- **A URI with `..` leaves the directory**: the source of the server is served as a static file. -/
theorem get_escapes : ¬∀ (buf : Bytes) cwd stat, Directory cwd →
    sameIgnoringCase (scanRequest buf [] [] []).1 (lit "GET") = true →
    Confined cwd (route (scanRequest buf [] [] []).1 (scanRequest buf [] [] []).2.1 stat) := by
  intro claim
  have inside := claim (lit "GET /../request.c HTTP/1.0") [lit "server"] (fun _ => some ⟨true, true, true, 0⟩)
    (by unfold Directory; decide) (by decide)
  have file : route (scanRequest (lit "GET /../request.c HTTP/1.0") [] [] []).1
      (scanRequest (lit "GET /../request.c HTTP/1.0") [] [] []).2.1 (fun _ => some ⟨true, true, true, 0⟩) =
      .static (lit "./public/../request.c") 0 := rfl
  rw [file] at inside
  change [lit "server"] ++ [lit "public"] <+: resolve [lit "server"] (lit "./public/../request.c") at inside
  exact absurd inside (by decide)

end OsProjects.Server
