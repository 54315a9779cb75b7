import OsProjects.Shell.BuiltIns

/-!
# The previous directory

`cd -` goes back to `last_pwd`, which should be the directory that the last successful `cd`
has left. The code sets it too early on that path: it is lost when the directory to go back
to is gone (`cd_history_iff`).
-/

namespace OsProjects.Shell

open CText

variable {os : Os} {w : World} {line : Text} {before : Option Text} {done lines : List Text}

/-- The directory that a `cd` command wants to go to, unless it has none. -/
def destination (line : Text) (w : World) : Option Text :=
  match argsOf line with
  | [_, path] => if path = lit "-" then (if w.shell.lastPwd = [] then none else some w.shell.lastPwd) else some path
  | _ => none

/-- The answer to the `chdir` of the command, the second call it makes. -/
def answer (os : Os) (line : Text) (w : World) : Option (Except Errno Text) :=
  (destination line w).map ((os (w.proc.now + 1)).chdir w.proc.cwd)

/-- The command succeeds. -/
def succeeds (os : Os) (line : Text) (w : World) : Bool :=
  match answer os line w with
  | some (.ok _) => true
  | _ => false

/-- A `cd -` that fails in a directory other than the one it wants to go to. -/
structure Slips (os : Os) (line : Text) (w : World) : Prop where
  back : ∃ word, argsOf line = [word, lit "-"]
  set : w.shell.lastPwd ≠ []
  other : w.shell.lastPwd ≠ w.proc.cwd
  fails : succeeds os line w = false

/-- The world after one `cd` command. -/
def step (os : Os) (line : Text) (w : World) : World := (changeDirCommand os line w).world

/-- What a `cd` command does when `getcwd` succeeds. -/
inductive Went (os : Os) (line : Text) (w : World) : World → Prop where
  | moved {w' : World} {dir : Text} (ok : answer os line w = some (.ok dir)) (cwd : w'.proc.cwd = dir)
      (lastPwd : w'.shell.lastPwd = w.proc.cwd) (silent : w'.err = w.err) : Went os line w w'
  | stayed {w' : World} (failed : succeeds os line w = false) (cwd : w'.proc.cwd = w.proc.cwd)
      (lastPwd : w'.shell.lastPwd = w.shell.lastPwd)
      (other : ∀ word, argsOf line = [word, lit "-"] → w.shell.lastPwd = []) : Went os line w w'
  | lost {w' : World} {word : Text} (failed : succeeds os line w = false) (back : argsOf line = [word, lit "-"])
      (set : w.shell.lastPwd ≠ []) (cwd : w'.proc.cwd = w.proc.cwd) (lastPwd : w'.shell.lastPwd = w.proc.cwd)
      (loud : w'.err ≠ w.err) : Went os line w w'

theorem perror_err_ne (message : String) (e : Errno) (w : World) : (w.perror message e).err ≠ w.err := by
  intro eq
  have size := congrArg List.length eq
  simp only [World.perror, World.complain, List.length_append, show (lit ": ").length = 2 from rfl] at size
  omega

/-- **One `cd` command.** -/
theorem step_went (cwd : (os w.proc.now).getcwd = none) (line : Text) : Went os line w (step os line w) := by
  unfold step changeDirCommand
  -- a command that makes no call of `chdir`
  have idle : ∀ {w' : World}, answer os line w = none → (∀ word, argsOf line = [word, lit "-"] → w.shell.lastPwd = []) →
      w'.proc.cwd = w.proc.cwd → w'.shell.lastPwd = w.shell.lastPwd → Went os line w w' := by
    intro w' none other cwd' lastPwd
    exact .stayed (by rw [succeeds, none]) cwd' lastPwd other
  match args : argsOf line with
  | [] => exact idle (by simp [answer, destination, args]) (by simp [args]) rfl rfl
  | [_] => exact idle (by simp [answer, destination, args]) (by simp [args]) rfl rfl
  | _ :: _ :: _ :: _ => exact idle (by simp [answer, destination, args]) (by simp [args]) rfl rfl
  | [word, path] =>
    simp only [World.sys, cwd, Outcome.world, changeDirTo]
    by_cases back : path = lit "-"
    · rw [if_pos back]
      by_cases unset : w.shell.lastPwd = []
      · rw [if_pos (by exact unset)]
        exact idle (by simp [answer, destination, args, back, unset]) (fun _ _ => unset) rfl rfl
      · have asked : answer os line w = some ((os (w.proc.now + 1)).chdir w.proc.cwd w.shell.lastPwd) := by
          simp [answer, destination, args, back, unset]
        rw [if_neg (by exact unset)]
        simp only [World.tick]
        cases result : (os (w.proc.now + 1)).chdir w.proc.cwd w.shell.lastPwd with
        | error e =>
          rw [result] at asked
          exact .lost (by rw [succeeds, asked]) (back ▸ args) unset rfl rfl (perror_err_ne _ e _)
        | ok dir =>
          rw [result] at asked
          exact .moved asked rfl rfl rfl
    · have asked : answer os line w = some ((os (w.proc.now + 1)).chdir w.proc.cwd path) := by
        simp [answer, destination, args, back]
      have other : ∀ word, argsOf line = [word, lit "-"] → w.shell.lastPwd = [] := by
        intro word' eq
        rw [args] at eq
        exact absurd (List.cons.inj (List.cons.inj eq).2).1 back
      rw [if_neg back]
      simp only [World.tick]
      cases result : (os (w.proc.now + 1)).chdir w.proc.cwd path with
      | error e =>
        rw [result] at asked
        exact .stayed (by rw [succeeds, asked]) rfl rfl other
      | ok dir =>
        rw [result] at asked
        exact .moved asked rfl rfl rfl

/-! ## Sequences of commands -/

/-- A sequence of `cd` commands: the world after it, and the directory just before the most recent
successful command. -/
def journey (os : Os) (w : World) (lines : List Text) : World × Option Text :=
  lines.foldl (fun s line => (step os line s.1, if succeeds os line s.1 then some s.1.proc.cwd else s.2)) (w, none)

theorem journey_concat (os : Os) (w : World) (done : List Text) (line : Text) : journey os w (done ++ [line]) =
    (step os line (journey os w done).1,
      if succeeds os line (journey os w done).1 then some (journey os w done).1.proc.cwd else (journey os w done).2) := by
  rw [journey, List.foldl_append]
  rfl

/-- `last_pwd` is the directory that the last successful command left. -/
def Remembers (s : World × Option Text) : Prop := s.1.shell.lastPwd = s.2.getD []

/-- A command that reports an error changes nothing. -/
def Harmless (w w' : World) : Prop :=
  w'.err ≠ w.err → w'.proc.cwd = w.proc.cwd ∧ w'.shell.lastPwd = w.shell.lastPwd

/-- One more command, after a sequence that has kept the law. -/
theorem remembers_concat (getcwd : ∀ t, (os t).getcwd = none) (h : Remembers (journey os w done)) (line : Text) :
    Remembers (journey os w (done ++ [line])) ∧
        Harmless (journey os w done).1 (journey os w (done ++ [line])).1 ↔
      ¬Slips os line (journey os w done).1 := by
  have law : (journey os w done).1.shell.lastPwd = (journey os w done).2.getD [] := h
  rw [journey_concat]
  cases step_went (getcwd _) line with
  | moved ok cwd lastPwd silent =>
    have yes : succeeds os line (journey os w done).1 = true := by rw [succeeds, ok]
    rw [if_pos yes]
    constructor
    · intro _ slip
      rw [slip.fails] at yes
      exact Bool.noConfusion yes
    · exact fun _ => ⟨lastPwd, fun loud => absurd silent loud⟩
  | stayed failed cwd lastPwd other =>
    rw [failed, if_neg Bool.false_ne_true]
    constructor
    · intro _ slip
      obtain ⟨word, args⟩ := slip.back
      exact slip.set (other word args)
    · exact fun _ => ⟨lastPwd.trans law, fun _ => ⟨cwd, lastPwd⟩⟩
  | lost failed back set cwd lastPwd loud =>
    rw [failed, if_neg Bool.false_ne_true]
    constructor
    · intro kept slip
      exact slip.other (law.trans (kept.1.symm.trans lastPwd))
    · intro no
      have same : (journey os w done).1.shell.lastPwd = (journey os w done).1.proc.cwd := by
        by_contra other
        exact no ⟨⟨_, back⟩, set, other, failed⟩
      have kept := lastPwd.trans same.symm
      exact ⟨kept.trans law, fun _ => ⟨cwd, kept⟩⟩

/-- **`last_pwd` follows the successful commands** exactly as long as no `cd -` fails away from the
directory it wants to go back to. -/
theorem cd_history_iff (getcwd : ∀ t, (os t).getcwd = none) (fresh : w.shell.lastPwd = []) (lines : List Text) :
    (∀ done line, done ++ [line] <+: lines → Remembers (journey os w (done ++ [line])) ∧
        Harmless (journey os w done).1 (journey os w (done ++ [line])).1) ↔
      ∀ done line, done ++ [line] <+: lines → ¬Slips os line (journey os w done).1 := by
  constructor
  · intro lawful done line pre
    have law : Remembers (journey os w done) := by
      cases done using List.reverseRecOn with
      | nil => exact fresh
      | append_singleton done last => exact (lawful done last ((List.prefix_append _ _).trans pre)).1
    exact (remembers_concat getcwd law line).mp (lawful done line pre)
  · intro clear done
    have law : done <+: lines → Remembers (journey os w done) := by
      induction done using List.reverseRecOn with
      | nil => exact fun _ => fresh
      | append_singleton done last ih =>
        intro pre
        exact ((remembers_concat getcwd (ih ((List.prefix_append _ _).trans pre)) last).mpr (clear done last pre)).1
    intro line pre
    exact (remembers_concat getcwd (law ((List.prefix_append _ _).trans pre)) line).mpr (clear done line pre)

/-- `cd /b` and back again. -/
theorem cd_history_there_and_back :
    Remembers (journey (fun _ => calmSys) (World.startIn (lit "/a")) [lit "cd /b"]) ∧
      Remembers (journey (fun _ => calmSys) (World.startIn (lit "/a")) [lit "cd /b", lit "cd -"]) ∧
      (journey (fun _ => calmSys) (World.startIn (lit "/a")) [lit "cd /b", lit "cd -"]).1.shell.lastPwd = lit "/b" := by
  -- on this system a `cd -` never fails
  have clear : ∀ done line, done ++ [line] <+: [lit "cd /b", lit "cd -"] →
      ¬Slips (fun _ => calmSys) line (journey (fun _ => calmSys) (World.startIn (lit "/a")) done).1 := by
    intro done line _ slip
    have fails := slip.fails
    obtain ⟨word, args⟩ := slip.back
    have asked : answer (fun _ => calmSys) line (journey (fun _ => calmSys) (World.startIn (lit "/a")) done).1 =
        some (.ok (journey (fun _ => calmSys) (World.startIn (lit "/a")) done).1.shell.lastPwd) := by
      rw [answer, destination, args]
      simp only [if_true]
      rw [if_neg slip.set]
      rfl
    rw [succeeds, asked] at fails
    exact Bool.noConfusion fails
  have lawful := (cd_history_iff (fun _ => rfl) rfl _).mpr clear
  exact ⟨(lawful [] (lit "cd /b") (List.prefix_append _ _)).1, (lawful [lit "cd /b"] (lit "cd -") (List.prefix_refl _)).1,
    by decide⟩

/-- The directory to go back to disappears. -/
def vanishing : Os := fun t =>
  if t < 2 then calmSys else { calmSys with chdir := fun _ _ => .error (lit "No such file or directory") }

/-- **A failed `cd -` forgets where it came from**: `cd /b` in `/a`, then a `cd -` that fails because `/a` is gone,
leaves `/b` in `last_pwd`. -/
theorem cd_back_forgets : (∀ t, (vanishing t).getcwd = none) ∧ (World.startIn (lit "/a")).shell.lastPwd = [] ∧
    ¬Remembers (journey vanishing (World.startIn (lit "/a")) [lit "cd /b", lit "cd -"]) := by
  refine ⟨fun t => ?_, rfl, ?_⟩
  · unfold vanishing
    split_ifs <;> rfl
  · unfold Remembers
    decide

end OsProjects.Shell
