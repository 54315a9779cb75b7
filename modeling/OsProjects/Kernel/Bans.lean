import Mathlib.Logic.Function.Basic
import Mathlib.Logic.Relation

/-!
# System call bans

`hw2.c`: a process carries a byte of bans, set by the process itself when it is root,
inherited at `fork` and inverted along its ancestors by `sys_flip_ban_branch`. Tasks are a
partial map from process ids; a call returns its result and the tasks after it.
-/

namespace OsProjects.Kernel

/-- The fields of `task_struct` that the calls read. -/
structure Task (ι : Type*) where
  syscallBans : BitVec 8
  realParent : Option ι

/-- The processes there are. -/
abbrev Tasks (ι : Type*) := ι → Option (Task ι)

def eperm : Int := 1
def esrch : Int := 3
def einval : Int := 22

/-- `ban_char_to_mask`. -/
def banCharToMask (ban : Char) : Option (BitVec 8) :=
  if ban = 'g' then some 0x01
  else if ban = 'p' then some 0x02
  else if ban = 'k' then some 0x04
  else none

variable {ι : Type*} [DecidableEq ι]

/-- `sys_set_ban` of the process `current`, as root or not. -/
def sysSetBan (current : ι) (root : Bool) (banGetpid banPipe banKill : Int) (tasks : Tasks ι) : Int × Tasks ι :=
  if banGetpid < 0 ∨ banPipe < 0 ∨ banKill < 0 then (-einval, tasks)
  else if !root then (-eperm, tasks)
  else
    let clamp (x : Int) : Int := if x > 1 then 1 else x
    let bit (x : Int) (mask : BitVec 8) : BitVec 8 := if clamp x ≠ 0 then mask else 0
    let bans := bit banGetpid 0x01 ||| bit banPipe 0x02 ||| bit banKill 0x04
    (0, Function.update tasks current ((tasks current).map fun t => { t with syscallBans := bans }))

/-- The bans of a process; there are none where there is no process. -/
def bansOf (tasks : Tasks ι) (p : ι) : BitVec 8 := ((tasks p).map Task.syscallBans).getD 0

/-- `sys_get_ban`. -/
def sysGetBan (current : ι) (ban : Char) (tasks : Tasks ι) : Int :=
  match banCharToMask ban with
  | none => -einval
  | some mask => if bansOf tasks current &&& mask ≠ 0 then 1 else 0

/-- `sys_check_ban`. -/
def sysCheckBan (current : ι) (pid : ι) (ban : Char) (tasks : Tasks ι) : Int :=
  match banCharToMask ban with
  | none => -einval
  | some mask =>
    match tasks pid with
    | none => -esrch
    | some target =>
      if bansOf tasks current &&& mask ≠ 0 then -eperm
      else if target.syscallBans &&& mask ≠ 0 then 1 else 0

/-- The loop of `sys_flip_ban_branch`, for the turns left. -/
def flipLoop (mask : BitVec 8) : Nat → Option ι → Tasks ι → Int → Int × Tasks ι
  | 0, _, tasks, count => (count, tasks)
  | _ + 1, none, tasks, count => (count, tasks)
  | k + 1, some p, tasks, count =>
    match tasks p with
    | none => (count, tasks)
    | some proc =>
      if proc.realParent = some p then (count, tasks)
      else
        let bans := proc.syscallBans ^^^ mask
        flipLoop mask k proc.realParent (Function.update tasks p (some { proc with syscallBans := bans }))
          (if bans &&& mask ≠ 0 then count + 1 else count)

/-- `sys_flip_ban_branch`. -/
def sysFlipBanBranch (current : ι) (height : Int) (ban : Char) (tasks : Tasks ι) : Int × Tasks ι :=
  if height ≤ 0 then (-einval, tasks)
  else
    match banCharToMask ban with
    | none => (-einval, tasks)
    | some mask =>
      if bansOf tasks current &&& mask ≠ 0 then (-eperm, tasks)
      else flipLoop mask height.toNat ((tasks current).bind Task.realParent) tasks 0

/-! ## Processes come and go -/

/-- `p` is the parent of `c`. -/
def ParentOf (tasks : Tasks ι) (c p : ι) : Prop := (tasks c).bind Task.realParent = some p

/-- `a` is a proper ancestor of `c`. -/
def Ancestor (tasks : Tasks ι) : ι → ι → Prop := Relation.TransGen (ParentOf tasks)

/-- `fork`: the child has its parent's bans. -/
def fork (p c : ι) (tasks : Tasks ι) : Tasks ι :=
  Function.update tasks c ((tasks p).map fun t => { t with realParent := some p })

/-- The exit of `p`, whose children go to `a`. -/
def exit (p a : ι) (tasks : Tasks ι) : Tasks ι := fun q =>
  if q = p then none
  else (tasks q).map fun t => if t.realParent = some p then { t with realParent := some a } else t

/-- What a process does. -/
inductive Act (ι : Type*) where
  | fork (p c : ι)
  | exit (p a : ι)
  | setBan (p : ι) (root : Bool) (banGetpid banPipe banKill : Int)
  | getBan (p : ι) (ban : Char)
  | checkBan (p pid : ι) (ban : Char)
  | flip (p : ι) (height : Int) (ban : Char)

inductive Step : Tasks ι → Act ι → Tasks ι → Prop where
  | fork {tasks : Tasks ι} {p c : ι} (alive : (tasks p).isSome) (fresh : tasks c = none) :
      Step tasks (.fork p c) (fork p c tasks)
  | exit {tasks : Tasks ι} {p a : ι} (alive : (tasks p).isSome) (ancestor : Ancestor tasks p a) (other : a ≠ p) :
      Step tasks (.exit p a) (exit p a tasks)
  | setBan {tasks : Tasks ι} {p : ι} (root : Bool) (g q k : Int) (alive : (tasks p).isSome) :
      Step tasks (.setBan p root g q k) (sysSetBan p root g q k tasks).2
  | getBan {tasks : Tasks ι} {p : ι} (ban : Char) (alive : (tasks p).isSome) : Step tasks (.getBan p ban) tasks
  | checkBan {tasks : Tasks ι} {p : ι} (pid : ι) (ban : Char) (alive : (tasks p).isSome) :
      Step tasks (.checkBan p pid ban) tasks
  | flip {tasks : Tasks ι} {p : ι} (height : Int) (ban : Char) (alive : (tasks p).isSome) :
      Step tasks (.flip p height ban) (sysFlipBanBranch p height ban tasks).2

end OsProjects.Kernel
