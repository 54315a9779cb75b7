import OsProjects.Shell.State

/-!
# Commands that report on the system

`sysinfo`, `du`, `whoami` and `usbinfo`. What they print depends on the file system and on
the answers of the system, never on the shell.
-/

namespace OsProjects.Shell

open CText

/-- What a command prints, and whether it ends with an uncaught exception. -/
structure Report where
  out : Text
  err : Text
  throws : Bool

/-! ## Reading numbers and lines -/

/-- `std::stol`; `none` is an exception. -/
def stol (s : Text) : Option Int :=
  (strtol s).bind fun x => if -9223372036854775808 ≤ x ∧ x ≤ 9223372036854775807 then some x else none

/-- `std::stoul`, which wraps a negative number; `none` is an exception. -/
def stoul (s : Text) : Option Nat :=
  (strtol s).bind fun x =>
    if x.natAbs ≤ 18446744073709551615 then some (x % 18446744073709551616).toNat else none

/-- The pieces that `std::getline` reads up to a separator. The last one has to be non-empty. -/
def getlines (sep : UInt8) (text : Text) : List Text :=
  let parts := text.splitOn sep
  if parts.getLast? = some [] then parts.dropLast else parts

/-- The string in a buffer. -/
def cString (buf : Text) : Text := buf.takeWhile (· ≠ 0)

/-! ## `sysinfo` -/

/-- `SysinfoCommand::execute`. -/
def sysinfo (sys : Sys) (files : Files) : Report :=
  match sys.uname with
  | .error e => ⟨[], lit "smash error: uname failed: " ++ e ++ lit "\n", false⟩
  | .ok uts =>
    let out := lit "System: " ++ uts.sysname ++ lit "\nHostname: " ++ uts.nodename ++
      lit "\nKernel: " ++ uts.release ++ lit "\nArchitecture: " ++ uts.machine ++ lit "\n"
    match files.read (lit "/proc/stat") 4095 with
    | .error e => ⟨out, lit "smash error: open failed: " ++ e ++ lit "\n", false⟩
    | .ok [] => ⟨out, [], false⟩
    | .ok buf =>
      let content := cString buf
      match find (lit "btime ") content with
      | none => ⟨out, [], false⟩
      | some pos =>
        match stol ((content.drop (pos + 6)).takeWhile (· ≠ 10)) with
        | none => ⟨out, [], true⟩
        | some btime => ⟨out ++ lit "Boot Time: " ++ sys.localtime btime ++ lit "\n", [], false⟩

/-! ## `du` -/

/-- `PATH_MAX`: `lstat` of a longer path fails. -/
def pathMax : Nat := 4096

/-- `_duRecursive`. Every level makes the path longer. -/
def duRecursive (files : Files) (path : Text) : Nat :=
  if _h : path.length < pathMax then
    match files.lstat path with
    | none => 0
    | some st =>
      if st.isLink then 0
      else
        let total := st.blocks * 512
        if st.isDir then
          match files.getdents path with
          | none => total
          | some names =>
            let names := names.filter fun name => name ≠ lit "." ∧ name ≠ lit ".."
            total + (names.map fun name => duRecursive files (path ++ lit "/" ++ name)).sum
        else total
  else 0
termination_by pathMax - path.length
decreasing_by
  simp only [List.length_append, show (lit "/").length = 1 from rfl]
  omega

/-- `DuCommand::execute`. -/
def du (sys : Sys) (files : Files) (cwd cmdLine : Text) : Report :=
  let args := split (removeBackground cmdLine)
  let answer (path : Text) : Report :=
    ⟨lit "Total disk usage: " ++ printd ((duRecursive files path + 1023) / 1024 : Nat) ++ lit " KB\n", [], false⟩
  if 2 < args.length then ⟨[], lit "smash error: du: too many arguments\n", false⟩
  else
    match args with
    | _ :: path :: _ => answer path
    | _ =>
      match sys.getcwd with
      | some e => ⟨[], lit "smash error: getcwd failed: " ++ e ++ lit "\n", false⟩
      | none => answer cwd

/-! ## `whoami` -/

/-- The loop over `/etc/passwd`: the name and the home of the user; `none` is an exception. -/
def findUser (uid : Nat) : List Text → Option (Text × Text)
  | [] => some (lit "N/A", lit "N/A")
  | line :: lines =>
    let fields := getlines 58 line
    match fields with
    | name :: _ :: id :: _ :: _ :: home :: _ :: _ =>
      match stoul id with
      | none => none
      | some fileUid => if fileUid % 4294967296 = uid then some (name, home) else findUser uid lines
    | _ => findUser uid lines

/-- `WhoamiCommand::execute`. -/
def whoami (sys : Sys) (files : Files) : Report :=
  match files.read (lit "/etc/passwd") 65535 with
  | .error e => ⟨[], lit "smash error: open failed: " ++ e ++ lit "\n", false⟩
  | .ok [] => ⟨[], [], false⟩
  | .ok buf =>
    match findUser sys.uid (getlines 10 (cString buf)) with
    | none => ⟨[], [], true⟩
    | some (username, homedir) =>
      ⟨printd sys.uid ++ lit "\n" ++ printd sys.gid ++ lit "\n" ++ username ++ lit " " ++ homedir ++ lit "\n", [], false⟩

/-! ## `usbinfo` -/

structure DevInfo where
  devnum : Int
  vendor : Text
  productId : Text
  manufacturer : Text
  productName : Text
  maxPower : Text

/-- `read_file`. -/
def readFile (files : Files) (path : Text) : Text :=
  match files.read path 255 with
  | .error _ | .ok [] => lit "N/A"
  | .ok buf =>
    let s := (cString buf).rdropWhile fun b => b == 10 || b == 13 || b == 32
    if s = [] then lit "N/A" else s

/-- `bMaxPower` without its unit. -/
def powerOf (mp : Text) : Text :=
  if mp = lit "N/A" then mp
  else
    match find (lit "mA") mp with
    | some pos => trim (mp.take pos)
    | none => trim mp

/-- An entry of the directory of devices, unless it is skipped. -/
def deviceOf (files : Files) (base name : Text) : Option DevInfo :=
  if name = lit "." ∨ name = lit ".." then none
  else if 58 ∈ name then none
  else
    let devPath := base ++ lit "/" ++ name
    let devnumStr := readFile files (devPath ++ lit "/devnum")
    if devnumStr = lit "N/A" then none
    else
      (stoi devnumStr).map fun devnum =>
        { devnum := devnum
          vendor := readFile files (devPath ++ lit "/idVendor")
          productId := readFile files (devPath ++ lit "/idProduct")
          manufacturer := readFile files (devPath ++ lit "/manufacturer")
          productName := readFile files (devPath ++ lit "/product")
          maxPower := powerOf (readFile files (devPath ++ lit "/bMaxPower")) }

def deviceLine (di : DevInfo) : Text :=
  lit "Device " ++ printd di.devnum ++ lit ": ID " ++ di.vendor ++ lit ":" ++ di.productId ++ lit " " ++
    di.manufacturer ++ lit " " ++ di.productName ++ lit "  MaxPower: " ++ di.maxPower ++ lit "mA\n"

/-- `UsbinfoCommand::execute`. -/
def usbinfo (files : Files) : Report :=
  let base := lit "/sys/bus/usb/devices"
  let devices := ((files.getdents base).getD []).filterMap (deviceOf files base)
  if devices = [] then ⟨[], lit "smash error: usbinfo: no USB devices found\n", false⟩
  else ⟨((devices.mergeSort fun a b => a.devnum ≤ b.devnum).map deviceLine).flatten, [], false⟩

end OsProjects.Shell
