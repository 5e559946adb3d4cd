import Mathlib
import Boot2Deb.Lib.Shell
import Boot2Deb.Lib.TreeMap
import Boot2Deb.Rust.Outcome
import Boot2Deb.Rust.Pattern

/-!
# The on-image runner (`base/overlay/usr/lib/boot2deb/selftest`)

The script reads the `.checks` files of the image line by line and looks at the system it runs on.
What the system answers, and what the other programs the script calls do, is a `System`.
-/

namespace Boot2Deb.Selftest
open Rust Std

inductive Mode where
  | hardware | userland
deriving DecidableEq

/-- A part of a word of the shell: within double quotes or outside them. -/
inductive Piece where
  | quoted (s : Str)
  | plain (s : Str)
deriving DecidableEq

abbrev Word := List Piece

def Piece.text : Piece → Str
  | .quoted s | .plain s => s

def Piece.isQuoted : Piece → Bool
  | .quoted _ => true
  | .plain _ => false

/-- The word without its quotes. -/
def Word.text (w : Word) : Str := w.flatMap Piece.text

/-- The command line, and what the script learns from outside. -/
structure System where
  mode : Mode
  root : Str
  unamer : Str
  /-- `--dmesg-file`, empty where it is not given. -/
  dmesgFile : Str
  /-- The names that match a pattern, in the order of the shell. -/
  glob : Word → List Str
  /-- `[ -e … ]` and `[ -d … ]`. -/
  pathExists : Str → Bool
  isDir : Str → Bool
  /-- What a file that can be read holds. -/
  readFile : Str → Option Str
  /-- The output of `dmesg`, where it succeeds. -/
  dmesg : Option Str
  /-- Whether a text has a line the expression matches, for an expression `grep` takes: as
  `grep -E` and as `grep` read it. -/
  ere : Str → Option (Str → Bool)
  bre : Str → Option (Str → Bool)
  /-- `lsinitramfs`, or `lsinitrd`. -/
  lister : Option (Str → Str)

inductive Verdict where
  | ok | fail | na | skip
deriving DecidableEq

/-- A call of `report`. -/
structure Report where
  verdict : Verdict
  kind : Str
  args : Str
  note : Str
deriving DecidableEq

/-- The script ends at a parameter that is not set. -/
inductive ShellError where
  | unset (parameter : Char)
deriving DecidableEq

namespace System
variable (sys : System)

/-- Pathname expansion: a word that matches nothing stays. -/
def expand (w : Word) : List Str :=
  if w.all Piece.isQuoted then [w.text]
  else match sys.glob w with
    | [] => [w.text]
    | names => names

/-- `any_path`. -/
def anyPath (ws : List Word) : Bool := (ws.flatMap sys.expand).any sys.pathExists

/-- The words of `"$root"$s`. -/
def rooted (s : Str) : List Word :=
  match Shell.fields s with
  | [] => [[.quoted sys.root]]
  | field :: rest => [.quoted sys.root, .plain field] :: rest.map ([.plain ·])

/-- Whether `grep -q` finds the expression. -/
def grep (re : Option (Str → Bool)) (text : Str) : Bool := re.any (· text)

/-! ### The checks of the build -/

def vmlinuz (behind : Word) : List Str :=
  (sys.expand (.quoted sys.root :: .plain "/boot/vmlinuz-".toList :: behind)).filter sys.pathExists

/-- `${v##*/vmlinuz-}`. -/
def kverOf (path : Str) : Str := (pieces "/vmlinuz-".toList path).getLastD []

def diskKver : Str := ((sys.vmlinuz [.plain ['*']]).getLast?.map kverOf).getD []

def targetKver : Str :=
  match sys.mode with
  | .hardware => sys.unamer
  | .userland => sys.diskKver

def checkKernelRelease (args : Str) : Report :=
  let kind := "kernel-release".toList
  match sys.mode with
  | .hardware =>
    if sys.unamer = args ∨ args ++ ['-'] <+: sys.unamer then ⟨.ok, kind, args, []⟩
    else ⟨.fail, kind, args, "running ".toList ++ sys.unamer⟩
  | .userland =>
    if sys.anyPath [[.quoted (sys.root ++ "/boot/vmlinuz-".toList ++ args)],
        [.quoted sys.root, .plain "/boot/vmlinuz-".toList, .quoted args, .plain "-*".toList]] then
      ⟨.ok, kind, args, []⟩
    else ⟨.fail, kind, args, "no /boot/vmlinuz-".toList ++ args ++ ['*']⟩

def checkKernelFlavor (args : Str) : Report :=
  let kind := "kernel-flavor".toList
  let rt := "-rt-".toList ++ args
  match sys.mode with
  | .hardware =>
    if rt <:+ sys.unamer then
      ⟨.fail, kind, args, "running an -rt kernel: ".toList ++ sys.unamer⟩
    else if '-' :: args <:+ sys.unamer then ⟨.ok, kind, args, []⟩
    else ⟨.fail, kind, args, "running ".toList ++ sys.unamer⟩
  | .userland =>
    if (sys.vmlinuz [.plain "*-".toList, .quoted args]).any fun v => !decide (rt <:+ v) then
      ⟨.ok, kind, args, []⟩
    else ⟨.fail, kind, args, "no non-rt /boot/vmlinuz-*-".toList ++ args⟩

def checkInitramfsModule (args : Str) : Report :=
  let kind := "initramfs-module".toList
  let underscored := fun s => replaceChar s '-' '_'
  let found := fun text =>
    grep (sys.bre ('/' :: underscored args ++ "\\.ko".toList)) (underscored text)
  let kver := sys.targetKver
  let initrd := sys.root ++ "/boot/initrd.img-".toList ++ kver
  let builtin := fun dir : String => (sys.readFile (sys.root ++ dir.toList ++ kver ++
    "/modules.builtin".toList)).any found
  if kver.isEmpty then ⟨.skip, kind, args, "no kernel on /boot to check against".toList⟩
  else if builtin "/lib/modules/" || builtin "/usr/lib/modules/" then ⟨.ok, kind, args, []⟩
  else if !sys.pathExists initrd then ⟨.fail, kind, args, "no initrd.img-".toList ++ kver⟩
  else match sys.lister with
    | none => ⟨.skip, kind, args, "neither lsinitramfs nor lsinitrd is installed".toList⟩
    | some list =>
      if found (list initrd) then ⟨.ok, kind, args, []⟩
      else ⟨.fail, kind, args, "not built in and not in initrd.img-".toList ++ kver⟩

def checkSingleKernel : Report :=
  let kind := "single-kernel".toList
  let kvers := (sys.vmlinuz [.plain ['*']]).map kverOf
  let moddir :=
    if sys.isDir (sys.root ++ "/usr/lib/modules".toList) then "/usr/lib/modules".toList
    else "/lib/modules".toList
  let mvers := ((sys.expand [.quoted (sys.root ++ moddir), .plain "/*".toList]).filter
    sys.isDir).map fun d => d.rtakeWhile (· ≠ '/')
  let shown := fun vers : List Str =>
    if (join [' '] vers).isEmpty then "none".toList else join [' '] vers
  let count := fun n : Nat => Nat.toDigits 10 n
  if kvers.length ≠ 1 then
    ⟨.fail, kind, shown kvers, count kvers.length ++ " kernels on /boot".toList⟩
  else if mvers.length ≠ 1 then
    ⟨.fail, kind, shown mvers, count mvers.length ++ " module trees in ".toList ++ moddir⟩
  else if kvers ≠ mvers then
    ⟨.fail, kind, join [' '] kvers, "its modules are for ".toList ++ join [' '] mvers⟩
  else ⟨.ok, kind, join [' '] kvers, []⟩

/-! ### The checks of the layers -/

def checkFile (args : Str) : Report :=
  if sys.anyPath (sys.rooted args) then ⟨.ok, "file".toList, args, []⟩
  else ⟨.fail, "file".toList, args, "missing".toList⟩

/-- Every layout a shipped kernel installs a device tree into. -/
def dtbLayouts (path : Str) : List Word :=
  let base := path.rtakeWhile (· ≠ '/')
  [[.quoted (sys.root ++ "/boot/".toList ++ base)],
    [.quoted sys.root, .plain "/boot/".toList, .quoted base, .plain "-*".toList],
    [.quoted sys.root, .plain "/usr/lib/linux-image-*/".toList, .quoted path],
    [.quoted sys.root, .plain "/usr/lib/modules/*/dtb/".toList, .quoted base],
    [.quoted sys.root, .plain "/boot/dtbs/*/".toList, .quoted path]]

def checkDtb (args : Str) : Report :=
  if sys.anyPath (sys.dtbLayouts args) then ⟨.ok, "dtb".toList, args, []⟩
  else ⟨.fail, "dtb".toList, args, "not installed in any known layout".toList⟩

/-- The names a firmware file goes by: in two trees, plain or compressed. -/
def firmwareNames (path : Str) : List Word :=
  ["/usr/lib/firmware/", "/lib/firmware/"].flatMap fun dir =>
    ["", ".zst", ".xz"].map fun suffix =>
      [.quoted (sys.root ++ dir.toList ++ path ++ suffix.toList)]

def checkFirmware (args : Str) : Report :=
  if sys.anyPath (sys.firmwareNames args) then ⟨.ok, "firmware".toList, args, []⟩
  else ⟨.fail, "firmware".toList, args, "not under /lib/firmware".toList⟩

/-- The positional parameters behind `set -- $args`. -/
def setWords (args : Str) : List Str :=
  (Shell.fields args).flatMap fun field => sys.expand [.plain field]

def driverLink (device driver : Str) : Word :=
  [.quoted sys.root, .plain "/sys/bus/*/drivers/".toList, .quoted driver, .plain ['/'],
    .quoted device]

def checkDriverBound (args : Str) : Outcome ShellError Report :=
  let kind := "driver-bound".toList
  match sys.mode with
  | .userland => .ok ⟨.na, kind, args, []⟩
  | .hardware =>
    match sys.setWords args with
    | [] => .err (.unset '2')
    | [_] => .err (.unset '2')
    | device :: driver :: _ =>
      let shown := device ++ ' ' :: driver
      .ok (if sys.anyPath [sys.driverLink device driver] then ⟨.ok, kind, shown, []⟩
        else ⟨.fail, kind, shown, "no /sys/bus/*/drivers/".toList ++ driver ++ '/' :: device⟩)

def checkDevnode (args : Str) : Report :=
  let kind := "devnode".toList
  match sys.mode with
  | .userland => ⟨.na, kind, args, []⟩
  | .hardware =>
    if sys.anyPath (sys.rooted args) then ⟨.ok, kind, args, []⟩
    else ⟨.fail, kind, args, "absent".toList⟩

def cards : Str := sys.root ++ "/proc/asound/cards".toList

def checkSoundCard (args : Str) : Report :=
  let kind := "sound-card".toList
  match sys.mode with
  | .userland => ⟨.na, kind, args, []⟩
  | .hardware =>
    match sys.readFile sys.cards with
    | none => ⟨.fail, kind, args, "no ".toList ++ sys.cards ++ " (no sound support at all)".toList⟩
    | some text =>
      if args <:+: text then ⟨.ok, kind, args, []⟩
      else ⟨.fail, kind, args, "not in /proc/asound/cards".toList⟩

/-- `_log`, where the script goes on with it. -/
def log : Option Str :=
  if sys.dmesgFile.isEmpty then sys.dmesg.map Shell.substituted
  else some (Shell.substituted ((sys.readFile sys.dmesgFile).getD []))

def checkNoDmesgMatch (args : Str) : Report :=
  let kind := "no-dmesg-match".toList
  match sys.mode with
  | .userland => ⟨.na, kind, args, []⟩
  | .hardware =>
    match sys.log with
    | none => ⟨.skip, kind, args, "cannot read the kernel log; run as root".toList⟩
    | some log =>
      if grep (sys.ere args) (log ++ ['\n']) then
        ⟨.fail, kind, args, "pattern matched the kernel log".toList⟩
      else ⟨.ok, kind, args, []⟩

/-! ### The lines -/

/-- The kinds that need an argument. -/
def argumentKinds : List String :=
  ["kernel-release", "kernel-flavor", "file", "dtb", "firmware", "initramfs-module",
    "driver-bound", "devnode", "sound-card", "no-dmesg-match"]

def runCheck (kind args : Str) : Outcome ShellError Report :=
  if String.ofList kind ∈ argumentKinds ∧ args.isEmpty then
    .ok ⟨.skip, kind, [], "malformed line: no argument".toList⟩
  else match String.ofList kind with
    | "kernel-release" => .ok (sys.checkKernelRelease args)
    | "single-kernel" => .ok sys.checkSingleKernel
    | "kernel-flavor" => .ok (sys.checkKernelFlavor args)
    | "file" => .ok (sys.checkFile args)
    | "dtb" => .ok (sys.checkDtb args)
    | "firmware" => .ok (sys.checkFirmware args)
    | "initramfs-module" => .ok (sys.checkInitramfsModule args)
    | "driver-bound" => sys.checkDriverBound args
    | "devnode" => .ok (sys.checkDevnode args)
    | "sound-card" => .ok (sys.checkSoundCard args)
    | "no-dmesg-match" => .ok (sys.checkNoDmesgMatch args)
    | _ => .ok ⟨.skip, kind, args, "unknown check kind".toList⟩

/-- What one line comes to: the call of `run_check`, the words its check looks for, and what is
reported. -/
structure Ran where
  kind : Str
  args : Str
  words : List Str
  report : Report
deriving DecidableEq

/-- The words a check looks for. -/
def examined (kind args : Str) : List Str :=
  if kind = "driver-bound".toList ∧ sys.mode = .hardware then (sys.setWords args).take 2
  else [args]

def ran (call : Str × Str) : Outcome ShellError Ran := do
  let report ← sys.runCheck call.1 call.2
  .ok ⟨call.1, call.2, sys.examined call.1 call.2, report⟩

end System

/-- The kind and the arguments of a line that is not skipped. -/
def readCheck (line : Str) : Option (Str × Str) :=
  if line.isEmpty || line.head? = some '#' then none
  else
    let kind := line.takeWhile (!Shell.isBlank ·)
    some (kind, (line.drop kind.length).dropWhile Shell.isBlank)

/-- The calls of `run_check` a file leads to. -/
def calls (text : Str) : List (Str × Str) := (Shell.readLines id text).filterMap readCheck

namespace System

def runFile (sys : System) (text : Str) : Outcome ShellError (List Ran) :=
  Outcome.mapM sys.ran (calls text)

/-- Whether the pattern `*.checks` takes a name up. -/
def isChecks (name : Str) : Bool := decide (".checks".toList <:+ name) && name.head? ≠ some '.'

/-- The loop over the files of the directory. -/
def selftest (sys : System) (dir : ExtTreeMap Str Str compare) :
    Outcome ShellError (List (Str × List Ran)) :=
  Outcome.mapM (fun file => do .ok (file.1, ← sys.runFile file.2))
    (dir.toList.filter fun file => isChecks file.1)

end System

end Boot2Deb.Selftest
