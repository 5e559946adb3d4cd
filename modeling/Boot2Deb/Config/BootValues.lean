import Boot2Deb.Config.Layers

/-!
# What a board passes to its boot (`core/src/resolve.rs`)

The checks a device's boot values meet when it is resolved: its device-tree sources, its extra
kernel arguments, and the command line a depthcharge board signs.
-/

namespace Boot2Deb.Config
open Rust

/-- The variants of `ConfigError` these checks return. -/
inductive BootValueError where
  | invalidField (what : String) (value : Str) (why : String)
  | invalidDeviceDts (device path : Str) (why : String)
  | kernelDtbNotInDeviceDts (device kernelDtb sources expected : Str)
deriving DecidableEq

/-- The console gate. -/
def CONSOLE_LOGLEVEL_ARG : Str := "loglevel=4".toList

/-- What is wrong with a device-tree source, if anything is. -/
def badDts (entry : Str) : Option String :=
  if (trim entry).isEmpty then some "the entry is empty"
  else if entry.head? = some '/' then some "the path is absolute"
  else if (components entry).contains "..".toList then
    some "the path escapes the config root via '..'"
  else if ["dts".toList, "dtsi".toList].all fun e =>
      (Path.fileName (components entry)).bind extension ≠ some e then
    some "the file is not a .dts or .dtsi"
  else none

/-- `validate_device_dts`. -/
def validateDeviceDts (deviceDts : List Str) (kernelDtb deviceName : Str) :
    Outcome BootValueError Unit :=
  match deviceDts.findSome? fun entry => (badDts entry).map fun why => (entry, why) with
  | some (entry, why) => .err (.invalidDeviceDts deviceName entry why)
  | none =>
    let stem := ((Path.fileName (components kernelDtb)).map fileStem).getD []
    let expected := stem ++ ".dts".toList
    if deviceDts.isEmpty ∨
        deviceDts.any fun e => Path.fileName (components e) = some expected then .ok ()
    else
      .err (.kernelDtbNotInDeviceDts deviceName kernelDtb (join ", ".toList deviceDts) expected)

/-- An argument that names the root. -/
def setsRoot (word : Str) : Bool := "root=".toList.isPrefixOf word

/-- The characters a shell acts on between double quotes. -/
def SHELL_ACTIVE : Str := ['"', '\\', '$', '`']

/-- `validate_kernel_cmdline`. -/
def validateKernelCmdline (cmdline : Option Str) : Outcome BootValueError Str :=
  match cmdline with
  | none => .ok []
  | some raw =>
    let value := trim raw
    let bad why := .err (.invalidField "kernel cmdline" value why)
    if value.any fun c => SHELL_ACTIVE.contains c then
      bad ("it contains a shell-active character (one of \" \\ $ `); the value is embedded in a " ++
        "double-quoted assignment in /etc/boot2deb/board.conf, which device scripts source — " ++
        "plain `key=value` arguments only")
    else if value.any isControl then
      bad ("it contains a control character; the value must be a single line of space-separated " ++
        "kernel arguments")
    else if (splitWhitespace value).any setsRoot then
      bad ("it sets `root=`, which the device derives from its /etc/fstab on every boot path — " ++
        "remove it and let fstab be the single source")
    else .ok value

/-- `validate_depthcharge_cmdline`. -/
def validateDepthchargeCmdline (cmdline : Str) : Outcome BootValueError Unit :=
  let bad why := .err (.invalidField "kernel cmdline" cmdline why)
  if cmdline.contains '%' then
    bad ("it contains a '%', which depthchargectl's config round-trip rejects outright (no " ++
      "escaping works); the kern_guid=%U substitution is added by mkdepthcharge, past that " ++
      "round-trip")
  else if (splitWhitespace cmdline).any setsRoot then
    bad ("it sets `root=`, which depthchargectl derives from the image's /etc/fstab and strips " ++
      "when it disagrees — remove it and let fstab be the single source")
  else .ok ()

/-- What a device authors for its boot. -/
structure BootDevice where
  name : Str
  kernelDtb : Str
  deviceDts : List Str
  kernelCmdline : Option Str

/-- What a boot method authors for it. -/
inductive BootMethodLayer where
  | rockchipRkbin
  | depthcharge (cmdline : Str)

/-- The boot values of a resolved build. -/
structure BootValues where
  kernelDtb : Str
  kernelCmdline : Str
  /-- What a depthcharge board signs. -/
  signed : Option Str
deriving DecidableEq

/-- The command line of a boot method, the gate, and the board's own arguments. -/
def mergedCmdline (cmdline kernelCmdline : Str) : Str :=
  if kernelCmdline.isEmpty then cmdline ++ ' ' :: CONSOLE_LOGLEVEL_ARG
  else cmdline ++ ' ' :: (CONSOLE_LOGLEVEL_ARG ++ ' ' :: kernelCmdline)

/-- What a board signs under its boot method. -/
def BootMethodLayer.signed (kernelCmdline : Str) : BootMethodLayer → Option Str
  | rockchipRkbin => none
  | depthcharge cmdline => some (mergedCmdline cmdline kernelCmdline)

/-- The steps of `resolve_device` the boot values go through. -/
def resolveBootValues (device : BootDevice) (method : BootMethodLayer) :
    Outcome BootValueError BootValues := do
  validateDeviceDts device.deviceDts device.kernelDtb device.name
  let kernelCmdline ← validateKernelCmdline device.kernelCmdline
  match method with
  | .rockchipRkbin => return ⟨device.kernelDtb, kernelCmdline, none⟩
  | .depthcharge cmdline =>
    let signed := mergedCmdline cmdline kernelCmdline
    validateDepthchargeCmdline signed
    return ⟨device.kernelDtb, kernelCmdline, some signed⟩

variable {device : BootDevice} {method : BootMethodLayer} {values : BootValues} {s t : Str}
  {c : Char}

/-- The arguments a device authors, without the white space around them. -/
def BootDevice.arguments (device : BootDevice) : Str := trim (device.kernelCmdline.getD [])

/-- Arguments that were let through. -/
structure Vetted (arguments : Str) : Prop where
  inactive : ∀ c ∈ arguments, c ∉ SHELL_ACTIVE
  noControl : ∀ c ∈ arguments, isControl c = false
  noRoot : ∀ word ∈ splitWhitespace arguments, setsRoot word = false

theorem vetted_nil : Vetted [] where
  inactive _ h := nomatch h
  noControl _ h := nomatch h
  noRoot _ h := nomatch h

theorem validateKernelCmdline_ok {cmdline : Option Str}
    (h : validateKernelCmdline cmdline = .ok s) :
    s = trim (cmdline.getD []) ∧ Vetted s := by
  cases cmdline with
  | none =>
    cases h
    exact ⟨rfl, vetted_nil⟩
  | some raw =>
    rw [validateKernelCmdline] at h
    simp only at h
    split_ifs at h with hactive hcontrol hroot
    cases h
    refine ⟨rfl, ⟨fun c hc hmem => hactive ?_, fun c hc => ?_, fun word hword => ?_⟩⟩
    · exact List.any_eq_true.mpr ⟨c, hc, List.contains_iff_mem.mpr hmem⟩
    · simpa using List.any_eq_false.mp (by simpa using hcontrol) c hc
    · simpa using List.any_eq_false.mp (by simpa using hroot) word hword

/-- What a resolved board's values are. -/
theorem resolveBootValues_ok (h : resolveBootValues device method = .ok values) :
    Vetted device.arguments ∧
      values = ⟨device.kernelDtb, device.arguments, method.signed device.arguments⟩ := by
  rw [resolveBootValues] at h
  cases hdts : validateDeviceDts device.deviceDts device.kernelDtb device.name with
  | err e =>
    rw [hdts] at h
    exact nomatch h
  | panic =>
    rw [hdts] at h
    exact nomatch h
  | ok =>
    cases hcmdline : validateKernelCmdline device.kernelCmdline with
    | err e =>
      rw [hdts, hcmdline] at h
      exact nomatch h
    | panic =>
      rw [hdts, hcmdline] at h
      exact nomatch h
    | ok cmdline =>
      obtain ⟨rfl, hvetted⟩ := validateKernelCmdline_ok hcmdline
      refine ⟨hvetted, ?_⟩
      rw [hdts, hcmdline] at h
      cases method with
      | rockchipRkbin =>
        cases h
        rfl
      | depthcharge cmdline =>
        simp only [Outcome.ok_bind] at h
        cases hsigned : validateDepthchargeCmdline
            (mergedCmdline cmdline (trim (device.kernelCmdline.getD []))) with
        | err e =>
          rw [hsigned] at h
          exact nomatch h
        | panic =>
          rw [hsigned] at h
          exact nomatch h
        | ok =>
          rw [hsigned] at h
          cases h
          rfl

end Boot2Deb.Config
