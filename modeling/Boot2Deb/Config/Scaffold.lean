import Mathlib
import Boot2Deb.Config.TomlText
import Boot2Deb.Core.Values

/-!
# Scaffolding a board (`core/src/scaffold.rs`)

The text of a new board's device file and recipe, from what was asked for, and the reading of such
files. The strings are written with Rust's debug escapes and read with TOML's: a board is read back
as it was asked for exactly if none of its strings has a character that the two write apart.
-/

namespace Boot2Deb.Config.Scaffold

open Rust TomlText

inductive Soc where
  | rk3588 | rk3576 | rk3566 | rk3288
deriving DecidableEq

def Soc.asStr : Soc → Str
  | rk3588 => "rk3588".toList
  | rk3576 => "rk3576".toList
  | rk3566 => "rk3566".toList
  | rk3288 => "rk3288".toList

inductive BootMethod where
  | rockchipRkbin | depthcharge
deriving DecidableEq

def BootMethod.asStr : BootMethod → Str
  | rockchipRkbin => "rockchip-rkbin".toList
  | depthcharge => "depthcharge".toList

inductive Layout where
  | combined | split
deriving DecidableEq

def Layout.asStr : Layout → Str
  | combined => "combined".toList
  | split => "split".toList

/-- The blobs a layer names. -/
structure RkbinLayer where
  atf : Option Str
  tpl : Option Str
  bl32 : Option Str
deriving DecidableEq

structure DeviceScaffold where
  name : Str
  description : Str
  soc : Soc
  bootMethod : BootMethod
  kernel : Str
  suite : Str
  layout : Layout
  hostname : Str
  imageSize : Str
  dtDir : Str
  socRkbin : RkbinLayer
  features : List Str
  emitRecipe : Bool

def PLACEHOLDER : Str := "CHANGEME".toList

namespace DeviceScaffold
variable (d : DeviceScaffold)

def ubootDefconfigSuggestion : Str := d.name ++ '-' :: (d.soc.asStr ++ "_defconfig".toList)

def kernelDtbSuggestion : Str := d.dtDir ++ '/' :: (d.soc.asStr ++ '-' :: (d.name ++ ".dtb".toList))

/-- What a layer sets to more than blanks. -/
def filled (o : Option Str) : Option Str := o.filter fun s => !(trim s).isEmpty

def socSuppliesBlobs : Bool := (filled d.socRkbin.atf).isSome && (filled d.socRkbin.tpl).isSome

def atfSuggestion : Str :=
  (filled d.socRkbin.atf).getD (PLACEHOLDER ++ '-' :: (d.soc.asStr ++ "_bl31.elf".toList))

def tplSuggestion : Str :=
  (filled d.socRkbin.tpl).getD (PLACEHOLDER ++ '-' :: (d.soc.asStr ++ "_ddr.bin".toList))

def boardSuggestion : Str := d.name

section Text
variable (tables : CharTables)

/-- `write_rkbin_block`. -/
def rkbinBlock : List Written :=
  if d.socSuppliesBlobs then [
    .comment [],
    .comment ("# rkbin (ATF + DDR TPL) is inherited from socs/".toList ++ d.soc.asStr ++
      ".toml. The DDR TPL is".toList),
    .comment "# board-memory-specific: if this board's DRAM differs from the SoC default,".toList,
    .comment ("# override just the TPL (vendor the file under blobs/".toList ++ d.soc.asStr ++
      "/):".toList),
    .comment "#   [rkbin]".toList,
    .comment ("#   tpl = ".toList ++ debugStr tables d.tplSuggestion)]
  else [
    .comment [],
    .comment
      "# TODO: the SoC layer supplies no rkbin defaults — provide the blob set and".toList,
    .comment ("# vendor the files under blobs/".toList ++ d.soc.asStr ++
      "/. The DDR TPL must match this board's memory.".toList),
    .header "rkbin".toList,
    .assign 4 "atf".toList (.string d.atfSuggestion) [],
    .assign 4 "tpl".toList (.string d.tplSuggestion) []]

/-- `write_depthcharge_block`. -/
def depthchargeBlock : List Written := [
  .comment [],
  .comment
    "# TODO: the depthcharge-tools board profile for this unit — its `board` codename".toList,
  .comment
    "# (`depthchargectl list-boards`). A profile describes the *firmware* the unit runs,".toList,
  .comment
    "# not the board model, so a unit with replacement firmware may take a different one.".toList,
  .comment "# Prefer the stock profile as the default: a stock-profile image also boots on a".toList,
  .comment "# unit with replacement firmware, while the reverse is not true.".toList,
  .header "depthcharge".toList,
  .assign 17 "board".toList (.string d.boardSuggestion) [],
  .assign 17 "supported_boards".toList (.strings [d.boardSuggestion]) []]

/-- The defconfig of a board whose u-boot is compiled. -/
def ubootBlock : List Written :=
  if d.bootMethod = .rockchipRkbin then [
    .comment [],
    .comment ("# TODO: verify this defconfig exists in the u-boot tree ".toList ++
      "(unvalidated — fails at the u-boot build).".toList),
    .assign 24 "uboot_defconfig".toList (.string d.ubootDefconfigSuggestion) []]
  else []

def bootBlock : List Written :=
  match d.bootMethod with
  | .rockchipRkbin => d.rkbinBlock tables
  | .depthcharge => d.depthchargeBlock

/-- The lines of the device file. -/
def deviceLines : List Written := [
    .comment ("# devices/".toList ++ d.name ++ ".toml — generated by `boot2deb new-device`.".toList),
    .comment ("# Fill every `# TODO:` value below, then `boot2deb resolve ".toList ++ d.name ++
      "` (or the".toList),
    .comment "# recipe). The SoC layer supplies arch, dt_dir, and modules by inheritance.".toList,
    .assign 24 "description".toList (.string d.description) [],
    .assign 24 "soc".toList (.string d.soc.asStr)
      "                # -> arch, dt_dir, modules".toList,
    .assign 24 "boot_method".toList (.string d.bootMethod.asStr) [],
    .assign 24 "supported_boot_methods".toList (.strings [d.bootMethod.asStr]) []] ++
  d.ubootBlock ++ [
    .comment ("# TODO: verify this DTB path exists in the kernel tree ".toList ++
      "(unvalidated — fails at the kernel build).".toList),
    .assign 24 "kernel_dtb".toList (.string d.kernelDtbSuggestion) [],
    .comment ("# TODO: board-specific kconfig fragments, or [] for none. ".toList ++
      "Naming a fragment makes its file mandatory.".toList),
    .assign 24 "device_config_fragments".toList (.strings []) [],
    .assign 24 "supported_kernels".toList (.strings [d.kernel]) [],
    .assign 24 "default_kernel".toList (.string d.kernel) [],
    .assign 24 "supported_suites".toList (.strings [d.suite])
      "        # add each suite as you build it; [\"*\"] for any".toList,
    .assign 24 "default_suite".toList (.string d.suite) [],
    .assign 24 "default_layout".toList (.string d.layout.asStr)
      "               # combined | split".toList,
    .assign 24 "hostname".toList (.string d.hostname) [],
    .assign 24 "image_size".toList (.string d.imageSize) [],
    .comment "# Console keymap. Uncomment only if this board HAS a keyboard (a laptop); a".toList,
    .comment "# headless board leaves it unset. A table gives the model/variant/options too.".toList,
    .comment "#   keymap                = \"us\"".toList] ++
  d.bootBlock tables

/-- `device_toml`. -/
def deviceToml : Str := document tables (d.deviceLines tables)

def recipeLines : List Written := [
  .comment ("# recipes/".toList ++ d.name ++ ".toml — generated by `boot2deb new-device`.".toList),
  .comment "# Constraints only; the exact resolution is written to the sibling .lock by".toList,
  .comment ("# `boot2deb update ".toList ++ d.name ++ "`.".toList),
  .assign 11 "device".toList (.string d.name) [],
  .assign 11 "kernel".toList (.string d.kernel) [],
  .assign 11 "suite".toList (.string d.suite) [],
  .assign 11 "features".toList (.strings d.features) [],
  .assign 11 "layout".toList (.string d.layout.asStr) [],
  .assign 11 "image_size".toList (.string d.imageSize) []]

/-- `recipe_toml`. -/
def recipeToml : Option Str :=
  if d.emitRecipe then some (document tables d.recipeLines) else none

end Text

end DeviceScaffold

/-! ### Reading the files -/

section Fields
variable (rows : List (Str × Toml)) (key : Str)

def string? : Toml → Option Str
  | .string s => some s
  | _ => none

def strings? : Toml → Option (List Str)
  | .array items => items.mapM string?
  | _ => none

/-- A field that may be left out. -/
def optional {α : Type} (read : Toml → Option α) : Option (Option α) :=
  match lookup key rows with
  | some value => (read value).map some
  | none => some none

/-- A field that may not. -/
def required {α : Type} (read : Toml → Option α) : Option α := (lookup key rows).bind read

end Fields

def soc? (value : Toml) : Option Soc :=
  (string? value).bind fun s => [Soc.rk3588, .rk3576, .rk3566, .rk3288].find? fun x => x.asStr = s

def bootMethodOf (s : Str) : Option BootMethod :=
  [BootMethod.rockchipRkbin, .depthcharge].find? fun x => x.asStr = s

def layout? (value : Toml) : Option Layout :=
  (string? value).bind fun s => [Layout.combined, .split].find? fun x => x.asStr = s

structure DeviceDepthcharge where
  board : Str
  supportedBoards : List Str
  kpartSize : Option Str
deriving DecidableEq

/-- The fields of a `DeviceLayer` that a scaffold writes, or could. -/
structure DeviceLayer where
  description : Str
  soc : Soc
  bootMethod : BootMethod
  supportedBootMethods : List BootMethod
  ubootDefconfig : Option Str
  depthcharge : Option DeviceDepthcharge
  kernelDtb : Str
  deviceConfigFragments : List Str
  supportedKernels : List Str
  defaultKernel : Str
  supportedSuites : List Str
  defaultSuite : Str
  defaultLayout : Layout
  hostname : Str
  imageSize : Str
  rkbin : RkbinLayer
deriving DecidableEq

/-- A table with no field but these. -/
def fieldsOf (known : List String) : Toml → Option (List (Str × Toml))
  | .table rows => if rows.all fun row => known.any fun k => k.toList = row.1 then some rows else none
  | _ => none

def depthcharge? (value : Toml) : Option DeviceDepthcharge := do
  let rows ← fieldsOf ["board", "supported_boards", "kpart_size"] value
  let board ← required rows "board".toList string?
  let supportedBoards ← required rows "supported_boards".toList strings?
  let kpartSize ← optional rows "kpart_size".toList string?
  return ⟨board, supportedBoards, kpartSize⟩

def rkbin? (value : Toml) : Option RkbinLayer := do
  let rows ← fieldsOf ["atf", "tpl", "bl32", "upstream"] value
  let atf ← optional rows "atf".toList string?
  let tpl ← optional rows "tpl".toList string?
  let bl32 ← optional rows "bl32".toList string?
  return ⟨atf, tpl, bl32⟩

def DEVICE_FIELDS : List String :=
  ["extends", "description", "soc", "boot_method", "supported_boot_methods", "uboot_defconfig",
    "depthcharge", "kernel_dtb", "device_dts", "kernel_cmdline", "device_config_fragments",
    "device_patch_series", "device_kmods", "supported_kernels", "default_kernel",
    "supported_uboot_series", "default_uboot_series", "supported_suites", "default_suite",
    "default_layout", "hostname", "image_size", "keymap", "rkbin", "packages", "groups",
    "initramfs", "nonfree_firmware_packages", "exclude", "caveats", "extra_debs", "expect"]

/-- A device file as a `DeviceLayer`. -/
def deviceLayer (document : List (Str × Toml)) : Option DeviceLayer := do
  let rows ← fieldsOf DEVICE_FIELDS (.table document)
  let description ← required rows "description".toList string?
  let soc ← required rows "soc".toList soc?
  let bootMethod ← required rows "boot_method".toList fun v => (string? v).bind bootMethodOf
  let supportedBootMethods ← required rows "supported_boot_methods".toList fun v =>
    (strings? v).bind fun names => names.mapM bootMethodOf
  let ubootDefconfig ← optional rows "uboot_defconfig".toList string?
  let depthcharge ← optional rows "depthcharge".toList depthcharge?
  let kernelDtb ← required rows "kernel_dtb".toList string?
  let deviceConfigFragments ← required rows "device_config_fragments".toList strings?
  let supportedKernels ← required rows "supported_kernels".toList strings?
  let defaultKernel ← required rows "default_kernel".toList string?
  let supportedSuites ← required rows "supported_suites".toList strings?
  let defaultSuite ← required rows "default_suite".toList string?
  let defaultLayout ← required rows "default_layout".toList layout?
  let hostname ← required rows "hostname".toList string?
  let imageSize ← required rows "image_size".toList string?
  let rkbin ← optional rows "rkbin".toList rkbin?
  return ⟨description, soc, bootMethod, supportedBootMethods, ubootDefconfig, depthcharge, kernelDtb,
    deviceConfigFragments, supportedKernels, defaultKernel, supportedSuites, defaultSuite,
    defaultLayout, hostname, imageSize, rkbin.getD ⟨none, none, none⟩⟩

/-- The fields of a `Recipe` that a scaffold writes. -/
structure Recipe where
  device : Str
  kernel : Option Str
  suite : Option Str
  features : List Str
  layout : Option Layout
  imageSize : Option Str
deriving DecidableEq

def RECIPE_FIELDS : List String :=
  ["device", "deliverable", "kernel", "uboot_series", "board", "suite", "initramfs_generator",
    "features", "layout", "image_size", "locale", "locales_generate", "timezone", "ntp_servers",
    "keymap", "sudo", "first_boot_password_length", "ssh_authorized_keys", "groups",
    "data_volumes", "selftest_on_boot", "support"]

/-- A recipe file as a `Recipe`. -/
def recipe (document : List (Str × Toml)) : Option Recipe := do
  let rows ← fieldsOf RECIPE_FIELDS (.table document)
  let device ← required rows "device".toList string?
  let kernel ← optional rows "kernel".toList string?
  let suite ← optional rows "suite".toList string?
  let features ← optional rows "features".toList strings?
  let layout ← optional rows "layout".toList layout?
  let imageSize ← optional rows "image_size".toList string?
  return ⟨device, kernel, suite, features.getD [], layout, imageSize⟩

/-! ### What was asked for -/

/-- The board a scaffold asks for. -/
def DeviceScaffold.device (d : DeviceScaffold) : DeviceLayer where
  description := d.description
  soc := d.soc
  bootMethod := d.bootMethod
  supportedBootMethods := [d.bootMethod]
  ubootDefconfig :=
    if d.bootMethod = .rockchipRkbin then some d.ubootDefconfigSuggestion else none
  depthcharge :=
    if d.bootMethod = .depthcharge then some ⟨d.boardSuggestion, [d.boardSuggestion], none⟩ else none
  kernelDtb := d.kernelDtbSuggestion
  deviceConfigFragments := []
  supportedKernels := [d.kernel]
  defaultKernel := d.kernel
  supportedSuites := [d.suite]
  defaultSuite := d.suite
  defaultLayout := d.layout
  hostname := d.hostname
  imageSize := d.imageSize
  rkbin :=
    if d.bootMethod = .rockchipRkbin ∧ !d.socSuppliesBlobs then
      ⟨some d.atfSuggestion, some d.tplSuggestion, none⟩
    else ⟨none, none, none⟩

/-- The recipe it asks for. -/
def DeviceScaffold.recipe (d : DeviceScaffold) : Recipe :=
  ⟨d.name, some d.kernel, some d.suite, d.features, some d.layout, some d.imageSize⟩

/-- A device name `new-device` takes: a host name of small letters, digits and dashes. -/
def CheckedName (name : Str) : Prop :=
  Core.Hostname.check name = .ok () ∧
    name.all fun c => ('a' ≤ c && c ≤ 'z') || c.isDigit || c == '-'

/-- No string that is written for a value has a character the two grammars write apart. -/
structure DeviceScaffold.AllPlain (tables : CharTables) (d : DeviceScaffold) : Prop where
  description : PlainStr tables d.description
  kernel : PlainStr tables d.kernel
  suite : PlainStr tables d.suite
  hostname : PlainStr tables d.hostname
  imageSize : PlainStr tables d.imageSize
  dtDir : PlainStr tables d.dtDir
  blobs : d.bootMethod = .rockchipRkbin → d.socSuppliesBlobs = false →
    PlainStr tables d.atfSuggestion ∧ PlainStr tables d.tplSuggestion
  features : d.emitRecipe = true → ∀ f ∈ d.features, PlainStr tables f

/-! ### Names -/

variable {tables : CharTables} {d : DeviceScaffold}

/-- The characters of names and of what is written around them. -/
def isGraphic (c : Char) : Bool := 0x20 ≤ c.toNat && c.toNat < 0x7f

theorem plain_of_isGraphic {s : Str} (h : s.all isGraphic = true) : PlainStr tables s := by
  intro c hc
  have hgraphic := List.all_eq_true.mp h c hc
  rw [isGraphic, Bool.and_eq_true, decide_eq_true_eq, decide_eq_true_eq] at hgraphic
  exact plain_of_graphic hgraphic.1 hgraphic.2

theorem isText_of_isGraphic {s : Str} (h : s.all isGraphic = true) : s.all isText = true := by
  rw [List.all_eq_true] at h ⊢
  intro c hc
  have hgraphic := h c hc
  rw [isGraphic, Bool.and_eq_true, decide_eq_true_eq, decide_eq_true_eq] at hgraphic
  rw [isText, Bool.or_eq_true, Bool.and_eq_true, decide_eq_true_eq, decide_eq_true_eq]
  exact .inr ⟨hgraphic.1, by omega⟩

theorem isGraphic_name {name : Str} (h : CheckedName name) : name.all isGraphic = true := by
  rw [List.all_eq_true]
  intro c hc
  have hchar := List.all_eq_true.mp h.2 c hc
  rw [Bool.or_eq_true, Bool.or_eq_true, Bool.and_eq_true, decide_eq_true_eq, decide_eq_true_eq,
    beq_iff_eq, Char.isDigit_iff_toNat] at hchar
  rw [isGraphic, Bool.and_eq_true, decide_eq_true_eq, decide_eq_true_eq]
  have ha : 'a'.toNat = 97 := rfl
  have hz : 'z'.toNat = 122 := rfl
  have h0 : '0'.toNat = 48 := rfl
  have h9 : '9'.toNat = 57 := rfl
  rcases hchar with (⟨hlow, hhigh⟩ | hdigit) | rfl
  · have hlow : 'a'.toNat ≤ c.toNat := hlow
    have hhigh : c.toNat ≤ 'z'.toNat := hhigh
    omega
  · omega
  · decide

theorem isGraphic_soc (soc : Soc) : soc.asStr.all isGraphic = true := by
  cases soc <;> decide

theorem plain_soc (soc : Soc) : PlainStr tables soc.asStr := plain_of_isGraphic (isGraphic_soc soc)

theorem plain_bootMethod (b : BootMethod) : PlainStr tables b.asStr :=
  plain_of_isGraphic (by cases b <;> decide)

theorem plain_layout (l : Layout) : PlainStr tables l.asStr :=
  plain_of_isGraphic (by cases l <;> decide)

theorem plain_ubootDefconfig (h : CheckedName d.name) :
    PlainStr tables d.ubootDefconfigSuggestion := by
  refine plain_of_isGraphic ?_
  rw [DeviceScaffold.ubootDefconfigSuggestion, List.all_append, isGraphic_name h, List.all_cons,
    List.all_append, isGraphic_soc]
  decide

theorem plain_kernelDtb (h : CheckedName d.name) :
    PlainStr tables d.kernelDtbSuggestion ↔ PlainStr tables d.dtDir := by
  rw [DeviceScaffold.kernelDtbSuggestion, PlainStr.append]
  refine and_iff_left (plain_of_isGraphic ?_)
  rw [List.all_cons, List.all_append, isGraphic_soc, List.all_cons, List.all_append,
    isGraphic_name h]
  decide

/-! ### The lines fit -/

/-- A comment behind a hash. -/
theorem fits_comment {text : Str} (h : text.all isText = true) :
    (Written.comment ('#' :: text)).Fits := by
  refine ⟨?_, ?_⟩
  · have hskip : skipWs ('#' :: text) = '#' :: text := rfl
    rw [endsLine, hskip]
    exact Bool.and_eq_true_iff.mpr ⟨rfl, h⟩
  · rw [List.all_cons, h]
    rfl

/-- A comment around a name. -/
theorem fits_around {front name back : Str} (hfront : front.all isText = true)
    (hname : name.all isText = true) (hback : back.all isText = true) :
    (Written.comment ('#' :: front ++ name ++ back)).Fits := by
  refine @fits_comment (front ++ name ++ back) ?_
  rw [List.all_append, List.all_append, hfront, hname, hback]
  rfl

theorem fits_blank : (Written.comment []).Fits := by decide

/-! A literal is checked by its characters. The kernel would decode its bytes one by one. -/

theorem fits_rkbinBlock : ∀ w ∈ d.rkbinBlock tables, w.Fits := by
  have hsoc := isText_of_isGraphic (isGraphic_soc d.soc)
  rw [DeviceScaffold.rkbinBlock]
  split_ifs with hblobs
  · have htpl : (debugStr tables d.tplSuggestion).all isText = true :=
      List.all_eq_true.mpr fun c hc => isText_debugStr hc
    simp only [List.forall_mem_cons]
    repeat rw [String.toList_ofList]
    refine ⟨fits_blank, ?_, ?_, ?_, ?_, ?_, fun w hw => absurd hw List.not_mem_nil⟩
    · exact fits_around (by decide) hsoc (by decide)
    · decide
    · exact fits_around (by decide) hsoc (by decide)
    · decide
    · refine @fits_comment (_ ++ debugStr tables d.tplSuggestion) ?_
      rw [List.all_append, htpl]
      decide
  · simp only [List.forall_mem_cons]
    repeat rw [String.toList_ofList]
    refine ⟨fits_blank, ?_, ?_, ?_, ?_, ?_, fun w hw => absurd hw List.not_mem_nil⟩
    · decide
    · exact fits_around (by decide) hsoc (by decide)
    · decide
    · exact (show (Written.assign 4 ['a', 't', 'f'] (.string []) []).Fits by decide)
    · exact (show (Written.assign 4 ['t', 'p', 'l'] (.string []) []).Fits by decide)

/-- Whether a line fits does not depend on its value. -/
theorem fits_assign {width : ℕ} {key note : Str} {value : Authored}
    (h : (Written.assign width key (.string []) note).Fits) :
    (Written.assign width key value note).Fits := h

theorem fits_deviceLines (h : CheckedName d.name) : ∀ w ∈ d.deviceLines tables, w.Fits := by
  have hname := isText_of_isGraphic (isGraphic_name h)
  have huboot : ∀ w ∈ d.ubootBlock, w.Fits := by
    rw [DeviceScaffold.ubootBlock]
    split_ifs
    · simp only [List.forall_mem_cons]
      repeat rw [String.toList_ofList]
      refine ⟨fits_blank, by decide, fits_assign (by decide),
        fun w hw => absurd hw List.not_mem_nil⟩
    · exact fun w hw => absurd hw List.not_mem_nil
  have hboot : ∀ w ∈ d.bootBlock tables, w.Fits := by
    rw [DeviceScaffold.bootBlock]
    cases d.bootMethod with
    | rockchipRkbin => exact fits_rkbinBlock
    | depthcharge =>
      simp only [DeviceScaffold.depthchargeBlock, List.forall_mem_cons]
      repeat rw [String.toList_ofList]
      refine ⟨fits_blank, by decide, by decide, by decide,
        by decide, by decide, by decide, fits_assign (by decide),
        fits_assign (by decide), fun w hw => absurd hw List.not_mem_nil⟩
  rw [DeviceScaffold.deviceLines, List.forall_mem_append, List.forall_mem_append,
    List.forall_mem_append]
  refine ⟨⟨⟨?_, huboot⟩, ?_⟩, hboot⟩
  · simp only [List.forall_mem_cons]
    repeat rw [String.toList_ofList]
    refine ⟨?_, ?_, by decide, fits_assign (by decide),
      fits_assign (by decide), fits_assign (by decide),
      fits_assign (by decide), fun w hw => absurd hw List.not_mem_nil⟩
    · exact fits_around (by decide) hname (by decide)
    · exact fits_around (by decide) hname (by decide)
  · simp only [List.forall_mem_cons]
    repeat rw [String.toList_ofList]
    refine ⟨by decide, fits_assign (by decide), by decide,
      fits_assign (by decide), fits_assign (by decide),
      fits_assign (by decide), fits_assign (by decide),
      fits_assign (by decide), fits_assign (by decide),
      fits_assign (by decide), fits_assign (by decide), by decide,
      by decide, by decide, fun w hw => absurd hw List.not_mem_nil⟩

theorem fits_recipeLines (h : CheckedName d.name) : ∀ w ∈ d.recipeLines, w.Fits := by
  have hname := isText_of_isGraphic (isGraphic_name h)
  simp only [DeviceScaffold.recipeLines, List.forall_mem_cons]
  repeat rw [String.toList_ofList]
  refine ⟨?_, by decide, ?_, fits_assign (by decide), fits_assign (by decide),
    fits_assign (by decide), fits_assign (by decide),
    fits_assign (by decide), fits_assign (by decide),
    fun w hw => absurd hw List.not_mem_nil⟩
  · exact fits_around (by decide) hname (by decide)
  · exact fits_around (by decide) hname (by decide)

/-! ### The values that are written -/

theorem allPlain_deviceLines (h : CheckedName d.name) :
    TomlText.AllPlain tables (d.deviceLines tables) ↔
      PlainStr tables d.description ∧ PlainStr tables d.kernel ∧ PlainStr tables d.suite ∧
      PlainStr tables d.hostname ∧ PlainStr tables d.imageSize ∧ PlainStr tables d.dtDir ∧
      (d.bootMethod = .rockchipRkbin → d.socSuppliesBlobs = false →
        PlainStr tables d.atfSuggestion ∧ PlainStr tables d.tplSuggestion) := by
  have hsoc := @plain_soc tables d.soc
  have hmethod := @plain_bootMethod tables
  have hlayout := @plain_layout tables d.layout
  have huboot := @plain_ubootDefconfig tables d h
  have hboard : PlainStr tables d.boardSuggestion := plain_of_isGraphic (isGraphic_name h)
  cases hboot : d.bootMethod with
  | depthcharge =>
    simp only [TomlText.AllPlain, DeviceScaffold.deviceLines, DeviceScaffold.ubootBlock,
      DeviceScaffold.bootBlock, DeviceScaffold.depthchargeBlock, hboot, authored, reduceCtorEq,
      if_false, List.cons_append, List.nil_append, List.append_nil, List.forall_mem_cons,
      Authored.Plain, plain_kernelDtb h, hsoc, hmethod, hlayout, hboard, List.not_mem_nil,
      false_imp_iff, implies_true, true_and, and_true]
    tauto
  | rockchipRkbin =>
    cases hblobs : d.socSuppliesBlobs with
    | true =>
      simp only [TomlText.AllPlain, DeviceScaffold.deviceLines, DeviceScaffold.ubootBlock,
        DeviceScaffold.bootBlock, DeviceScaffold.rkbinBlock, hboot, hblobs, authored, reduceCtorEq,
        if_true, List.cons_append, List.nil_append, List.forall_mem_cons, Authored.Plain,
        plain_kernelDtb h, hsoc, hmethod, hlayout, huboot, List.not_mem_nil, false_imp_iff,
        implies_true, true_and, and_true]
      tauto
    | false =>
      simp only [TomlText.AllPlain, DeviceScaffold.deviceLines, DeviceScaffold.ubootBlock,
        DeviceScaffold.bootBlock, DeviceScaffold.rkbinBlock, hboot, hblobs, authored, if_true,
        if_false, Bool.false_eq_true, List.cons_append, List.nil_append, List.forall_mem_cons,
        Authored.Plain, plain_kernelDtb h, hsoc, hmethod, hlayout, huboot, List.not_mem_nil,
        false_imp_iff, implies_true, true_and, and_true, true_imp_iff]
      tauto

theorem allPlain_recipeLines (h : CheckedName d.name) : TomlText.AllPlain tables d.recipeLines ↔
    PlainStr tables d.kernel ∧ PlainStr tables d.suite ∧ PlainStr tables d.imageSize ∧
      ∀ f ∈ d.features, PlainStr tables f := by
  have hname : PlainStr tables d.name := plain_of_isGraphic (isGraphic_name h)
  have hlayout := @plain_layout tables d.layout
  simp only [TomlText.AllPlain, DeviceScaffold.recipeLines, authored, List.forall_mem_cons,
    Authored.Plain, hname, hlayout, List.not_mem_nil, false_imp_iff, implies_true, true_and,
    and_true]
  tauto

/-! ### Fields read back -/

theorem soc?_asStr (soc : Soc) : soc? (.string soc.asStr) = some soc := by
  cases soc <;> rfl

theorem bootMethodOf_asStr (b : BootMethod) : bootMethodOf b.asStr = some b := by
  cases b <;> rfl

theorem layout?_asStr (l : Layout) : layout? (.string l.asStr) = some l := by
  cases l <;> rfl

theorem strings?_map (ss : List Str) : strings? (.array (ss.map .string)) = some ss := by
  have hitems : ss.mapM (string? ∘ Toml.string) = some (ss.map id) :=
    mapM_eq_some_map fun _ _ => rfl
  rw [strings?, List.mapM_map, hitems, List.map_id]

/-- The names that are known, by their characters. -/
theorem known_toList (known : List String) :
    (fun key => known.any fun k => k.toList = key) =
      fun key => (known.map String.toList).any (· = key) := by
  funext key
  rw [List.any_map]
  rfl

/-- Fields that are known, by the keys alone. -/
theorem fieldsOf_rows {known : List String} {table : List (Str × Toml)}
    (h : (table.map Prod.fst).all (fun key => known.any fun k => k.toList = key) = true) :
    fieldsOf known (.table table) = some table := by
  rw [List.all_map] at h
  exact if_pos h

theorem recipe_rows : recipe (rows d.recipeLines) = some d.recipe := by
  have hkeys : (rows d.recipeLines).map Prod.fst = ["device".toList, "kernel".toList,
    "suite".toList, "features".toList, "layout".toList, "image_size".toList] := rfl
  have hfields : fieldsOf RECIPE_FIELDS (.table (rows d.recipeLines)) = some (rows d.recipeLines) :=
    fieldsOf_rows (by
      rw [hkeys, known_toList, RECIPE_FIELDS]
      simp only [List.map_cons, List.map_nil]
      repeat rw [String.toList_ofList]
      decide)
  have hdevice : required (rows d.recipeLines) "device".toList string? = some d.name := rfl
  have hkernel : optional (rows d.recipeLines) "kernel".toList string? = some (some d.kernel) := rfl
  have hsuite : optional (rows d.recipeLines) "suite".toList string? = some (some d.suite) := rfl
  have hfeatures : optional (rows d.recipeLines) "features".toList strings? =
      some (some d.features) := congrArg (Option.map some) (strings?_map d.features)
  have hlayout : optional (rows d.recipeLines) "layout".toList layout? = some (some d.layout) :=
    congrArg (Option.map some) (layout?_asStr d.layout)
  have hsize : optional (rows d.recipeLines) "image_size".toList string? =
      some (some d.imageSize) := rfl
  rw [recipe, hfields]
  simp only [Option.bind_eq_bind, Option.bind_some, hdevice, hkernel, hsuite, hfeatures, hlayout,
    hsize]
  rfl

theorem keysApart_recipeLines : KeysApart d.recipeLines := by
  have hkeys : (rows d.recipeLines).map Prod.fst = ["device".toList, "kernel".toList,
    "suite".toList, "features".toList, "layout".toList, "image_size".toList] := rfl
  have htop : (authored d.recipeLines).1.map Prod.fst = ["device".toList, "kernel".toList,
    "suite".toList, "features".toList, "layout".toList, "image_size".toList] := rfl
  refine ⟨?_, fun t ht => absurd ht List.not_mem_nil, ?_⟩
  · rw [htop]
    repeat rw [String.toList_ofList]
    decide
  · rw [hkeys]
    repeat rw [String.toList_ofList]
    decide

/-- The rows of the boot method. -/
def DeviceScaffold.bootRows (d : DeviceScaffold) : List (Str × Toml) :=
  match d.bootMethod with
  | .rockchipRkbin =>
    if d.socSuppliesBlobs then []
    else [("rkbin".toList, .table [("atf".toList, .string d.atfSuggestion),
      ("tpl".toList, .string d.tplSuggestion)])]
  | .depthcharge => [("depthcharge".toList, .table [("board".toList, .string d.boardSuggestion),
      ("supported_boards".toList, .array [.string d.boardSuggestion])])]

def DeviceScaffold.ubootRows (d : DeviceScaffold) : List (Str × Toml) :=
  match d.bootMethod with
  | .rockchipRkbin => [("uboot_defconfig".toList, .string d.ubootDefconfigSuggestion)]
  | .depthcharge => []

/-- The rows of a device file. -/
def DeviceScaffold.deviceRows (d : DeviceScaffold) : List (Str × Toml) := [
    ("description".toList, .string d.description),
    ("soc".toList, .string d.soc.asStr),
    ("boot_method".toList, .string d.bootMethod.asStr),
    ("supported_boot_methods".toList, .array [.string d.bootMethod.asStr])] ++
  d.ubootRows ++ [
    ("kernel_dtb".toList, .string d.kernelDtbSuggestion),
    ("device_config_fragments".toList, .array []),
    ("supported_kernels".toList, .array [.string d.kernel]),
    ("default_kernel".toList, .string d.kernel),
    ("supported_suites".toList, .array [.string d.suite]),
    ("default_suite".toList, .string d.suite),
    ("default_layout".toList, .string d.layout.asStr),
    ("hostname".toList, .string d.hostname),
    ("image_size".toList, .string d.imageSize)] ++ d.bootRows

theorem rows_deviceLines : rows (d.deviceLines tables) = d.deviceRows := by
  rw [DeviceScaffold.deviceRows, DeviceScaffold.ubootRows, DeviceScaffold.bootRows, rows,
    DeviceScaffold.deviceLines, DeviceScaffold.ubootBlock, DeviceScaffold.bootBlock]
  cases d.bootMethod with
  | depthcharge => rfl
  | rockchipRkbin =>
    simp only [DeviceScaffold.rkbinBlock]
    cases d.socSuppliesBlobs <;> rfl

/-- The keys of a device file. -/
def deviceKeys (method : BootMethod) (supplied : Bool) : List Str :=
  ["description".toList, "soc".toList, "boot_method".toList, "supported_boot_methods".toList] ++
    (if method = .rockchipRkbin then ["uboot_defconfig".toList] else []) ++
    ["kernel_dtb".toList, "device_config_fragments".toList, "supported_kernels".toList,
      "default_kernel".toList, "supported_suites".toList, "default_suite".toList,
      "default_layout".toList, "hostname".toList, "image_size".toList] ++
    (if method = .depthcharge then ["depthcharge".toList]
      else if supplied then [] else ["rkbin".toList])

theorem keys_deviceRows :
    d.deviceRows.map Prod.fst = deviceKeys d.bootMethod d.socSuppliesBlobs := by
  rw [DeviceScaffold.deviceRows, DeviceScaffold.ubootRows, DeviceScaffold.bootRows]
  cases d.bootMethod with
  | depthcharge => rfl
  | rockchipRkbin => cases d.socSuppliesBlobs <;> rfl

theorem nodup_deviceKeys (method : BootMethod) (supplied : Bool) :
    (deviceKeys method supplied).Nodup := by
  unfold deviceKeys
  repeat rw [String.toList_ofList]
  cases method <;> cases supplied <;> decide

theorem deviceKeys_known (method : BootMethod) (supplied : Bool) :
    (deviceKeys method supplied).all (fun key => DEVICE_FIELDS.any fun k => k.toList = key) =
      true := by
  rw [known_toList, deviceKeys, DEVICE_FIELDS]
  simp only [List.map_cons, List.map_nil]
  repeat rw [String.toList_ofList]
  cases method <;> cases supplied <;> decide

theorem keysApart_deviceLines : KeysApart (d.deviceLines tables) := by
  have hnodup : ((rows (d.deviceLines tables)).map Prod.fst).Nodup := by
    rw [rows_deviceLines, keys_deviceRows]
    exact nodup_deviceKeys _ _
  refine ⟨?_, ?_, hnodup⟩
  · rw [rows, List.map_append] at hnodup
    have htop := (List.nodup_append.mp hnodup).1
    rwa [tomlEntries, List.map_map] at htop
  · have hboards : ["board".toList, "supported_boards".toList].Nodup := by
      repeat rw [String.toList_ofList]
      decide
    have hblobs : ["atf".toList, "tpl".toList].Nodup := by
      repeat rw [String.toList_ofList]
      decide
    rw [DeviceScaffold.deviceLines, DeviceScaffold.ubootBlock, DeviceScaffold.bootBlock]
    intro t ht
    cases hboot : d.bootMethod with
    | depthcharge =>
      rw [hboot] at ht
      rw [List.mem_singleton.mp ht]
      exact hboards
    | rockchipRkbin =>
      simp only [hboot, DeviceScaffold.rkbinBlock] at ht
      cases hsupplied : d.socSuppliesBlobs with
      | true =>
        rw [hsupplied] at ht
        exact absurd ht List.not_mem_nil
      | false =>
        rw [hsupplied] at ht
        rw [List.mem_singleton.mp ht]
        exact hblobs

theorem depthcharge?_table (board : Str) :
    depthcharge? (.table [("board".toList, .string board),
      ("supported_boards".toList, .array [.string board])]) = some ⟨board, [board], none⟩ := rfl

theorem rkbin?_table (atf tpl : Str) :
    rkbin? (.table [("atf".toList, .string atf), ("tpl".toList, .string tpl)]) =
      some ⟨some atf, some tpl, none⟩ := rfl

/-- Where no key stands twice, a row is found by its key. -/
theorem lookup_of_mem {table : List (Str × Toml)} {key : Str} {value : Toml}
    (hkeys : (table.map Prod.fst).Nodup) (h : (key, value) ∈ table) :
    lookup key table = some value := by
  induction table with
  | nil => exact absurd h List.not_mem_nil
  | cons row table ih =>
    rw [List.map_cons, List.nodup_cons] at hkeys
    rw [lookup_cons]
    rcases List.mem_cons.mp h with rfl | h
    · exact if_pos rfl
    · have hne : row.1 ≠ key := fun heq => hkeys.1 (heq ▸ List.mem_map_of_mem h)
      rw [if_neg hne]
      exact ih hkeys.2 h

theorem lookup_deviceRows {key : Str} {value : Toml} (h : (key, value) ∈ d.deviceRows) :
    lookup key d.deviceRows = some value :=
  lookup_of_mem (by rw [keys_deviceRows]; exact nodup_deviceKeys _ _) h

theorem required_deviceRows {α : Type} {read : Toml → Option α} {key : Str} {value : Toml} {a : α}
    (h : (key, value) ∈ d.deviceRows) (hread : read value = some a) :
    required d.deviceRows key read = some a := by
  rw [required, lookup_deviceRows h, Option.bind_some, hread]

theorem mem_middle {row : Str × Toml} (h : row ∈ [
    ("kernel_dtb".toList, .string d.kernelDtbSuggestion),
    ("device_config_fragments".toList, .array []),
    ("supported_kernels".toList, .array [.string d.kernel]),
    ("default_kernel".toList, .string d.kernel),
    ("supported_suites".toList, .array [.string d.suite]),
    ("default_suite".toList, .string d.suite),
    ("default_layout".toList, .string d.layout.asStr),
    ("hostname".toList, .string d.hostname),
    ("image_size".toList, .string d.imageSize)]) : row ∈ d.deviceRows :=
  List.mem_append_left _ (List.mem_append_right _ h)

/-- The tables that only one of the methods has. -/
theorem method_rows :
    optional d.deviceRows "uboot_defconfig".toList string? = some d.device.ubootDefconfig ∧
      optional d.deviceRows "depthcharge".toList depthcharge? = some d.device.depthcharge ∧
      (optional d.deviceRows "rkbin".toList rkbin?).map (Option.getD · ⟨none, none, none⟩) =
        some d.device.rkbin := by
  rw [DeviceScaffold.device, DeviceScaffold.deviceRows, DeviceScaffold.ubootRows,
    DeviceScaffold.bootRows]
  cases d.bootMethod with
  | depthcharge => exact ⟨rfl, rfl, rfl⟩
  | rockchipRkbin => cases d.socSuppliesBlobs <;> exact ⟨rfl, rfl, rfl⟩

theorem device_rows : deviceLayer d.deviceRows = some d.device := by
  have hfields : fieldsOf DEVICE_FIELDS (.table d.deviceRows) = some d.deviceRows :=
    fieldsOf_rows (by rw [keys_deviceRows]; exact deviceKeys_known _ _)
  have hdescription : required d.deviceRows "description".toList string? = some d.description := rfl
  have hsoc : required d.deviceRows "soc".toList soc? = some d.soc := soc?_asStr d.soc
  have hmethod : required d.deviceRows "boot_method".toList
      (fun v => (string? v).bind bootMethodOf) = some d.bootMethod := bootMethodOf_asStr d.bootMethod
  have hmethods : required d.deviceRows "supported_boot_methods".toList
      (fun v => (strings? v).bind fun names => names.mapM bootMethodOf) = some [d.bootMethod] := by
    change [d.bootMethod.asStr].mapM bootMethodOf = _
    rw [List.mapM_cons, bootMethodOf_asStr]
    rfl
  have hdtb : required d.deviceRows "kernel_dtb".toList string? = some d.kernelDtbSuggestion :=
    required_deviceRows (mem_middle (List.mem_of_getElem? (i := 0) rfl)) rfl
  have hfragments : required d.deviceRows "device_config_fragments".toList strings? = some [] :=
    required_deviceRows (mem_middle (List.mem_of_getElem? (i := 1) rfl)) rfl
  have hkernels : required d.deviceRows "supported_kernels".toList strings? = some [d.kernel] :=
    required_deviceRows (mem_middle (List.mem_of_getElem? (i := 2) rfl)) rfl
  have hkernel : required d.deviceRows "default_kernel".toList string? = some d.kernel :=
    required_deviceRows (mem_middle (List.mem_of_getElem? (i := 3) rfl)) rfl
  have hsuites : required d.deviceRows "supported_suites".toList strings? = some [d.suite] :=
    required_deviceRows (mem_middle (List.mem_of_getElem? (i := 4) rfl)) rfl
  have hsuite : required d.deviceRows "default_suite".toList string? = some d.suite :=
    required_deviceRows (mem_middle (List.mem_of_getElem? (i := 5) rfl)) rfl
  have hlayout : required d.deviceRows "default_layout".toList layout? = some d.layout :=
    required_deviceRows (mem_middle (List.mem_of_getElem? (i := 6) rfl)) (layout?_asStr d.layout)
  have hhostname : required d.deviceRows "hostname".toList string? = some d.hostname :=
    required_deviceRows (mem_middle (List.mem_of_getElem? (i := 7) rfl)) rfl
  have hsize : required d.deviceRows "image_size".toList string? = some d.imageSize :=
    required_deviceRows (mem_middle (List.mem_of_getElem? (i := 8) rfl)) rfl
  obtain ⟨huboot, hdepthcharge, hrkbin⟩ := @method_rows d
  obtain ⟨rkbin, hrkbin, hgiven⟩ := Option.map_eq_some_iff.mp hrkbin
  rw [deviceLayer, hfields]
  refine Option.bind_eq_some_iff.mpr ⟨_, rfl, ?_⟩
  refine Option.bind_eq_some_iff.mpr ⟨_, hdescription, ?_⟩
  refine Option.bind_eq_some_iff.mpr ⟨_, hsoc, ?_⟩
  refine Option.bind_eq_some_iff.mpr ⟨_, hmethod, ?_⟩
  refine Option.bind_eq_some_iff.mpr ⟨_, hmethods, ?_⟩
  refine Option.bind_eq_some_iff.mpr ⟨_, huboot, ?_⟩
  refine Option.bind_eq_some_iff.mpr ⟨_, hdepthcharge, ?_⟩
  refine Option.bind_eq_some_iff.mpr ⟨_, hdtb, ?_⟩
  refine Option.bind_eq_some_iff.mpr ⟨_, hfragments, ?_⟩
  refine Option.bind_eq_some_iff.mpr ⟨_, hkernels, ?_⟩
  refine Option.bind_eq_some_iff.mpr ⟨_, hkernel, ?_⟩
  refine Option.bind_eq_some_iff.mpr ⟨_, hsuites, ?_⟩
  refine Option.bind_eq_some_iff.mpr ⟨_, hsuite, ?_⟩
  refine Option.bind_eq_some_iff.mpr ⟨_, hlayout, ?_⟩
  refine Option.bind_eq_some_iff.mpr ⟨_, hhostname, ?_⟩
  refine Option.bind_eq_some_iff.mpr ⟨_, hsize, ?_⟩
  refine Option.bind_eq_some_iff.mpr ⟨_, hrkbin, ?_⟩
  rw [hgiven]
  rfl

/-! ### The board that is read back -/

/-- The files of a scaffold are read as what was asked for. -/
def DeviceScaffold.ReadsBack (tables : CharTables) (reader : Reader) (d : DeviceScaffold) : Prop :=
  (reader.fromStr (d.deviceToml tables)).bind deviceLayer = some d.device ∧
    ∀ text, d.recipeToml tables = some text →
      (reader.fromStr text).bind Scaffold.recipe = some d.recipe

theorem device_reads_iff (reader : Reader) (hname : CheckedName d.name) :
    (reader.fromStr (d.deviceToml tables)).bind deviceLayer = some d.device ↔
      TomlText.AllPlain tables (d.deviceLines tables) := by
  by_cases hplain : TomlText.AllPlain tables (d.deviceLines tables)
  · refine iff_of_true ?_ hplain
    rw [DeviceScaffold.deviceToml,
      fromStr_document reader (fits_deviceLines hname) keysApart_deviceLines hplain,
      rows_deviceLines]
    exact device_rows
  · refine iff_of_false ?_ hplain
    rw [DeviceScaffold.deviceToml, fromStr_document_none reader (fits_deviceLines hname) hplain]
    exact fun h => (nomatch h)

theorem recipe_reads_iff (reader : Reader) (hname : CheckedName d.name) :
    (∀ text, d.recipeToml tables = some text → (reader.fromStr text).bind recipe = some d.recipe) ↔
      (d.emitRecipe = true → TomlText.AllPlain tables d.recipeLines) := by
  rw [DeviceScaffold.recipeToml]
  cases d.emitRecipe with
  | false => simp
  | true =>
    simp only [if_true, Option.some.injEq, forall_eq', true_imp_iff]
    by_cases hplain : TomlText.AllPlain tables d.recipeLines
    · refine iff_of_true ?_ hplain
      rw [fromStr_document reader (fits_recipeLines hname) keysApart_recipeLines hplain]
      exact recipe_rows
    · refine iff_of_false ?_ hplain
      rw [fromStr_document_none reader (fits_recipeLines hname) hplain]
      exact fun h => (nomatch h)

/-- A board is read back as it was asked for exactly if its strings are plain. -/
theorem readsBack_iff (tables : CharTables) (reader : Reader) (d : DeviceScaffold)
    (hname : CheckedName d.name) : d.ReadsBack tables reader ↔ d.AllPlain tables := by
  rw [DeviceScaffold.ReadsBack, device_reads_iff reader hname, recipe_reads_iff reader hname,
    allPlain_deviceLines hname, allPlain_recipeLines hname]
  constructor
  · rintro ⟨⟨hdescription, hkernel, hsuite, hhostname, hsize, hdt, hblobs⟩, hrecipe⟩
    exact ⟨hdescription, hkernel, hsuite, hhostname, hsize, hdt, hblobs,
      fun hemit => (hrecipe hemit).2.2.2⟩
  · intro h
    exact ⟨⟨h.description, h.kernel, h.suite, h.hostname, h.imageSize, h.dtDir, h.blobs⟩,
      fun hemit => ⟨h.kernel, h.suite, h.imageSize, h.features hemit⟩⟩

/-- Tables that know of Latin and its combining marks. -/
def latinTables : CharTables where
  printable c := 0x20 ≤ c.toNat && c.toNat ≠ 0x7f
  graphemeExtended c := 0x300 ≤ c.toNat && c.toNat ≤ 0x36f
  graphic c hlow hhigh := by simp; omega
  control c h := by simp; omega

/-- The reader that knows nothing but this part of the grammar. -/
def fragmentReader : Reader := ⟨fun text => (scan text).bind meaning, fun _ _ h => by rw [h]; rfl⟩

/-- A board of one of the rk3588 with this description. -/
def rockBoard (description : Str) : DeviceScaffold where
  name := "rock-5b".toList
  description := description
  soc := .rk3588
  bootMethod := .rockchipRkbin
  kernel := "mainline-6.18".toList
  suite := "trixie".toList
  layout := .combined
  hostname := "rock-5b".toList
  imageSize := "4G".toList
  dtDir := "rockchip".toList
  socRkbin := ⟨none, none, none⟩
  features := ["ssh".toList]
  emitRecipe := true

theorem rockBoard_readsBack :
    (rockBoard "Radxa \"ROCK\" 5B".toList).ReadsBack latinTables fragmentReader :=
  (readsBack_iff latinTables fragmentReader _ ⟨by decide +kernel, by decide +kernel⟩).mpr
    { description := by decide +kernel
      kernel := by decide +kernel
      suite := by decide +kernel
      hostname := by decide +kernel
      imageSize := by decide +kernel
      dtDir := by decide +kernel
      blobs := fun _ _ => by decide +kernel
      features := fun _ => by decide +kernel }

/-- A combining accent is written by its number in braces, which TOML does not know. -/
theorem accent_not_read : ¬∀ (tables : CharTables) (reader : Reader) (d : DeviceScaffold),
    CheckedName d.name → d.ReadsBack tables reader := by
  intro h
  have hread := (h latinTables fragmentReader (rockBoard "Cafe\u0301".toList)
    ⟨by decide +kernel, by decide +kernel⟩).1
  rw [device_reads_iff fragmentReader ⟨by decide +kernel, by decide +kernel⟩,
    allPlain_deviceLines ⟨by decide +kernel, by decide +kernel⟩] at hread
  exact absurd hread.1 (by decide +kernel)

end Boot2Deb.Config.Scaffold
