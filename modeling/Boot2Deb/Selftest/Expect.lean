import Mathlib
import Boot2Deb.Config.BuildPoint
import Boot2Deb.Rust.Lines

/-!
# Selftest expectations (`core/src/expect.rs`)

An `[[expect]]` table is checked and turned into an `Expectation`; the expectations of a layer are
written out as the lines of a `.checks` file. Every error is the text the loader shows.
-/

namespace Boot2Deb.Selftest
open Rust

/-- The kinds only the build emits. -/
def derivedKinds : List String :=
  ["kernel-release", "kernel-flavor", "single-kernel", "initramfs-module"]

inductive Expectation where
  | file (path : Str)
  | dtb (path : Str)
  | firmware (path : Str)
  | driverBound (device driver : Str)
  | devnode (path : Str)
  | soundCard (name : Str)
  | noDmesgMatch (pattern : Str)
deriving DecidableEq

/-- One `[[expect]]` table as authored. -/
structure ExpectRaw where
  check : String
  path : Option Str
  device : Option Str
  driver : Option Str
  name : Option Str
  pattern : Option Str

/-- `format!("{kind:<17} {args}")` without the white space behind it. -/
def renderLine (kind args : Str) : Str :=
  trimEnd (kind ++ List.replicate (17 - kind.length) ' ' ++ ' ' :: args)

/-! ### Shape rules -/

/-- `'<value>'` between two texts. -/
def quoting (before : Str) (value : Str) (behind : String) : Str :=
  before ++ " '".toList ++ value ++ "' ".toList ++ behind.toList

def word (what : Str) (value : Str) : Outcome Str Unit :=
  if value.isEmpty || value.any isWhitespace then
    .err (quoting what value "must be a single non-empty word (no whitespace)")
  else .ok ()

def line (what : Str) (value : Str) : Outcome Str Unit :=
  if value.isEmpty || value.contains '\n' || value ≠ trim value then
    .err (quoting what value "must be a single trimmed non-empty line")
  else .ok ()

def noParent (kind path : Str) : Outcome Str Unit :=
  if (path.splitOn '/').any (· = "..".toList) then
    .err (quoting (kind ++ " path".toList) path "must not contain '..'")
  else .ok ()

def absolutePath (kind path : Str) : Outcome Str Unit := do
  if path.head? ≠ some '/' then
    .err (quoting (kind ++ " path".toList) path "must be absolute")
  else
    word (kind ++ " path".toList) path
    noParent kind path

def relativePath (kind path : Str) : Outcome Str Unit := do
  if path.isEmpty || path.head? = some '/' then
    .err (quoting (kind ++ " path".toList) path "must be relative and non-empty")
  else
    word (kind ++ " path".toList) path
    noParent kind path

namespace Expectation

/-- The kind as the `.checks` grammar spells it. -/
def kind : Expectation → Str
  | file _ => "file".toList
  | dtb _ => "dtb".toList
  | firmware _ => "firmware".toList
  | driverBound .. => "driver-bound".toList
  | devnode _ => "devnode".toList
  | soundCard _ => "sound-card".toList
  | noDmesgMatch _ => "no-dmesg-match".toList

/-- The argument text of the line. -/
def args : Expectation → Str
  | file path | dtb path | firmware path | devnode path => path
  | driverBound device driver => device ++ ' ' :: driver
  | soundCard name => name
  | noDmesgMatch pattern => pattern

def render (e : Expectation) : Str := renderLine e.kind e.args

def validate (e : Expectation) : Outcome Str Unit :=
  match e with
  | file path => absolutePath e.kind path
  | devnode path => do
    absolutePath e.kind path
    if "/dev/".toList <+: path then .ok ()
    else .err (quoting "devnode path".toList path "must start with /dev/")
  | dtb path => do
    relativePath e.kind path
    if ".dtb".toList <:+ path then .ok ()
    else .err (quoting "dtb path".toList path "must end in .dtb")
  | firmware path => relativePath e.kind path
  | driverBound device driver => do
    word "driver-bound device".toList device
    word "driver-bound driver".toList driver
  | soundCard name => line "sound-card name".toList name
  | noDmesgMatch pattern => line "no-dmesg-match pattern".toList pattern

end Expectation

namespace ExpectRaw

/-- The fields a table sets. -/
def provided (raw : ExpectRaw) : List String :=
  [raw.path.map fun _ => "path", raw.device.map fun _ => "device",
    raw.driver.map fun _ => "driver", raw.name.map fun _ => "name",
    raw.pattern.map fun _ => "pattern"].reduceOption

/-- The fields a kind takes. -/
def takes (check : String) : Outcome Str (List String) :=
  match check with
  | "file" | "dtb" | "firmware" | "devnode" => .ok ["path"]
  | "driver-bound" => .ok ["device", "driver"]
  | "sound-card" => .ok ["name"]
  | "no-dmesg-match" => .ok ["pattern"]
  | other =>
    if derivedKinds.contains other then
      .err (quoting "check kind".toList other.toList
        "is derived by the build and cannot be authored")
    else
      .err (quoting "unknown check kind".toList other.toList
        "(known: file, dtb, firmware, driver-bound, devnode, sound-card, no-dmesg-match)")

def take (raw : ExpectRaw) (field : String) (value : Option Str) : Outcome Str Str :=
  Outcome.okOr value
    ("check = \"".toList ++ raw.check.toList ++ "\" requires `".toList ++ field.toList ++
      "`".toList)

/-- The expectation of a table whose kind and fields are admitted. -/
def construct (raw : ExpectRaw) : Outcome Str Expectation :=
  match raw.check with
  | "file" => do .ok (.file (← raw.take "path" raw.path))
  | "dtb" => do .ok (.dtb (← raw.take "path" raw.path))
  | "firmware" => do .ok (.firmware (← raw.take "path" raw.path))
  | "driver-bound" => do
    let device ← raw.take "device" raw.device
    let driver ← raw.take "driver" raw.driver
    .ok (.driverBound device driver)
  | "devnode" => do .ok (.devnode (← raw.take "path" raw.path))
  | "sound-card" => do .ok (.soundCard (← raw.take "name" raw.name))
  | "no-dmesg-match" => do .ok (.noDmesgMatch (← raw.take "pattern" raw.pattern))
  | _ => .panic

/-- `Expectation::try_from`. -/
def tryFrom (raw : ExpectRaw) : Outcome Str Expectation := do
  let takes ← takes raw.check
  match raw.provided.find? (!takes.contains ·) with
  | some extra =>
    .err ("check = \"".toList ++ raw.check.toList ++ "\" does not take `".toList ++
      extra.toList ++ "` (it takes ".toList ++ join ", ".toList (takes.map String.toList) ++
      ")".toList)
  | none => do
    let expect ← raw.construct
    expect.validate
    .ok expect

end ExpectRaw

/-- Which config layer declared a group. -/
inductive ExpectScope where
  | soc | bootMethod | device | kernel | feature | kmod
deriving DecidableEq

def ExpectScope.asStr : ExpectScope → Str
  | soc => "soc".toList
  | bootMethod => "boot-method".toList
  | device => "device".toList
  | kernel => "kernel".toList
  | feature => "feature".toList
  | kmod => "kmod".toList

/-- One layer's expectations. -/
structure ExpectationGroup where
  scope : ExpectScope
  name : Str
  expect : List Expectation

namespace ExpectationGroup

/-- `<scope>-<name>.checks`. -/
def fileName (g : ExpectationGroup) : Str := g.scope.asStr ++ '-' :: g.name ++ ".checks".toList

/-- The two lines a file starts with. -/
def header (g : ExpectationGroup) : List Str :=
  ["# Expectations declared by the ".toList ++ g.scope.asStr ++ " layer '".toList ++ g.name ++
      "'.".toList,
    "# Run by boot2deb-selftest; see the boot2deb manual (reference/self-test).".toList]

def render (g : ExpectationGroup) : Str := unlines (g.header ++ g.expect.map Expectation.render)

/-- What the loader accepts: the layer is a config file's stem, every table was converted. -/
def Accepted (g : ExpectationGroup) : Prop :=
  Config.isBareName g.name ∧ ∀ e ∈ g.expect, ∃ raw : ExpectRaw, raw.tryFrom = .ok e

end ExpectationGroup

/-! ### What an accepted expectation holds -/

/-- A text that stands on a line of its own and loses nothing to trimming. -/
structure OnLine (s : Str) : Prop where
  ne_nil : s ≠ []
  newline : '\n' ∉ s
  trimmed : trim s = s

/-- A word of the grammar. -/
structure IsWord (s : Str) : Prop where
  ne_nil : s ≠ []
  solid : ∀ c ∈ s, isWhitespace c = false

variable {s t what kind path : Str}

theorem word_eq_ok : word what s = .ok () ↔ IsWord s := by
  unfold word
  split_ifs with h
  · refine ⟨nofun, fun hs => ?_⟩
    rw [Bool.or_eq_true, List.isEmpty_iff, List.any_eq_true] at h
    rcases h with h | ⟨c, hc, hw⟩
    · exact absurd h hs.ne_nil
    · rw [hs.solid c hc] at hw
      cases hw
  · rw [Bool.or_eq_true, not_or, List.isEmpty_iff, List.any_eq_true] at h
    refine ⟨fun _ => ⟨h.1, fun c hc => ?_⟩, fun _ => rfl⟩
    exact Bool.eq_false_iff.mpr fun hw => h.2 ⟨c, hc, hw⟩

theorem line_eq_ok : line what s = .ok () ↔ OnLine s := by
  unfold line
  split_ifs with h
  · refine ⟨nofun, fun hs => ?_⟩
    rw [Bool.or_eq_true, Bool.or_eq_true, List.isEmpty_iff, List.contains_iff_mem,
      decide_eq_true_iff] at h
    rcases h with (h | h) | h
    · exact absurd h hs.ne_nil
    · exact absurd h hs.newline
    · exact absurd hs.trimmed.symm h
  · rw [Bool.or_eq_true, Bool.or_eq_true, not_or, not_or, List.isEmpty_iff,
      List.contains_iff_mem, decide_eq_true_iff, not_not] at h
    exact ⟨fun _ => ⟨h.1.1, h.1.2, h.2.symm⟩, fun _ => rfl⟩

/-- A text without white space at its ends loses nothing to trimming. -/
theorem trim_of_ends (hne : s ≠ []) (hhead : isWhitespace (s.head hne) = false)
    (hlast : isWhitespace (s.getLast hne) = false) : trim s = s := by
  have hstart : trimStart s = s := by
    obtain ⟨c, rest, rfl⟩ := List.exists_cons_of_ne_nil hne
    exact List.dropWhile_cons_of_neg (by simpa using hhead)
  unfold trim
  rw [hstart]
  exact List.rdropWhile_eq_self_iff.mpr fun _ => by simpa using hlast

theorem IsWord.onLine (h : IsWord s) : OnLine s where
  ne_nil := h.ne_nil
  newline hc := by simpa [isWhitespace] using h.solid _ hc
  trimmed := trim_of_ends h.ne_nil (h.solid _ (List.head_mem _)) (h.solid _ (List.getLast_mem _))

theorem IsWord.onLine_two (hs : IsWord s) (ht : IsWord t) : OnLine (s ++ ' ' :: t) where
  ne_nil := by simp
  newline hc := by
    rcases List.mem_append.mp hc with hc | hc
    · exact hs.onLine.newline hc
    · rcases List.mem_cons.mp hc with hc | hc
      · exact absurd hc (by decide)
      · exact ht.onLine.newline hc
  trimmed := by
    refine trim_of_ends (by simp) ?_ ?_
    · rw [List.head_append_of_ne_nil hs.ne_nil]
      exact hs.solid _ (List.head_mem _)
    · rw [List.getLast_append_of_ne_nil (by simp) (by simp), List.getLast_cons ht.ne_nil]
      exact ht.solid _ (List.getLast_mem _)

theorem isWord_of_absolutePath (h : absolutePath kind path = .ok ()) : IsWord path := by
  unfold absolutePath at h
  split_ifs at h
  obtain ⟨_, hword, _⟩ := Outcome.bind_eq_ok.mp h
  exact word_eq_ok.mp hword

theorem isWord_of_relativePath (h : relativePath kind path = .ok ()) : IsWord path := by
  unfold relativePath at h
  split_ifs at h
  obtain ⟨_, hword, _⟩ := Outcome.bind_eq_ok.mp h
  exact word_eq_ok.mp hword

theorem ExpectRaw.validate_of_tryFrom {raw : ExpectRaw} {e : Expectation}
    (h : raw.tryFrom = .ok e) : e.validate = .ok () := by
  obtain ⟨takes, _, h⟩ := Outcome.bind_eq_ok.mp h
  split at h
  · cases h
  · obtain ⟨expect, _, h⟩ := Outcome.bind_eq_ok.mp h
    obtain ⟨_, hvalid, h⟩ := Outcome.bind_eq_ok.mp h
    obtain rfl := Outcome.ok.inj h
    exact hvalid

namespace Expectation
variable {e : Expectation}

/-- The words of a `driver-bound` check. -/
theorem isWord_of_driverBound {device driver : Str}
    (h : (driverBound device driver).validate = .ok ()) : IsWord device ∧ IsWord driver := by
  obtain ⟨_, hdevice, hdriver⟩ := Outcome.bind_eq_ok.mp h
  exact ⟨word_eq_ok.mp hdevice, word_eq_ok.mp hdriver⟩

/-- The paths of the kinds that take one are words. -/
theorem isWord_of_path {path : Str} (h : e.validate = .ok ())
    (he : e = file path ∨ e = dtb path ∨ e = firmware path ∨ e = devnode path) : IsWord path := by
  rcases he with rfl | rfl | rfl | rfl
  · exact isWord_of_absolutePath h
  · obtain ⟨_, h, _⟩ := Outcome.bind_eq_ok.mp h
    exact isWord_of_relativePath h
  · exact isWord_of_relativePath h
  · obtain ⟨_, h, _⟩ := Outcome.bind_eq_ok.mp h
    exact isWord_of_absolutePath h

theorem onLine_args (h : e.validate = .ok ()) : OnLine e.args := by
  cases e with
  | file path => exact (isWord_of_path h (Or.inl rfl)).onLine
  | dtb path => exact (isWord_of_path h (Or.inr (Or.inl rfl))).onLine
  | firmware path => exact (isWord_of_path h (Or.inr (Or.inr (Or.inl rfl)))).onLine
  | driverBound device driver =>
    obtain ⟨hdevice, hdriver⟩ := isWord_of_driverBound h
    exact hdevice.onLine_two hdriver
  | devnode path => exact (isWord_of_path h (Or.inr (Or.inr (Or.inr rfl)))).onLine
  | soundCard name => exact line_eq_ok.mp h
  | noDmesgMatch pattern => exact line_eq_ok.mp h

end Expectation

/-- Nothing of a line is trimmed where its arguments stand on a line. -/
theorem renderLine_eq (h : OnLine s) :
    renderLine kind s = kind ++ List.replicate (17 - kind.length) ' ' ++ ' ' :: s := by
  refine List.rdropWhile_eq_self_iff.mpr fun hl => ?_
  have hlast : isWhitespace (s.getLast h.ne_nil) = false := by
    have hend : trimEnd s = s := by
      rw [← h.trimmed]
      exact trimEnd_trimEnd
    simpa using List.rdropWhile_eq_self_iff.mp hend h.ne_nil
  rw [List.getLast_append_of_ne_nil (by simp) (by simp), List.getLast_cons h.ne_nil, hlast]
  exact Bool.false_ne_true

end Boot2Deb.Selftest
