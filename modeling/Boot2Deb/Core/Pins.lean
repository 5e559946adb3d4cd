import Mathlib
import Boot2Deb.Core.PinChanges

/-!
# The pins behind the rows

A pin of a lock is what it pins (its axis), what its row shows of it, and what no row shows. No
change reported means that two locks pin the same exactly if no two rows share a label, no two
commits or digests share the characters shown, and what no row shows did not move alone:
`complete_iff`.
-/

namespace Boot2Deb.Core

open Rust

/-- The axes with a label of their own. -/
inductive Fixed where
  | kernel
  | patches
  | uboot
  | ubootPatches
  | suite
  | ffmpeg
  | ffmpegRk
  | blobAtf
  | blobTpl
  | blobBl32
deriving DecidableEq

def Fixed.label : Fixed → Str
  | .kernel => "kernel".toList
  | .patches => "patches".toList
  | .uboot => "u-boot".toList
  | .ubootPatches => "u-boot patches".toList
  | .suite => "suite".toList
  | .ffmpeg => "ffmpeg".toList
  | .ffmpegRk => "ffmpeg-rk".toList
  | .blobAtf => "blob atf".toList
  | .blobTpl => "blob tpl".toList
  | .blobBl32 => "blob bl32".toList

/-- What an app pins beside its tree. -/
inductive AppPart where
  | patches
  | packaging
  | sdk
  | nuget
deriving DecidableEq

def AppPart.suffix : AppPart → Str
  | .patches => " patches".toList
  | .packaging => " packaging".toList
  | .sdk => " sdk".toList
  | .nuget => " nuget".toList

/-- What a pin pins. -/
inductive Axis where
  | fixed (f : Fixed)
  | userspace (name : Str)
  | kmod (name : Str)
  | app (name : Str)
  | appPart (name : Str) (part : AppPart)
  | extraDeb (locator : Str)
deriving DecidableEq

def Axis.label : Axis → Str
  | .fixed f => f.label
  | .userspace name => name
  | .kmod name => "kmod ".toList ++ name
  | .app name => "app ".toList ++ name
  | .appPart name part => "app ".toList ++ name ++ part.suffix
  | .extraDeb locator => "extra deb ".toList ++ locator

/-- The part of a pin that its row shows. -/
inductive Shown where
  | absent
  | git (reference : Str) (commit : Commit)
  | text (s : Str)
  | digest (d : Str)
deriving DecidableEq

def Shown.row : Shown → Option Str
  | .absent => none
  | .git reference commit => some (Core.git reference commit)
  | .text s => some s
  | .digest d => some (short d)

/-- The commit or the digest the row shortens. -/
def Shown.digest? : Shown → Option Str
  | .git _ commit => some commit.text
  | .digest d => some d
  | _ => none

/-- The part of a pin that no row shows. -/
inductive Hidden where
  | nothing
  | source (source : Str)
  | kernel (id source : Str)
  | series (series : List Str) (source : Str)
  | rootfs (distro manifest : Str) (manifestSha256 : Option Str)
  | sdk (sha512 : List (Str × Str))
  | nuget (manifest : Str)
  | extraDeb (url path : Option Str) (targets : List ExtraDebTarget)
deriving DecidableEq

structure Pin where
  axis : Axis
  shown : Shown
  hidden : Hidden
deriving DecidableEq

def Pin.row (p : Pin) : AxisPin := (p.axis.label, p.shown.row)

/-- The pin of an axis that a lock may leave out. -/
def optional {α : Type} (f : Fixed) (shown : α → Shown) (hidden : α → Hidden) : Option α → Pin
  | some a => ⟨.fixed f, shown a, hidden a⟩
  | none => ⟨.fixed f, .absent, .nothing⟩

theorem axis_optional {α : Type} {f : Fixed} {shown : α → Shown} {hidden : α → Hidden}
    {x : Option α} : (optional f shown hidden x).axis = .fixed f := by
  cases x <;> rfl

def patchesPin (axis : Axis) (p : PatchesPin) : Pin :=
  ⟨axis, .git p.reference p.commit, .series p.series p.source⟩

def gitPin (axis : Axis) (p : GitPin) : Pin := ⟨axis, .git p.reference p.commit, .source p.source⟩

/-- The pins of one app. -/
def appPins (a : AppPin) : List Pin :=
  ⟨.app a.name, .git a.reference a.commit, .source a.source⟩ ::
  ((match a.patches with
    | some p => [patchesPin (.appPart a.name .patches) p]
    | none => []) ++
  match a.dotnet with
    | some d => [
        gitPin (.appPart a.name .packaging) d.packaging,
        ⟨.appPart a.name .sdk, .text d.sdk.version, .sdk d.sdk.sha512⟩,
        ⟨.appPart a.name .nuget, .digest d.nuget.manifestSha256, .nuget d.nuget.manifest⟩]
    | none => [])

/-- The pins every lock has, if only as absent. -/
def basePins (lock : Lock) : List Pin :=
  [ optional .kernel (fun k => .git k.reference k.commit) (fun k => .kernel k.id k.source)
      lock.kernel,
    optional .patches (fun p => .git p.reference p.commit) (fun p => .series p.series p.source)
      lock.patches,
    optional .uboot (fun u => .git u.reference u.commit) (fun u => .source u.source) lock.uboot,
    optional .ubootPatches (fun p => .git p.reference p.commit)
      (fun p => .series p.series p.source) lock.ubootPatches,
    optional .suite (fun r => .text r.suite)
      (fun r => .rootfs r.distro r.manifest r.manifestSha256) lock.rootfs]

def ffmpegPins (lock : Lock) : List Pin :=
  match lock.ffmpeg with
  | some ff => gitPin (.fixed .ffmpeg) ff.base ::
    match ff.rockchip with
    | some rk => [gitPin (.fixed .ffmpegRk) rk]
    | none => []
  | none => []

def blobPins (lock : Lock) : List Pin :=
  match lock.blobs with
  | some b => [
      ⟨.fixed .blobAtf, .text b.atf, .nothing⟩,
      ⟨.fixed .blobTpl, .text b.tpl, .nothing⟩,
      optional .blobBl32 .text (fun _ => .nothing) b.bl32]
  | none => []

def userspacePin (p : UserspacePin) : Pin :=
  ⟨.userspace p.name, .git p.reference p.commit, .source p.source⟩

def kmodPin (k : KmodPin) : Pin := ⟨.kmod k.name, .git k.reference k.commit, .source k.source⟩

def extraDebPin (d : ExtraDeb) : Pin :=
  ⟨.extraDeb d.locator, .digest d.sha256, .extraDeb d.url d.path d.targets⟩

/-- The pins of a lock, in the order of the rows. -/
def pins (lock : Lock) : List Pin :=
  basePins lock ++ lock.userspace.map userspacePin ++ ffmpegPins lock ++ lock.kmods.map kmodPin ++
  lock.apps.flatMap appPins ++ lock.extraDebs.map extraDebPin ++ blobPins lock

theorem appRows_eq (a : AppPin) : appRows a = (appPins a).map Pin.row := by
  unfold appRows appPins
  cases a.patches <;> cases a.dotnet <;> rfl

theorem map_row_basePins (lock : Lock) : (basePins lock).map Pin.row =
    [ ("kernel".toList, lock.kernel.map fun k => git k.reference k.commit),
      ("patches".toList, lock.patches.map fun p => git p.reference p.commit),
      ("u-boot".toList, lock.uboot.map fun u => git u.reference u.commit),
      ("u-boot patches".toList, lock.ubootPatches.map fun p => git p.reference p.commit),
      ("suite".toList, lock.rootfs.map fun r => r.suite)] := by
  have hrow : ∀ {α : Type} (f : Fixed) (shown : α → Shown) (hidden : α → Hidden) (x : Option α),
      (optional f shown hidden x).row = (f.label, x.bind fun a => (shown a).row) := by
    intro α f shown hidden x
    cases x <;> rfl
  unfold basePins
  simp only [List.map_cons, List.map_nil, hrow, Option.map_eq_bind]
  rfl

theorem map_row_ffmpegPins (lock : Lock) : (ffmpegPins lock).map Pin.row =
    match lock.ffmpeg with
    | some ff => ("ffmpeg".toList, some (git ff.base.reference ff.base.commit)) ::
      match ff.rockchip with
      | some rk => [("ffmpeg-rk".toList, some (git rk.reference rk.commit))]
      | none => []
    | none => [] := by
  unfold ffmpegPins
  cases lock.ffmpeg with
  | none => rfl
  | some ff => cases ff with | mk base rockchip => cases rockchip <;> rfl

theorem map_row_blobPins (lock : Lock) : (blobPins lock).map Pin.row =
    match lock.blobs with
    | some b => [("blob atf".toList, some b.atf), ("blob tpl".toList, some b.tpl),
        ("blob bl32".toList, b.bl32)]
    | none => [] := by
  unfold blobPins
  cases lock.blobs with
  | none => rfl
  | some b => cases b with | mk atf tpl bl32 => cases bl32 <;> rfl

/-- Every row is the row of a pin. -/
theorem axisPins_eq (lock : Lock) : axisPins lock = (pins lock).map Pin.row := by
  have happs : lock.apps.flatMap appRows = (lock.apps.flatMap appPins).map Pin.row := by
    rw [List.map_flatMap, funext appRows_eq]
  unfold axisPins pins
  simp only [List.map_append, map_row_basePins, map_row_ffmpegPins, map_row_blobPins, happs,
    List.map_map]
  rfl

/-! ### Which axes share a label -/

/-- A userspace tree is called what the row of another axis is called, or an app is called what the
row of a part of another app is called. -/
def Axis.Shadows : Axis → Axis → Prop
  | .userspace _, .userspace _ => False
  | .userspace name, y => name = y.label
  | .app name, .appPart other part => name = other ++ part.suffix
  | _, _ => False

theorem Fixed.label_inj {f g : Fixed} (h : f.label = g.label) : f = g := by
  have hall : ∀ f : Fixed, f ∈ [kernel, patches, uboot, ubootPatches, suite, ffmpeg, ffmpegRk,
      blobAtf, blobTpl, blobBl32] := by
    intro f
    cases f <;> simp
  have hnodup : ([kernel, patches, uboot, ubootPatches, suite, ffmpeg, ffmpegRk, blobAtf, blobTpl,
      blobBl32].map label).Nodup := by decide +kernel
  exact List.inj_on_of_nodup_map hnodup (hall f) (hall g) h

/-- The last characters of the four suffixes differ. -/
theorem suffix_inj {name other : Str} {part part' : AppPart}
    (h : name ++ part.suffix = other ++ part'.suffix) : name = other ∧ part = part' := by
  have hne : ∀ part : AppPart, part.suffix ≠ [] := by
    intro part
    cases part <;> unfold AppPart.suffix <;> simp
  have hlast : part.suffix.getLast? = part'.suffix.getLast? := by
    rw [← List.getLast?_append_of_ne_nil name (hne part), h,
      List.getLast?_append_of_ne_nil other (hne part')]
  have hpart : part = part' := by
    unfold AppPart.suffix at hlast
    cases part <;> cases part' <;> first | rfl | simp at hlast
  subst hpart
  exact ⟨List.append_cancel_right h, rfl⟩

theorem Fixed.label_ne {f : Fixed} {tail : Str} :
    f.label ≠ "kmod ".toList ++ tail ∧ f.label ≠ "app ".toList ++ tail ∧
      f.label ≠ "extra deb ".toList ++ tail := by
  refine ⟨fun h => ?_, fun h => ?_, fun h => ?_⟩
  all_goals
    unfold Fixed.label at h
    cases f <;> simp at h

theorem Axis.Shadows.label_eq {x y : Axis} (h : x.Shadows y) : x.label = y.label := by
  unfold Axis.Shadows at h
  split at h
  · exact h.elim
  · exact h
  · rw [h]
    exact (List.append_assoc _ _ _).symm
  · exact h.elim

theorem Axis.Shadows.ne {x y : Axis} (h : x.Shadows y) : x ≠ y := by
  rintro rfl
  cases x <;> exact h

/-- Two axes share a label only if they are the same or one is called by the other's label. -/
theorem eq_or_shadows {x y : Axis} (h : x.label = y.label) : x = y ∨ x.Shadows y ∨ y.Shadows x := by
  cases x with
  | userspace name =>
    cases y with
    | userspace other => exact .inl (congrArg Axis.userspace h)
    | _ => exact .inr (.inl h)
  | fixed f =>
    cases y with
    | userspace name => exact .inr (.inr h.symm)
    | fixed g => exact .inl (congrArg Axis.fixed (Fixed.label_inj h))
    | kmod name => exact absurd h Fixed.label_ne.1
    | app name => exact absurd h Fixed.label_ne.2.1
    | appPart name part => exact absurd (h.trans (List.append_assoc _ _ _)) Fixed.label_ne.2.1
    | extraDeb locator => exact absurd h Fixed.label_ne.2.2
  | kmod name =>
    cases y with
    | userspace other => exact .inr (.inr h.symm)
    | fixed g => exact absurd h.symm Fixed.label_ne.1
    | kmod other => exact .inl (congrArg Axis.kmod (List.append_cancel_left h))
    | _ =>
      unfold Axis.label at h
      simp at h
  | app name =>
    cases y with
    | userspace other => exact .inr (.inr h.symm)
    | fixed g => exact absurd h.symm Fixed.label_ne.2.1
    | app other => exact .inl (congrArg Axis.app (List.append_cancel_left h))
    | appPart other part =>
      have h' : "app ".toList ++ name = "app ".toList ++ (other ++ part.suffix) :=
        h.trans (List.append_assoc _ _ _)
      exact .inr (.inl (List.append_cancel_left h'))
    | _ =>
      unfold Axis.label at h
      simp at h
  | appPart name part =>
    have h' : "app ".toList ++ (name ++ part.suffix) = y.label := by
      rw [← List.append_assoc]
      exact h
    cases y with
    | userspace other => exact .inr (.inr h.symm)
    | fixed g => exact absurd h'.symm Fixed.label_ne.2.1
    | app other => exact .inr (.inr (List.append_cancel_left h').symm)
    | appPart other part' =>
      have h'' : "app ".toList ++ (name ++ part.suffix) = "app ".toList ++ (other ++ part'.suffix) :=
        h'.trans (List.append_assoc _ _ _)
      obtain ⟨rfl, rfl⟩ := suffix_inj (List.append_cancel_left h'')
      exact .inl rfl
    | _ =>
      unfold Axis.label at h'
      simp at h'
  | extraDeb locator =>
    cases y with
    | userspace other => exact .inr (.inr h.symm)
    | fixed g => exact absurd h.symm Fixed.label_ne.2.2
    | extraDeb other => exact .inl (congrArg Axis.extraDeb (List.append_cancel_left h))
    | _ =>
      unfold Axis.label at h
      simp at h

/-! ### What the rows tell -/

/-- What the text of a row is made of. -/
inductive Kind where
  | git
  | text
  | digest
deriving DecidableEq

def Shown.kind? : Shown → Option Kind
  | .absent => none
  | .git _ _ => some .git
  | .text _ => some .text
  | .digest _ => some .digest

def Axis.kind : Axis → Kind
  | .fixed .suite | .fixed .blobAtf | .fixed .blobTpl | .fixed .blobBl32 | .appPart _ .sdk => .text
  | .appPart _ .nuget | .extraDeb _ => .digest
  | _ => .git

theorem git_inj {r r' : Str} {c c' : Commit} (h : git r c = git r' c') :
    r = r' ∧ short c.text = short c'.text := by
  have hlen : ∀ c : Commit, (short c.text).length = SHORT_COMMIT := by
    intro c
    unfold short
    rw [List.length_take, c.length_text]
    rfl
  unfold git at h
  have hsplit := List.append_inj' h (by simp [hlen])
  obtain ⟨hr, htail⟩ := hsplit
  exact ⟨hr, List.append_cancel_right (List.append_cancel_left htail)⟩

/-- The commits and digests a lock pins. -/
def digests (lock : Lock) : List Str := (pins lock).filterMap fun p => p.shown.digest?

/-- Texts of one kind are the same only for the same reference and commit, text or digest. -/
theorem shown_inj {s t : Shown} (hkind : ∀ k ∈ s.kind?, ∀ k' ∈ t.kind?, k = k')
    (h : s.row = t.row)
    (hdigest : ∀ c ∈ s.digest?, ∀ d ∈ t.digest?, short c = short d → c = d) : s = t := by
  cases s with
  | absent => cases t <;> first | rfl | cases h
  | git r c =>
    cases t with
    | git r' c' =>
      obtain ⟨rfl, hshort⟩ := git_inj (Option.some.inj h)
      rw [Commit.text_inj.mp (hdigest _ rfl _ rfl hshort)]
    | absent => cases h
    | _ => cases hkind _ rfl _ rfl
  | text s =>
    cases t with
    | text s' => rw [Option.some.inj h]
    | absent => cases h
    | _ => cases hkind _ rfl _ rfl
  | digest d =>
    cases t with
    | digest d' => rw [hdigest _ rfl _ rfl (Option.some.inj h)]
    | absent => cases h
    | _ => cases hkind _ rfl _ rfl

section Members

variable {lock : Lock} {p : Pin}

theorem mem_pins : p ∈ pins lock ↔ p ∈ basePins lock ∨ (∃ u ∈ lock.userspace, userspacePin u = p) ∨
    p ∈ ffmpegPins lock ∨ (∃ k ∈ lock.kmods, kmodPin k = p) ∨ (∃ a ∈ lock.apps, p ∈ appPins a) ∨
    (∃ d ∈ lock.extraDebs, extraDebPin d = p) ∨ p ∈ blobPins lock := by
  unfold pins
  simp only [List.mem_append, List.mem_map, List.mem_flatMap, or_assoc]

theorem mem_appPins {a : AppPin} : p ∈ appPins a ↔
    p = ⟨.app a.name, .git a.reference a.commit, .source a.source⟩ ∨
    (∃ s ∈ a.patches, p = patchesPin (.appPart a.name .patches) s) ∨
    ∃ d ∈ a.dotnet, p = gitPin (.appPart a.name .packaging) d.packaging ∨
      p = ⟨.appPart a.name .sdk, .text d.sdk.version, .sdk d.sdk.sha512⟩ ∨
      p = ⟨.appPart a.name .nuget, .digest d.nuget.manifestSha256, .nuget d.nuget.manifest⟩ := by
  unfold appPins
  cases a.patches <;> cases a.dotnet <;> simp

theorem mem_ffmpegPins : p ∈ ffmpegPins lock ↔ ∃ ff ∈ lock.ffmpeg, p = gitPin (.fixed .ffmpeg) ff.base ∨
    ∃ rk ∈ ff.rockchip, p = gitPin (.fixed .ffmpegRk) rk := by
  unfold ffmpegPins
  cases lock.ffmpeg with
  | none => simp
  | some ff => cases hrk : ff.rockchip <;> simp [hrk]

theorem mem_blobPins : p ∈ blobPins lock ↔ ∃ b ∈ lock.blobs,
    p = ⟨.fixed .blobAtf, .text b.atf, .nothing⟩ ∨ p = ⟨.fixed .blobTpl, .text b.tpl, .nothing⟩ ∨
    p = optional .blobBl32 .text (fun _ => .nothing) b.bl32 := by
  unfold blobPins
  cases lock.blobs <;> simp

/-- The axis of a pin says what its row is made of. -/
theorem kind_of_mem (h : p ∈ pins lock) : ∀ k ∈ p.shown.kind?, k = p.axis.kind := by
  have hoptional : ∀ {α : Type} {f : Fixed} {shown : α → Shown} {hidden : α → Hidden} {x : Option α},
      (∀ a, (shown a).kind? = some (Axis.fixed f).kind) →
      ∀ k ∈ (optional f shown hidden x).shown.kind?, k = (optional f shown hidden x).axis.kind := by
    intro α f shown hidden x hshown k hk
    cases x with
    | none => cases hk
    | some a => exact Option.some.inj (hk.symm.trans (hshown a))
  rcases mem_pins.mp h with h | ⟨u, -, rfl⟩ | h | ⟨k, -, rfl⟩ | ⟨a, -, h⟩ | ⟨d, -, rfl⟩ | h
  · unfold basePins at h
    simp only [List.mem_cons, List.not_mem_nil, or_false] at h
    rcases h with rfl | rfl | rfl | rfl | rfl <;> exact hoptional fun _ => rfl
  · rintro _ ⟨⟩
    rfl
  · obtain ⟨ff, -, rfl | ⟨rk, -, rfl⟩⟩ := mem_ffmpegPins.mp h <;> rintro _ ⟨⟩ <;> rfl
  · rintro _ ⟨⟩
    rfl
  · rcases mem_appPins.mp h with rfl | ⟨s, -, rfl⟩ | ⟨d, -, rfl | rfl | rfl⟩ <;> rintro _ ⟨⟩ <;> rfl
  · rintro _ ⟨⟩
    rfl
  · obtain ⟨b, -, rfl | rfl | rfl⟩ := mem_blobPins.mp h
    · rintro _ ⟨⟩
      rfl
    · rintro _ ⟨⟩
      rfl
    · exact hoptional fun _ => rfl

/-- Every axis of the base pins is there in every lock. -/
theorem exists_basePin (other : Lock) (h : p ∈ basePins lock) :
    ∃ q ∈ basePins other, q.axis = p.axis := by
  unfold basePins at h ⊢
  simp only [List.mem_cons, List.not_mem_nil, or_false, exists_eq_or_imp, exists_eq_left] at h ⊢
  rcases h with rfl | rfl | rfl | rfl | rfl <;> simp [axis_optional]

/-- A pin that is absent is a base pin, or the third blob beside the first. -/
theorem mem_of_absent (h : p ∈ pins lock) (habsent : p.shown = .absent) :
    p ∈ basePins lock ∨ ∃ b ∈ lock.blobs, p.axis = .fixed .blobBl32 := by
  rcases mem_pins.mp h with h | ⟨u, -, rfl⟩ | h | ⟨k, -, rfl⟩ | ⟨a, -, h⟩ | ⟨d, -, rfl⟩ | h
  · exact .inl h
  · cases habsent
  · obtain ⟨ff, -, rfl | ⟨rk, -, rfl⟩⟩ := mem_ffmpegPins.mp h <;> cases habsent
  · cases habsent
  · rcases mem_appPins.mp h with rfl | ⟨s, -, rfl⟩ | ⟨d, -, rfl | rfl | rfl⟩ <;> cases habsent
  · cases habsent
  · obtain ⟨b, hb, rfl | rfl | rfl⟩ := mem_blobPins.mp h
    · cases habsent
    · cases habsent
    · exact .inr ⟨b, hb, axis_optional⟩

theorem exists_blobs (h : p ∈ pins lock) (haxis : p.axis = .fixed .blobAtf) :
    ∃ b, lock.blobs = some b := by
  rcases mem_pins.mp h with h | ⟨u, -, rfl⟩ | h | ⟨k, -, rfl⟩ | ⟨a, -, h⟩ | ⟨d, -, rfl⟩ | h
  · unfold basePins at h
    simp only [List.mem_cons, List.not_mem_nil, or_false] at h
    rcases h with rfl | rfl | rfl | rfl | rfl <;> simp [axis_optional] at haxis
  · cases haxis
  · obtain ⟨ff, -, rfl | ⟨rk, -, rfl⟩⟩ := mem_ffmpegPins.mp h <;> cases haxis
  · cases haxis
  · rcases mem_appPins.mp h with rfl | ⟨s, -, rfl⟩ | ⟨d, -, rfl | rfl | rfl⟩ <;> cases haxis
  · cases haxis
  · obtain ⟨b, hb, -⟩ := mem_blobPins.mp h
    exact ⟨b, hb⟩

end Members

/-! ### Completeness -/

variable {a b : Lock}

/-- The locks record the same pins. The epoch of the rootfs is a time and no pin. -/
def SamePins (a b : Lock) : Prop := (pins a).Perm (pins b) ∧ a.snapshot = b.snapshot

/-- What the rows show of the pins is the same. -/
def Alike (a b : Lock) : Prop := ∀ axis shown, shown ≠ .absent →
  ((∃ p ∈ pins a, p.axis = axis ∧ p.shown = shown) ↔ ∃ q ∈ pins b, q.axis = axis ∧ q.shown = shown)

/-- What no row shows is the same. -/
def HiddenSame (a b : Lock) : Prop :=
  (∀ p ∈ pins a, ∀ q ∈ pins b, p.axis = q.axis → p.hidden = q.hidden) ∧ a.snapshot = b.snapshot

/-- No change is reported exactly if the pins are the same. No two pins share a row, and no two
commits or digests the characters that are shown. -/
structure Complete (a b : Lock) : Prop where
  empty_iff : pinChanges a b = [] ↔ SamePins a b
  rows : ((axisPins a).map Prod.fst).Nodup ∧ ((axisPins b).map Prod.fst).Nodup
  across : ∀ p ∈ pins a, ∀ q ∈ pins b, p.axis.label = q.axis.label → p.axis = q.axis
  apart : ∀ c ∈ digests a ++ digests b, ∀ d ∈ digests a ++ digests b, short c = short d → c = d

/-- No two entries of a lock have one name, no tree or app is called what another row is, commits and
digests differ in the characters shown, and what no row shows moves only beside what a row shows. -/
structure Distinguished (a b : Lock) : Prop where
  single : ((pins a).map Pin.axis).Nodup ∧ ((pins b).map Pin.axis).Nodup
  names : ∀ p ∈ pins a ++ pins b, ∀ q ∈ pins a ++ pins b, ¬p.axis.Shadows q.axis
  apart : ∀ c ∈ digests a ++ digests b, ∀ d ∈ digests a ++ digests b, short c = short d → c = d
  hidden : Alike a b → HiddenSame a b

theorem map_label_axisPins (lock : Lock) :
    (axisPins lock).map Prod.fst = ((pins lock).map Pin.axis).map Axis.label := by
  rw [axisPins_eq, List.map_map, List.map_map]
  rfl

theorem Alike.symm (h : Alike a b) : Alike b a := fun axis shown hshown => (h axis shown hshown).symm

theorem HiddenSame.symm (h : HiddenSame a b) : HiddenSame b a :=
  ⟨fun p hp q hq haxis => (h.1 q hq p hp haxis.symm).symm, h.2.symm⟩

theorem mem_of_same (ha : ((pins a).map Pin.axis).Nodup)
    (halike : Alike a b) (hhidden : HiddenSame a b) {p : Pin} (hp : p ∈ pins a) : p ∈ pins b := by
  have hsame : ∀ q ∈ pins b, q.axis = p.axis → q.shown = p.shown → p ∈ pins b := by
    intro q hq haxis hshown
    have hpq : p = q := by
      have hhid : p.hidden = q.hidden := hhidden.1 p hp q hq haxis.symm
      cases p
      cases q
      simp_all
    rw [hpq]
    exact hq
  by_cases habsent : p.shown = .absent
  · have hpartner : ∃ q ∈ pins b, q.axis = p.axis := by
      rcases mem_of_absent hp habsent with hbase | ⟨blobs, hblobs, haxis⟩
      · obtain ⟨q, hq, haxis⟩ := exists_basePin b hbase
        exact ⟨q, mem_pins.mpr (.inl hq), haxis⟩
      · -- the first blob of `a` is shown, so `b` has it and the third beside it
        have hatf : ⟨.fixed .blobAtf, .text blobs.atf, .nothing⟩ ∈ pins a :=
          List.mem_append_right _ (mem_blobPins.mpr ⟨blobs, hblobs, .inl rfl⟩)
        obtain ⟨r, hr, hraxis, -⟩ := (halike _ _ (by simp)).mp ⟨_, hatf, rfl, rfl⟩
        obtain ⟨blobs', hblobs'⟩ := exists_blobs hr hraxis
        exact ⟨_, List.mem_append_right _ (mem_blobPins.mpr ⟨blobs', hblobs', .inr (.inr rfl)⟩),
          axis_optional.trans haxis.symm⟩
    obtain ⟨q, hq, haxis⟩ := hpartner
    by_cases hshown : q.shown = .absent
    · exact hsame q hq haxis (hshown.trans habsent.symm)
    · obtain ⟨r, hr, hraxis, hrshown⟩ := (halike q.axis q.shown hshown).mpr ⟨q, hq, rfl, rfl⟩
      have hrp : r = p := List.inj_on_of_nodup_map ha hr hp (hraxis.trans haxis)
      rw [hrp] at hrshown
      exact absurd (hrshown.symm.trans habsent) hshown
  · obtain ⟨q, hq, haxis, hshown⟩ := (halike p.axis p.shown habsent).mp ⟨p, hp, rfl, rfl⟩
    exact hsame q hq haxis hshown

theorem samePins_of_same (ha : ((pins a).map Pin.axis).Nodup) (hb : ((pins b).map Pin.axis).Nodup)
    (halike : Alike a b) (hhidden : HiddenSame a b) : SamePins a b := by
  refine ⟨?_, hhidden.2⟩
  rw [List.perm_ext_iff_of_nodup ha.of_map hb.of_map]
  intro p
  exact ⟨mem_of_same ha halike hhidden, mem_of_same hb halike.symm hhidden.symm⟩

theorem pinChanges_of_same (hrows : ((axisPins a).map Prod.fst).Nodup) (h : SamePins a b) :
    pinChanges a b = [] := by
  have hperm : (axisPins a).Perm (axisPins b) := by
    rw [axisPins_eq, axisPins_eq]
    exact h.1.map Pin.row
  rw [pinChanges_eq_nil]
  intro label
  unfold find
  rw [firstWith_perm hrows hperm]

/-- Where no two rows of a lock share a label, each is found. -/
theorem find_of_mem {lock : Lock} (hrows : ((axisPins lock).map Prod.fst).Nodup) {p : Pin}
    (hp : p ∈ pins lock) : find (axisPins lock) p.axis.label = p.shown.row := by
  have hrow : p.row ∈ axisPins lock := by
    rw [axisPins_eq]
    exact List.mem_map_of_mem hp
  have hfirst : firstWith Prod.fst (axisPins lock) p.axis.label = some p.row :=
    (firstWith_eq_some_iff hrows).mpr ⟨hrow, rfl⟩
  unfold find
  rw [hfirst]
  rfl

theorem exists_of_find {lock : Lock} {label text : Str}
    (h : find (axisPins lock) label = some text) :
    ∃ p ∈ pins lock, p.axis.label = label ∧ p.shown.row = some text := by
  unfold find at h
  obtain ⟨row, hrow, htext⟩ := Option.bind_eq_some_iff.mp h
  obtain ⟨hmem, hlabel⟩ := mem_of_firstWith hrow
  rw [axisPins_eq] at hmem
  obtain ⟨p, hp, rfl⟩ := List.mem_map.mp hmem
  exact ⟨p, hp, hlabel, htext⟩

theorem exists_shown (hrows : ((axisPins a).map Prod.fst).Nodup)
    (hacross : ∀ p ∈ pins a, ∀ q ∈ pins b, p.axis.label = q.axis.label → p.axis = q.axis)
    (hapart : ∀ c ∈ digests a, ∀ d ∈ digests b, short c = short d → c = d)
    (h : ∀ label, find (axisPins a) label = find (axisPins b) label) {p : Pin} (hp : p ∈ pins a)
    (hshown : p.shown ≠ .absent) : ∃ q ∈ pins b, q.axis = p.axis ∧ q.shown = p.shown := by
  obtain ⟨text, htext⟩ : ∃ text, p.shown.row = some text := by
    cases hp : p.shown with
    | absent => exact absurd hp hshown
    | _ => exact ⟨_, rfl⟩
  have hfind : find (axisPins b) p.axis.label = some text := by
    rw [← h, find_of_mem hrows hp, htext]
  obtain ⟨q, hq, hlabel, hrow⟩ := exists_of_find hfind
  have haxis : p.axis = q.axis := hacross p hp q hq hlabel.symm
  refine ⟨q, hq, haxis.symm, (shown_inj ?_ (htext.trans hrow.symm) ?_).symm⟩
  · intro k hk k' hk'
    rw [kind_of_mem hp k hk, kind_of_mem hq k' hk', haxis]
  · intro c hc d hd
    exact hapart c (List.mem_filterMap.mpr ⟨p, hp, hc⟩) d (List.mem_filterMap.mpr ⟨q, hq, hd⟩)

/-- Equal rows show the same. -/
theorem alike_of_find (hrows : ((axisPins a).map Prod.fst).Nodup ∧ ((axisPins b).map Prod.fst).Nodup)
    (hacross : ∀ p ∈ pins a, ∀ q ∈ pins b, p.axis.label = q.axis.label → p.axis = q.axis)
    (hapart : ∀ c ∈ digests a ++ digests b, ∀ d ∈ digests a ++ digests b, short c = short d → c = d)
    (h : ∀ label, find (axisPins a) label = find (axisPins b) label) : Alike a b := by
  have hleft : ∀ c ∈ digests a, ∀ d ∈ digests b, short c = short d → c = d := fun c hc d hd =>
    hapart c (List.mem_append_left _ hc) d (List.mem_append_right _ hd)
  intro axis shown hshown
  constructor
  · rintro ⟨p, hp, rfl, rfl⟩
    exact exists_shown hrows.1 hacross hleft h hp hshown
  · rintro ⟨q, hq, rfl, rfl⟩
    exact exists_shown hrows.2 (fun q hq p hp heq => (hacross p hp q hq heq.symm).symm)
      (fun d hd c hc heq => (hleft c hc d hd heq.symm).symm) (fun label => (h label).symm) hq hshown

/-- What the rows show being the same, the rows are. -/
theorem find_of_alike (hrows : ((axisPins a).map Prod.fst).Nodup ∧ ((axisPins b).map Prod.fst).Nodup)
    (h : Alike a b) (label : Str) : find (axisPins a) label = find (axisPins b) label := by
  have hfound : ∀ {a b : Lock}, ((axisPins b).map Prod.fst).Nodup → Alike a b → ∀ text,
      find (axisPins a) label = some text → find (axisPins b) label = some text := by
    intro a b hrows h text hfind
    obtain ⟨p, hp, rfl, hrow⟩ := exists_of_find hfind
    have hshown : p.shown ≠ .absent := by
      intro habsent
      rw [habsent] at hrow
      cases hrow
    obtain ⟨q, hq, haxis, hq'⟩ := (h p.axis p.shown hshown).mp ⟨p, hp, rfl, rfl⟩
    rw [← haxis, find_of_mem hrows hq, hq', hrow]
  ext text
  exact ⟨hfound hrows.2 h text, hfound hrows.1 h.symm text⟩

theorem label_inj_of_names
    (hnames : ∀ p ∈ pins a ++ pins b, ∀ q ∈ pins a ++ pins b, ¬p.axis.Shadows q.axis) {p q : Pin}
    (hp : p ∈ pins a ++ pins b) (hq : q ∈ pins a ++ pins b)
    (h : p.axis.label = q.axis.label) : p.axis = q.axis := by
  rcases eq_or_shadows h with h | h | h
  · exact h
  · exact absurd h (hnames p hp q hq)
  · exact absurd h (hnames q hq p hp)

theorem nodup_rows {lock : Lock} (hsingle : ((pins lock).map Pin.axis).Nodup)
    (hinj : ∀ p ∈ pins lock, ∀ q ∈ pins lock, p.axis.label = q.axis.label → p.axis = q.axis) :
    ((axisPins lock).map Prod.fst).Nodup := by
  rw [map_label_axisPins]
  refine List.Nodup.map_on ?_ hsingle
  intro x hx y hy heq
  obtain ⟨p, hp, rfl⟩ := List.mem_map.mp hx
  obtain ⟨q, hq, rfl⟩ := List.mem_map.mp hy
  exact hinj p hp q hq heq

theorem Complete.single (h : Complete a b) :
    ((pins a).map Pin.axis).Nodup ∧ ((pins b).map Pin.axis).Nodup := by
  obtain ⟨ha, hb⟩ := h.rows
  rw [map_label_axisPins] at ha hb
  exact ⟨ha.of_map, hb.of_map⟩

theorem Complete.names (h : Complete a b) :
    ∀ p ∈ pins a ++ pins b, ∀ q ∈ pins a ++ pins b, ¬p.axis.Shadows q.axis := by
  have hinj : ∀ {lock : Lock}, ((axisPins lock).map Prod.fst).Nodup → ∀ p ∈ pins lock,
      ∀ q ∈ pins lock, p.axis.label = q.axis.label → p.axis = q.axis := by
    intro lock hrows p hp q hq heq
    rw [map_label_axisPins] at hrows
    exact List.inj_on_of_nodup_map hrows (List.mem_map_of_mem hp) (List.mem_map_of_mem hq) heq
  intro p hp q hq hshadows
  have hne : p.axis ≠ q.axis := hshadows.ne
  rcases List.mem_append.mp hp with hp | hp <;> rcases List.mem_append.mp hq with hq | hq
  · exact hne (hinj h.rows.1 p hp q hq hshadows.label_eq)
  · exact hne (h.across p hp q hq hshadows.label_eq)
  · exact hne (h.across q hq p hp hshadows.label_eq.symm).symm
  · exact hne (hinj h.rows.2 p hp q hq hshadows.label_eq)

theorem Complete.hidden (h : Complete a b) (halike : Alike a b) : HiddenSame a b := by
  have hnil : pinChanges a b = [] := pinChanges_eq_nil.mpr (find_of_alike h.rows halike)
  obtain ⟨hperm, hsnapshot⟩ := h.empty_iff.mp hnil
  refine ⟨fun p hp q hq haxis => ?_, hsnapshot⟩
  rw [List.inj_on_of_nodup_map h.single.2 (hperm.mem_iff.mp hp) hq haxis]

/-- The comparison of two locks is complete exactly if their rows can tell them apart. -/
theorem complete_iff (a b : Lock) : Complete a b ↔ Distinguished a b := by
  constructor
  · intro h
    exact ⟨h.single, h.names, h.apart, h.hidden⟩
  · intro h
    have hinj : ∀ p ∈ pins a ++ pins b, ∀ q ∈ pins a ++ pins b,
        p.axis.label = q.axis.label → p.axis = q.axis :=
      fun p hp q hq => label_inj_of_names h.names hp hq
    have hrows : ((axisPins a).map Prod.fst).Nodup ∧ ((axisPins b).map Prod.fst).Nodup :=
      ⟨nodup_rows h.single.1 fun p hp q hq =>
          hinj p (List.mem_append_left _ hp) q (List.mem_append_left _ hq),
        nodup_rows h.single.2 fun p hp q hq =>
          hinj p (List.mem_append_right _ hp) q (List.mem_append_right _ hq)⟩
    have hacross : ∀ p ∈ pins a, ∀ q ∈ pins b, p.axis.label = q.axis.label → p.axis = q.axis :=
      fun p hp q hq => hinj p (List.mem_append_left _ hp) q (List.mem_append_right _ hq)
    refine ⟨⟨fun hnil => ?_, pinChanges_of_same hrows.1⟩, hrows, hacross, h.apart⟩
    have halike : Alike a b := alike_of_find hrows hacross h.apart (pinChanges_eq_nil.mp hnil)
    exact samePins_of_same h.single.1 h.single.2 halike (h.hidden halike)

/-- A lock keeps the epoch of the one before only where no pin moved. -/
theorem samePins_of_keepSourceDateEpoch {prev next : Lock} (h : Complete prev next)
    (hkept : keepSourceDateEpoch next prev ≠ next) : SamePins prev next := by
  unfold keepSourceDateEpoch at hkept
  by_cases hnil : pinChanges prev next = []
  · exact h.empty_iff.mp hnil
  · rw [if_pos hnil] at hkept
    exact absurd rfl hkept

/-- A lock of a mainline kernel and nothing else. -/
def kernelLock (source : Str) : Lock where
  kernel := some ⟨"rk3588-mainline-7.1".toList, source, "v7.1.1".toList,
    ⟨List.replicate 40 'a', isFullSha_replicate⟩⟩
  patches := none
  uboot := none
  ubootPatches := none
  userspace := []
  ffmpeg := none
  kmods := []
  apps := []
  rootfs := none
  blobs := none
  extraDebs := []
  snapshot := none

/-- The kernel moves to another repository, and no change is reported. -/
theorem pinChanges_kernelLock (source source' : Str) :
    pinChanges (kernelLock source) (kernelLock source') = [] := by
  have hrows : axisPins (kernelLock source) = axisPins (kernelLock source') := rfl
  rw [pinChanges_eq_nil, hrows]
  exact fun _ => rfl

theorem not_complete_kernelLock {source source' : Str} (hne : source ≠ source') :
    ¬Complete (kernelLock source) (kernelLock source') := by
  intro h
  obtain ⟨hperm, -⟩ := h.empty_iff.mp (pinChanges_kernelLock source source')
  have hpin : ∀ source, optional .kernel (fun k => .git k.reference k.commit)
      (fun k => .kernel k.id k.source) (kernelLock source).kernel ∈ pins (kernelLock source) :=
    fun source => List.mem_cons_self
  have hmoved := hperm.mem_iff.mp (hpin source)
  have hsame := List.inj_on_of_nodup_map h.single.2 hmoved (hpin source') rfl
  exact hne (Hidden.kernel.inj (congrArg Pin.hidden hsame)).2

theorem moved_source_unseen : ¬Complete (kernelLock "https://a.example/linux.git".toList)
    (kernelLock "https://b.example/linux.git".toList) :=
  not_complete_kernelLock (by simp)

end Boot2Deb.Core
