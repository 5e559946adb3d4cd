import Mathlib
import Boot2Deb.Rust.Lines
import Boot2Deb.Rust.Pattern
import Boot2Deb.Debdep.Relations

/-!
# Reading a dpkg status database

`parseStatus` reads a status text stanza by stanza in one pass over its lines. What the pass leaves
in a field is the field's last line with the continuation lines behind it. The pass keeps a stanza
whose `Status` ends in `installed`, which more states do than the one of that name, so it returns
the installed packages exactly if no such state stands in the text: `readsInstalled_iff`.
-/

namespace Boot2Deb.Debdep

open Rust

/-- The fields that bear on satisfaction. -/
inductive StatusField where
  | package
  | version
  | status
  | depends
  | preDepends
  | provides
deriving DecidableEq

/-- The field of a lowercased key. -/
def StatusField.ofKey (key : Str) : Option StatusField :=
  if key = "package".toList then some package
  else if key = "version".toList then some version
  else if key = "status".toList then some status
  else if key = "depends".toList then some depends
  else if key = "pre-depends".toList then some preDepends
  else if key = "provides".toList then some provides
  else none

/-- What the loop over a stanza's lines has read, and the field a continuation line belongs to. -/
structure StanzaState where
  value : StatusField → Str
  field : Option StatusField

/-- A continuation line, without the space it starts with. -/
def continued (line : Str) : Option Str := stripPrefix line [' ']

/-- The field a line gives and its value. -/
def fieldLine (line : Str) : Option (StatusField × Str) :=
  (splitOnce line ':').bind fun (key, value) =>
    (StatusField.ofKey (toAsciiLowercase (trim key))).map (·, trim value)

def StanzaState.step (s : StanzaState) (line : Str) : StanzaState :=
  match continued line with
  | some rest =>
    match s.field with
    | some f => { s with value := Function.update s.value f (s.value f ++ ' ' :: trim rest) }
    | none => s
  | none =>
    match fieldLine line with
    | some (f, value) => ⟨Function.update s.value f value, some f⟩
    | none => { s with field := none }

/-- `Depends` and `Pre-Depends` as one field. -/
def joinDepends (depends preDepends : Str) : Str :=
  if preDepends.isEmpty then depends
  else if depends.isEmpty then preDepends
  else depends ++ ", ".toList ++ preDepends

def Package.ofFields (value : StatusField → Str) : Package where
  name := value .package
  version := value .version
  depends := joinDepends (value .depends) (value .preDepends)
  provides := value .provides

/-- A stanza the pass keeps. -/
def isKept (value : StatusField → Str) : Bool :=
  !(value .package).isEmpty && "installed".toList.isSuffixOf (trimEnd (value .status))

/-- The package of one stanza. -/
def readStanza (stanza : Str) : Option Package :=
  let value := ((lines stanza).foldl StanzaState.step ⟨fun _ => [], none⟩).value
  if isKept value then some (.ofFields value) else none

/-- `split` at the blank lines. -/
def stanzas (text : Str) : List Str := pieces "\n\n".toList text

def parseStatus (text : Str) : List Package := (stanzas text).filterMap readStanza

/-! ### The fields of a stanza -/

/-- The continuation lines a text starts with, folded onto one line. -/
def folded (ls : List Str) : Str :=
  (ls.map continued).takeWhile Option.isSome |>.reduceOption.flatMap fun rest => ' ' :: trim rest

/-- A line that gives the field, and is no continuation. -/
def givenBy (f : StatusField) (line : Str) : Option Str :=
  if (continued line).isSome then none
  else (fieldLine line).bind fun (g, value) => if g = f then some value else none

/-- The field as the stanza has it: the last line that gives it, with the continuation lines behind
it. -/
def fieldOf (f : StatusField) : List Str → Option Str
  | [] => none
  | line :: ls => (fieldOf f ls).or ((givenBy f line).map (· ++ folded ls))

/-- The value of a field of the stanza, empty where it is not given. -/
def ownField (stanza : Str) (f : StatusField) : Str := (fieldOf f (lines stanza)).getD []

variable {f : StatusField} {line : Str} {ls : List Str} {s : StanzaState}

theorem folded_continued {rest : Str} (h : continued line = some rest) :
    folded (line :: ls) = ' ' :: trim rest ++ folded ls := by
  simp [folded, h]

theorem folded_not_continued (h : continued line = none) : folded (line :: ls) = [] := by
  simp [folded, h]

/-- What the pass leaves in a field: the field's last line with its continuation, or what was there
before, continued if the pass was in this field. -/
theorem value_foldl_step (f : StatusField) (ls : List Str) (s : StanzaState) :
    (ls.foldl StanzaState.step s).value f =
      (fieldOf f ls).getD (s.value f ++ if s.field = some f then folded ls else []) := by
  induction ls generalizing s with
  | nil => simp [fieldOf, folded]
  | cons line ls ih =>
    rw [List.foldl_cons, ih, fieldOf]
    cases hlater : fieldOf f ls with
    | some v => rfl
    | none =>
      rw [Option.none_or, Option.getD_none]
      cases hc : continued line with
      | some rest =>
        have hgiven : givenBy f line = none := by simp [givenBy, hc]
        rw [hgiven, Option.map_none, Option.getD_none, StanzaState.step, hc, folded_continued hc]
        cases hfield : s.field with
        | none => simp [hfield]
        | some g =>
          by_cases hg : g = f
          · subst hg
            simp
          · simp [hg, Function.update_of_ne (Ne.symm hg)]
      | none =>
        rw [StanzaState.step, hc, folded_not_continued hc]
        cases hl : fieldLine line with
        | none => simp [givenBy, hc, hl]
        | some row =>
          obtain ⟨g, value⟩ := row
          by_cases hg : g = f
          · subst hg
            simp [givenBy, hc, hl]
          · simp [givenBy, hc, hl, hg, Function.update_of_ne (Ne.symm hg)]

theorem value_stanza (stanza : Str) (f : StatusField) :
    ((lines stanza).foldl StanzaState.step ⟨fun _ => [], none⟩).value f = ownField stanza f := by
  rw [value_foldl_step]
  simp [ownField]

/-- The pass reads a stanza's own fields. -/
theorem readStanza_eq (stanza : Str) : readStanza stanza =
    if isKept (ownField stanza) then some (.ofFields (ownField stanza)) else none := by
  unfold readStanza
  rw [funext (value_stanza stanza)]

/-! ### The installed packages -/

/-- The state of a `Status` field: its third word, behind the want and the flag. -/
def stateOf (status : Str) : Option Str := (splitWhitespace status)[2]?

/-- The stanza is of an installed package. -/
def isInstalled (stanza : Str) : Bool := stateOf (ownField stanza .status) = some "installed".toList

/-- Of every stanza of the text the pass returns a package exactly if the package is installed, and
then with the stanza's own fields. -/
def ReadsInstalled (text : Str) : Prop :=
  ∀ stanza ∈ stanzas text, readStanza stanza =
    if isInstalled stanza then some (.ofFields (ownField stanza)) else none

/-- The text tells the state `installed` from every other by the end of the `Status` field, in
stanzas that name a package. -/
def StatesTold (text : Str) : Prop :=
  ∀ stanza ∈ stanzas text, isInstalled stanza = true ↔ ownField stanza .package ≠ [] ∧
    "installed".toList <:+ trimEnd (ownField stanza .status)

theorem isKept_iff (value : StatusField → Str) : isKept value = true ↔
    value .package ≠ [] ∧ "installed".toList <:+ trimEnd (value .status) := by
  simp [isKept]

/-- The installed packages are what is read, exactly if the text tells the state apart. -/
theorem readsInstalled_iff (text : Str) : parseStatus text = (stanzas text).filterMap readStanza ∧
    (ReadsInstalled text ↔ StatesTold text) := by
  refine ⟨rfl, forall₂_congr fun stanza _ => ?_⟩
  rw [readStanza_eq, ← isKept_iff]
  cases hk : isKept (ownField stanza) <;> cases hi : isInstalled stanza <;> simp

/-- A package that was unpacked and whose installation was not completed. -/
def halfInstalled : Str :=
  "Package: libc6\nStatus: install reinstreq half-installed\nVersion: 2.43-3\n".toList

/-- It is returned as one that is installed. -/
theorem halfInstalled_returned :
    parseStatus halfInstalled = [⟨"libc6".toList, "2.43-3".toList, [], []⟩] ∧
      ¬ReadsInstalled halfInstalled := by
  have hone : stanzas halfInstalled = [halfInstalled] := by rfl
  have hread : readStanza halfInstalled = some ⟨"libc6".toList, "2.43-3".toList, [], []⟩ := by rfl
  refine ⟨by rw [parseStatus, hone, List.filterMap_cons, hread]; rfl, fun h => ?_⟩
  have hspec := h halfInstalled (hone ▸ List.mem_singleton_self _)
  have hstate : isInstalled halfInstalled = false := by rfl
  rw [hread, hstate] at hspec
  cases hspec

end Boot2Deb.Debdep
