import Boot2Deb.Error
import Boot2Deb.Rust.Outcome
import Boot2Deb.Rust.Lines

/-! # Patch normalization (`core/src/mbox.rs`) -/

namespace Boot2Deb.Mbox
open Rust Std

/-- The three shapes a fetched patch can arrive in. -/
inductive PatchKind where
  | mbox
  | gitShow
  | bareDiff
deriving DecidableEq, Repr

/-- A patch normalized to mbox text, plus its bare subject. -/
structure Normalized where
  mbox : Str
  subject : Str
  kind : PatchKind
deriving DecidableEq, Repr

/-- Synthesis inputs; the default is all absent. -/
structure ImportMeta where
  author : Option Str := none
  subject : Option Str := none
  origin : Option Str := none
deriving DecidableEq, Repr

def defaultAuthor : Str := "boot2deb import <import@boot2deb>".toList

def mboxSeparatorDate : Str := "Mon Sep 17 00:00:00 2001".toList

/-- The line holds nothing but white space. -/
def isBlank (l : Str) : Bool := (trim l).isEmpty

/-- `is_git_show_header`. -/
def isGitShowHeader (line : Str) : Bool :=
  match stripPrefix line "commit ".toList with
  | some rest =>
    let sha := (firstWord rest).getD []
    7 ≤ sha.length && sha.all fun c => c.isDigit || ('a' ≤ c.toLower && c.toLower ≤ 'f')
  | none => false

/-- `has_subject_header` from a line on: the search stops at a blank line or at the first hit. -/
def hasSubjectHeaderIn : List Str → Outcome ConfigError Bool
  | [] => .ok false
  | l :: ls =>
    if isBlank l then .ok false
    else if byteLen l < 8 then hasSubjectHeaderIn ls
    else match sliceTo l 8 with
      | none => .panic
      | some name =>
        if toAsciiLowercase name = toAsciiLowercase "Subject:".toList then .ok true
        else hasSubjectHeaderIn ls

/-- `has_subject_header`. -/
def hasSubjectHeader (text : Str) : Outcome ConfigError Bool := hasSubjectHeaderIn (lines text)

/-- `classify`. -/
def classify (text : Str) : Outcome ConfigError PatchKind :=
  let first := ((lines text).find? (!isBlank ·)).getD []
  if isGitShowHeader first then .ok .gitShow
  else if "From ".toList <+: first then .ok .mbox
  else do
    let subject ← hasSubjectHeader text
    pure (if subject then .mbox else .bareDiff)

/-- `is_diff_start`. -/
def isDiffStart (line : Str) : Bool :=
  "diff --git ".toList <+: line || "diff -".toList <+: line || "--- ".toList <+: line ||
    "Index: ".toList <+: line

/-- `ensure_has_diff`. -/
def ensureHasDiff (text : Str) : Outcome ConfigError Unit :=
  if (lines text).any isDiffStart then .ok () else .err .patchNoDiff

/-- `ensure_trailing_newline`. -/
def ensureTrailingNewline (s : Str) : Str := if s.getLast? = some '\n' then s else s ++ ['\n']

/-- `synth_separator`. -/
def synthSeparator (sha : Str) : Str := "From ".toList ++ sha ++ ' ' :: mboxSeparatorDate

/-- `"0".repeat(40)`. -/
def zeroSha : Str := List.replicate 40 '0'

/-- `clean_subject`: without a leading `[PATCH …]` bracket. -/
def cleanSubject (subject : Str) : Str :=
  let s := trim subject
  match stripPrefix s ['['] with
  | none => s
  | some rest =>
    match find rest ']' with
    | none => s
    | some stop =>
      if "PATCH".toList <:+: toAsciiUppercase (rest.take stop) then trim (rest.drop (stop + 1)) else s

/-! ### Email headers -/

/-- The loop state of `parse_email_headers`: the map and the key a continuation line belongs to. -/
structure Headers where
  map : ExtTreeMap Str Str compare
  lastKey : Option Str

def Headers.empty : Headers := ⟨∅, none⟩

/-- A continuation line: it starts with white space of the header syntax. -/
def isContinuation (line : Str) : Bool := line.head? = some ' ' || line.head? = some '\t'

/-- One non-blank line of the header block. -/
def Headers.step (h : Headers) (line : Str) : Headers :=
  if isContinuation line then
    match h.lastKey with
    | none => h
    | some key =>
      match h.map[key]? with
      | none => h
      | some value => { h with map := h.map.insert key (value ++ ' ' :: trim line) }
  else match splitOnce line ':' with
    | none => h
    | some (name, value) =>
      let key := toAsciiLowercase (trim name)
      ⟨h.map.insert key (trim value), some key⟩

/-- `parse_email_headers`: the header block, up to the first blank line. -/
def parseEmailHeaders (text : Str) : ExtTreeMap Str Str compare :=
  (((lines text).takeWhile (!isBlank ·)).foldl Headers.step Headers.empty).map

/-! ### Rendering -/

/-- The date of a patch without one. -/
def epochDate : Str := "Thu, 1 Jan 1970 00:00:00 +0000".toList

/-- The header lines behind the separator, and the blank line that ends them. -/
def headerBlock (author date subject : Str) : Str :=
  "From: ".toList ++ author ++ ['\n'] ++ ("Date: ".toList ++ date ++ ['\n']) ++
    ("Subject: [PATCH] ".toList ++ subject ++ ['\n']) ++ ['\n']

/-- The `Origin:` trailer. -/
def trailer (origin : Str) : Str := "Origin: ".toList ++ origin ++ ['\n']

/-- The message behind the subject: the body, and the trailer. -/
def prose (body : Str) (origin : Option Str) : Str :=
  let body := trimEnd body
  (if body.isEmpty then [] else body ++ ['\n']) ++
    match origin with
    | none => []
    | some origin => (if body.isEmpty then [] else ['\n']) ++ trailer origin

/-- `render_mbox`. -/
def renderMbox (sha author : Str) (date : Option Str) (subject body : Str) (origin : Option Str)
    (diff : Str) : Str :=
  ensureTrailingNewline (synthSeparator sha ++ '\n' ::
    headerBlock author (date.getD epochDate) subject ++ prose body origin ++ "---\n".toList ++ diff)

/-- `splice_origin_trailer`: before the `---` cut, or the first diff line when there is no cut. -/
def spliceOriginTrailer (mbox origin : Str) : Str :=
  match cutBefore "\n---\n".toList mbox with
  | some (head, tail) => head ++ ['\n'] ++ trailer origin ++ tail.drop 1
  | none =>
    if (lines mbox).any isDiffStart then
      unlines ((lines mbox).takeWhile (!isDiffStart ·)) ++ trailer origin ++
        unlines ((lines mbox).dropWhile (!isDiffStart ·))
    else ensureTrailingNewline mbox ++ trailer origin

/-! ### The three shapes -/

/-- The separator line of a mailbox, when the text starts with one, and what follows it. -/
def splitSeparator (text : Str) : Str × Str :=
  match splitOnce text '\n' with
  | some (first, rest) =>
    if "From ".toList <+: first then (first, rest) else (synthSeparator zeroSha, text)
  | none => (synthSeparator zeroSha, text)

/-- `normalize_mbox`. -/
def normalizeMbox (text : Str) (imp : ImportMeta) : Outcome ConfigError Normalized := do
  let (separator, rest) := splitSeparator (text.dropWhile (· = '\n'))
  let subject ← Outcome.okOr
    (((parseEmailHeaders rest)[("subject".toList : Str)]?).map cleanSubject) .patchMissingSubject
  ensureHasDiff rest
  let mbox := separator ++ ['\n'] ++ rest
  let mbox := match imp.origin with
    | some origin => spliceOriginTrailer mbox origin
    | none => mbox
  pure { mbox := ensureTrailingNewline mbox, subject := subject, kind := .mbox }

/-- `header_value`. -/
def headerValue (line name : Str) : Option Str := (stripPrefix line name).map trim

/-- One line of the `git show` header: the author and the date so far. -/
def headerStep (acc : Option Str × Option Str) (line : Str) : Option Str × Option Str :=
  match headerValue line "Author:".toList with
  | some v => (some v, acc.2)
  | none =>
    match headerValue line "Date:".toList with
    | some v => (acc.1, some v)
    | none => acc

/-- `dedent`: without up to `n` leading spaces. -/
def dedent : Str → Nat → Str
  | ' ' :: s, n + 1 => dedent s n
  | s, _ => s

/-- `split_subject_body`: the first non-blank line, and the rest. -/
def splitSubjectBody (ls : List Str) : Str × Str :=
  match ls.dropWhile isBlank with
  | [] => ([], [])
  | first :: rest => (trim first, trim (join ['\n'] rest))

/-- The lines behind the header block of a `git show`. -/
def gitShowBody (text : Str) : List Str := ((lines text).tail.dropWhile (!isBlank ·)).tail

/-- The message of a `git show`, dedented. -/
def gitShowMessage (text : Str) : List Str :=
  ((gitShowBody text).takeWhile (!isDiffStart ·)).map (dedent · 4)

/-- The diff of a `git show`, from its lines. -/
def gitShowDiff (text : Str) : Str :=
  match (gitShowBody text).dropWhile (!isDiffStart ·) with
  | [] => []
  | line :: rest =>
    let rest := join ['\n'] rest
    line ++ ['\n'] ++ if rest.isEmpty then [] else rest ++ ['\n']

/-- The commit a `git show` names in its first line. -/
def gitShowSha (text : Str) : Str :=
  ((stripPrefix ((lines text).head?.getD []) "commit ".toList).bind firstWord).getD ['0']

/-- `normalize_git_show`. -/
def normalizeGitShow (text : Str) (imp : ImportMeta) : Outcome ConfigError Normalized :=
  let header := (lines text).tail.takeWhile (!isBlank ·)
  let (author, date) := header.foldl headerStep (none, none)
  let diff := gitShowDiff text
  if (trim diff).isEmpty then .err .patchNoDiff
  else
    let (subjectFromMsg, body) := splitSubjectBody (gitShowMessage text)
    let subject := trim (imp.subject.getD subjectFromMsg)
    if subject.isEmpty then .err .patchMissingSubject
    else
      let author := (author.or imp.author).getD defaultAuthor
      .ok { mbox := renderMbox (gitShowSha text) author date subject body imp.origin diff
            subject := subject
            kind := .gitShow }

/-- `derive_subject`: from the first changed file. -/
def deriveSubjectFrom : List Str → Option Str
  | [] => none
  | line :: ls =>
    match (stripPrefix line "diff --git a/".toList).bind fun rest =>
        (cutBefore " b/".toList rest).map (·.1) with
    | some path => some ("update ".toList ++ path)
    | none =>
      match stripPrefix line "+++ b/".toList with
      | some rest => some ("update ".toList ++ (firstWord rest).getD rest)
      | none => deriveSubjectFrom ls

def deriveSubject (diff : Str) : Option Str := deriveSubjectFrom (lines diff)

/-- The diff of a freeform patch: the lines from the first marker on. -/
def bareDiff (text : Str) : Str :=
  ensureTrailingNewline (join ['\n'] ((lines text).dropWhile (!isDiffStart ·)))

/-- The subject of a freeform patch: the one given, or one derived from its first file. -/
def bareSubject (diff : Str) (imp : ImportMeta) : Outcome ConfigError Str :=
  match imp.subject with
  | some s => .ok (trim s)
  | none => Outcome.okOr (deriveSubject diff) .patchMissingSubject

/-- `normalize_bare_diff`. -/
def normalizeBareDiff (text : Str) (imp : ImportMeta) : Outcome ConfigError Normalized :=
  if (lines text).any isDiffStart then do
    let diff := bareDiff text
    let subject ← bareSubject diff imp
    pure { mbox := renderMbox zeroSha (imp.author.getD defaultAuthor) none subject [] imp.origin diff
           subject := subject
           kind := .bareDiff }
  else .err .patchNoDiff

/-- `normalize`. -/
def normalize (text : Str) (imp : ImportMeta) : Outcome ConfigError Normalized :=
  if (trim text).isEmpty then .err .patchEmpty
  else do
    let kind ← classify text
    match kind with
    | .mbox => normalizeMbox text imp
    | .gitShow => normalizeGitShow text imp
    | .bareDiff => normalizeBareDiff text imp

end Boot2Deb.Mbox
