import Mathlib
import Boot2Deb.Core.Nuget
import Boot2Deb.Lib.Volume

/-!
# The .NET download store

The store keeps every download under its sha512, and a build's folder feed is linked out of it, so
that a stored file and its entry in the feed are one inode. A build fills the feed from a manifest:
it empties the feed, fetches what the store lacks and links every package, or copies it where the
link fails. Any of these steps may fail. The copy writes through whatever has the package's name in
the feed: as long as the packages of a manifest have names of their own, nothing has.
-/

namespace Boot2Deb.Engine.Dotnet

open Rust Core.Nuget Lib

/-- The files of the store, and those of the folder feeds. -/
inductive Place where
  | stored (name : Str)
  | fed (feed name : Str)
deriving DecidableEq

abbrev Disk := Volume Place Bytes

inductive DotnetError where
  | io (place : Place)
  | ioFeed (feed : Str)
  | fetch (what url detail : Str)
  | hashMismatch (what url expected actual : Str)
deriving DecidableEq

/-- How far the writing of a file goes: the file is not opened, it is cut off behind some bytes, or
it is whole. -/
inductive WriteEnd where
  | unopened
  | stopped (n : ℕ)
  | whole

/-- What comes of the steps for one package: the body the server sends, and which of the calls to
the system succeed. -/
structure Faults where
  fetched : Except Str Bytes
  written : WriteEnd
  renamed : Bool
  removed : Bool
  linked : Bool
  copied : WriteEnd

/-- One `materialize_feed`: the process it runs in, its arguments, the files that stay where the
feed is not emptied, and what comes of its steps. -/
structure Call where
  pid : ℕ
  manifest : NugetManifest
  feed : Str
  kept : Option (Str → Bool)
  created : Bool
  faults : ℕ → Faults

/-- One pinned download. -/
structure Pinned where
  what : Str
  url : Str
  sha512 : Str
  extension : Str

def NUGET_FLAT_CONTAINER : Str := "https://api.nuget.org/v3-flatcontainer".toList

def packageUrl (p : NugetPackage) : Str :=
  NUGET_FLAT_CONTAINER ++ '/' :: (p.id ++ '/' :: (p.version ++ '/' :: p.fileName))

def pinned (p : NugetPackage) : Pinned where
  what := "NuGet package ".toList ++ p.id ++ ' ' :: p.version
  url := packageUrl p
  sha512 := p.sha512
  extension := "nupkg".toList

/-- The name of a stored file. -/
def pathFor (sha512 extension : Str) : Str := sha512 ++ '.' :: extension

/-- The name of the temp beside it. -/
def tempFor (sha512 : Str) (pid : ℕ) : Str :=
  '.' :: (sha512 ++ '.' :: (Nat.toDigits 10 pid ++ ".partial".toList))

/-- `fs::write`, and whether it succeeds. -/
def writeFile (d : Disk) (place : Place) (bytes : Bytes) : WriteEnd → Disk × Bool
  | .unopened => (d, false)
  | .stopped n => (d.write place (bytes.take n), false)
  | .whole => (d.write place bytes, true)

/-- `fs::copy`: the target is cut to nothing, then the source is read. -/
def copyFile (d : Disk) (source target : Place) (copied : WriteEnd) : Disk × Bool :=
  match copied with
  | .unopened => (d, false)
  | copied =>
    let d := d.write target []
    writeFile d target ((d.read source).getD []) copied

section Store
variable (sha512Hex : Bytes → Str)

/-- `Sha512Store::put_bytes`: the stored name. -/
def putBytes (d : Disk) (bytes : Bytes) (pin : Pinned) (pid : ℕ) (f : Faults) :
    Disk × Except DotnetError Str :=
  if sha512Hex bytes ≠ pin.sha512 then
    (d, .error (.hashMismatch pin.what pin.url pin.sha512 (sha512Hex bytes)))
  else
    match writeFile d (.stored (tempFor pin.sha512 pid)) bytes f.written with
    | (d, false) => (d, .error (.io (.stored (tempFor pin.sha512 pid))))
    | (d, true) =>
      if f.renamed then
        (d.rename (.stored (tempFor pin.sha512 pid)) (.stored (pathFor pin.sha512 pin.extension)),
          .ok (pathFor pin.sha512 pin.extension))
      else
        (if f.removed then d.keep fun k => k ≠ .stored (tempFor pin.sha512 pid) else d,
          .error (.io (.stored (pathFor pin.sha512 pin.extension))))

/-- `Sha512Store::fetch_pinned`. A name that is there is not hashed again. -/
def fetchPinned (d : Disk) (pin : Pinned) (pid : ℕ) (f : Faults) : Disk × Except DotnetError Str :=
  if (d.names (.stored (pathFor pin.sha512 pin.extension))).isSome then
    (d, .ok (pathFor pin.sha512 pin.extension))
  else
    match f.fetched with
    | .error detail => (d, .error (.fetch pin.what pin.url detail))
    | .ok bytes => putBytes sha512Hex d bytes pin pid f

/-- A hard link, or a copy where there can be none. -/
def linkOrCopy (d : Disk) (source target : Place) (f : Faults) : Disk × Except DotnetError Unit :=
  match if f.linked then d.link source target else none with
  | some d => (d, .ok ())
  | none =>
    match copyFile d source target f.copied with
    | (d, true) => (d, .ok ())
    | (d, false) => (d, .error (.io target))

/-- One turn of the loop over the packages. -/
def layPackage (d : Disk) (feed : Str) (pid : ℕ) (p : NugetPackage) (f : Faults) :
    Disk × Except DotnetError Unit :=
  match fetchPinned sha512Hex d (pinned p) pid f with
  | (d, .error e) => (d, .error e)
  | (d, .ok stored) => linkOrCopy d (.stored stored) (.fed feed p.fileName) f

def layPackages (feed : Str) (pid : ℕ) :
    List NugetPackage → (ℕ → Faults) → Disk → Disk × Except DotnetError Unit
  | [], _, d => (d, .ok ())
  | p :: packages, faults, d =>
    match layPackage sha512Hex d feed pid p (faults 0) with
    | (d, .error e) => (d, .error e)
    | (d, .ok ()) => layPackages feed pid packages (fun n => faults (n + 1)) d

/-- Whether a file stays behind `remove_dir_all` of a feed. -/
def stays (feed : Str) (kept : Str → Bool) : Place → Bool
  | .stored _ => true
  | .fed feed' name => feed' ≠ feed || kept name

def materializeFeed (d : Disk) (c : Call) : Disk × Except DotnetError Unit :=
  match c.kept with
  | some kept => (d.keep (stays c.feed kept), .error (.ioFeed c.feed))
  | none =>
    let d := d.keep (stays c.feed fun _ => false)
    if c.created then layPackages sha512Hex c.feed c.pid c.manifest.packages c.faults d
    else (d, .error (.ioFeed c.feed))

/-- The disk behind a sequence of calls. -/
def run (d : Disk) (calls : List Call) : Disk :=
  calls.foldl (fun d c => (materializeFeed sha512Hex d c).1) d

/-! ### What the store promises -/

/-- A file's bytes hash to the digest in its name. -/
def HashesToName (name : Str) (bytes : Bytes) : Prop :=
  ∃ digest extension, isSha512Hex digest = true ∧ name = pathFor digest extension ∧
    sha512Hex bytes = digest

/-- A name of a temp. -/
def IsTemp (name : Str) : Prop := name.head? = some '.'

/-- Every file hashes to its name, the temps of interrupted writes apart. -/
def StoreHashed (d : Disk) : Prop :=
  ∀ name bytes, d.read (.stored name) = some bytes → IsTemp name ∨ HashesToName sha512Hex name bytes

/-- A feed holds one file for each package, of the bytes the package is pinned to, and no more. -/
structure FeedHolds (d : Disk) (feed : Str) (packages : List NugetPackage) : Prop where
  file : ∀ p ∈ packages, ∃ bytes, d.read (.fed feed p.fileName) = some bytes ∧
    sha512Hex bytes = p.sha512
  own : ∀ p ∈ packages, ∀ q ∈ packages, p.fileName = q.fileName → p = q
  only : ∀ name bytes, d.read (.fed feed name) = some bytes → ∃ p ∈ packages, p.fileName = name

end Store

/-- No two packages have one file name. -/
def NamesApart (packages : List NugetPackage) : Prop :=
  ∀ p ∈ packages, ∀ q ∈ packages, p.fileName = q.fileName → p = q

/-- A manifest that was checked. -/
def Validated (m : NugetManifest) : Prop := ∃ origin, m.validate origin = .ok ()

/-! ### Digests and names -/

variable {sha512Hex : Bytes → Str}

theorem dot_notMem_of_isSha512Hex {s : Str} (h : isSha512Hex s = true) : '.' ∉ s := by
  intro hmem
  have hbyte : (46 : UInt8) ∈ asBytes s := List.mem_flatMap.mpr ⟨'.', hmem, by decide⟩
  have hall := List.all_eq_true.mp ((Bool.and_eq_true_iff.mp h).2) 46 hbyte
  exact absurd hall (by decide)

theorem isTemp_tempFor (sha512 : Str) (pid : ℕ) : IsTemp (tempFor sha512 pid) := rfl

theorem not_isTemp_pathFor {sha512 extension : Str} (h : isSha512Hex sha512 = true) :
    ¬IsTemp (pathFor sha512 extension) := by
  have hdot := dot_notMem_of_isSha512Hex h
  rcases sha512 with _ | ⟨c, sha512⟩
  · exact absurd h (by decide)
  · intro htemp
    exact hdot (Option.some.inj htemp ▸ List.mem_cons_self)

/-- A name promises one digest. -/
theorem HashesToName.eq {sha512 extension : Str} {bytes : Bytes}
    (h : HashesToName sha512Hex (pathFor sha512 extension) bytes) (hhex : isSha512Hex sha512 = true) :
    sha512Hex bytes = sha512 := by
  obtain ⟨digest, extension', hdigest, hname, rfl⟩ := h
  have hdot := dot_notMem_of_isSha512Hex hhex
  have hdot' := dot_notMem_of_isSha512Hex hdigest
  rcases List.append_eq_append_iff.mp hname with ⟨mid, heq, hrest⟩ | ⟨mid, heq, hrest⟩
  · rcases mid with _ | ⟨c, mid⟩
    · rw [heq, List.append_nil]
    · rw [(List.cons.inj hrest).1, heq] at hdot'
      exact absurd (List.mem_append_right _ List.mem_cons_self) hdot'
  · rcases mid with _ | ⟨c, mid⟩
    · rw [heq, List.append_nil]
    · rw [(List.cons.inj hrest).1, heq] at hdot
      exact absurd (List.mem_append_right _ List.mem_cons_self) hdot

/-! ### What the steps keep -/

variable (sha512Hex) in
/-- The store is hashed, and no temp shares its bytes. -/
structure Sound (d : Disk) : Prop where
  hashed : StoreHashed sha512Hex d
  apart : ∀ name, IsTemp name → d.Alone (.stored name)

variable {d : Disk} {k source target : Place} {b bytes : Bytes} {name feed file : Str} {f : Faults}

theorem Sound.keep (h : Sound sha512Hex d) (p : Place → Bool) : Sound sha512Hex (d.keep p) where
  hashed name bytes hread := by
    rw [Volume.read_keep, Option.ite_none_right_eq_some] at hread
    exact h.hashed name bytes hread.2
  apart name htemp := (h.apart name htemp).keep p

/-- Whatever is written to a place of its own that is no stored file. -/
theorem Sound.write (h : Sound sha512Hex d) (halone : d.Alone k)
    (hk : ∀ name, k = .stored name → IsTemp name) : Sound sha512Hex (d.write k b) where
  hashed name bytes hread := by
    by_cases hname : Place.stored name = k
    · exact Or.inl (hk name hname.symm)
    · rw [halone.read_write hname] at hread
      exact h.hashed name bytes hread
  apart name htemp := (h.apart name htemp).write

theorem Sound.rename (h : Sound sha512Hex d) {tmp : Str} (hread : d.read (.stored tmp) = some bytes)
    (hname : HashesToName sha512Hex name bytes) (hne : ¬IsTemp name) :
    Sound sha512Hex (d.rename (.stored tmp) (.stored name)) where
  hashed name' bytes' hread' := by
    rw [Volume.read_rename] at hread'
    split_ifs at hread' with heq hold
    · obtain rfl := Option.some.inj (hread.symm.trans hread')
      rw [Place.stored.injEq] at heq
      exact Or.inr (heq ▸ hname)
    · exact h.hashed name' bytes' hread'
  apart name' htemp := by
    refine (h.apart name' htemp).rename fun heq => hne ?_
    rw [Place.stored.injEq] at heq
    exact heq ▸ htemp

theorem Sound.link (h : Sound sha512Hex d) {d' : Disk} (hname : ¬IsTemp name)
    (hlink : d.link (.stored name) (.fed feed file) = some d') : Sound sha512Hex d' where
  hashed name' bytes hread := by
    rw [Volume.read_link hlink, if_neg (by simp)] at hread
    exact h.hashed name' bytes hread
  apart name' htemp := by
    refine (h.apart name' htemp).link (fun heq => hname ?_) (by simp) hlink
    rw [Place.stored.injEq] at heq
    exact heq ▸ htemp

/-- The writing of a file that is alone changes nothing else, and is whole where it succeeds. -/
theorem writeFile_spec (h : Sound sha512Hex d) (halone : d.Alone k)
    (hk : ∀ name, k = .stored name → IsTemp name) (e : WriteEnd) :
    Sound sha512Hex (writeFile d k b e).1 ∧
    (∀ l, l ≠ k → (writeFile d k b e).1.read l = d.read l) ∧
    ((writeFile d k b e).2 = true → (writeFile d k b e).1.read k = some b) := by
  cases e with
  | unopened => exact ⟨h, fun _ _ => rfl, fun hok => nomatch hok⟩
  | stopped n =>
    exact ⟨h.write halone hk, fun _ hl => halone.read_write hl, fun hok => nomatch hok⟩
  | whole =>
    exact ⟨h.write halone hk, fun _ hl => halone.read_write hl, fun _ => Volume.read_write_self⟩

variable (sha512Hex) in
/-- What a fetch leaves: a sound disk with the files of all feeds as they were, and where it
succeeds a stored file of the pinned bytes. -/
structure Fetched (d : Disk) (sha512 : Str) (r : Disk × Except DotnetError Str) : Prop where
  sound : Sound sha512Hex r.1
  fed : ∀ feed name, r.1.read (.fed feed name) = d.read (.fed feed name)
  file : ∀ stored, r.2 = .ok stored → ¬IsTemp stored ∧
    ∃ bytes, r.1.read (.stored stored) = some bytes ∧ sha512Hex bytes = sha512

theorem Fetched.error (h : Sound sha512Hex d) {sha512 : Str} (e : DotnetError) :
    Fetched sha512Hex d sha512 (d, .error e) :=
  ⟨h, fun _ _ => rfl, fun _ hok => nomatch hok⟩

variable {pin : Pinned} {pid : ℕ}

theorem putBytes_fetched (h : Sound sha512Hex d) (hpin : isSha512Hex pin.sha512 = true) :
    Fetched sha512Hex d pin.sha512 (putBytes sha512Hex d bytes pin pid f) := by
  rw [putBytes]
  by_cases hhash : sha512Hex bytes = pin.sha512
  swap
  · rw [if_pos hhash]
    exact .error h _
  rw [if_neg (not_not_intro hhash)]
  have htemp := isTemp_tempFor pin.sha512 pid
  have hdest : ¬IsTemp (pathFor pin.sha512 pin.extension) := not_isTemp_pathFor hpin
  obtain ⟨hsound, hother, hwhole⟩ := @writeFile_spec _ _ (.stored (tempFor pin.sha512 pid)) bytes h
    (h.apart _ htemp) (fun name heq => Place.stored.inj heq ▸ htemp) f.written
  have hfed : ∀ feed name, (writeFile d (.stored (tempFor pin.sha512 pid)) bytes f.written).1.read
      (.fed feed name) = d.read (.fed feed name) := fun _ _ => hother _ (by simp)
  generalize writeFile d (.stored (tempFor pin.sha512 pid)) bytes f.written = w at *
  obtain ⟨d', written⟩ := w
  cases written with
  | false => exact ⟨hsound, hfed, fun _ hok => nomatch hok⟩
  | true =>
    have hread := hwhole rfl
    dsimp only
    split_ifs with hrenamed hremoved
    · refine ⟨hsound.rename hread ⟨_, _, hpin, rfl, hhash⟩ hdest, fun feed name => ?_,
        fun stored hok => ?_⟩
      · rw [Volume.read_rename, if_neg (by simp), if_neg (by simp), hfed]
      · obtain rfl := Except.ok.inj hok
        exact ⟨hdest, bytes, by rw [Volume.read_rename, if_pos rfl, hread], hhash⟩
    · refine ⟨hsound.keep _, fun feed name => ?_, fun _ hok => nomatch hok⟩
      rw [Volume.read_keep, if_pos (by simp), hfed]
    · exact ⟨hsound, hfed, fun _ hok => nomatch hok⟩

theorem fetchPinned_fetched (h : Sound sha512Hex d) (hpin : isSha512Hex pin.sha512 = true) :
    Fetched sha512Hex d pin.sha512 (fetchPinned sha512Hex d pin pid f) := by
  rw [fetchPinned]
  split_ifs with hthere
  · refine ⟨h, fun _ _ => rfl, fun stored hok => ?_⟩
    obtain rfl := Except.ok.inj hok
    have hdest : ¬IsTemp (pathFor pin.sha512 pin.extension) := not_isTemp_pathFor hpin
    rw [← Volume.isSome_read] at hthere
    obtain ⟨bytes, hread⟩ := Option.isSome_iff_exists.mp hthere
    refine ⟨hdest, bytes, hread, ?_⟩
    rcases h.hashed _ _ hread with htemp | hhashes
    · exact absurd htemp hdest
    · exact hhashes.eq hpin
  · cases f.fetched with
    | error detail => exact .error h _
    | ok bytes => exact putBytes_fetched h hpin

/-- Copied where nothing is, a file changes no other, and it has the bytes of the stored one. -/
theorem copyFile_spec (h : Sound sha512Hex d) (hread : d.read (.stored name) = some bytes)
    (hfree : d.read (.fed feed file) = none) (e : WriteEnd) :
    let r := copyFile d (.stored name) (.fed feed file) e
    Sound sha512Hex r.1 ∧ (∀ l, l ≠ .fed feed file → r.1.read l = d.read l) ∧
      (r.2 = true → r.1.read (.fed feed file) = some bytes) := by
  have halone : d.Alone (.fed feed file) :=
    Volume.alone_of_none (Option.map_eq_none_iff.mp hfree)
  have hfed : ∀ name', Place.fed feed file = .stored name' → IsTemp name' := fun _ heq => nomatch heq
  have hcut : Sound sha512Hex (d.write (.fed feed file) []) := h.write halone hfed
  have hother : ∀ l, l ≠ .fed feed file → (d.write (.fed feed file) []).read l = d.read l :=
    fun _ hl => halone.read_write hl
  have hsource : (d.write (.fed feed file) []).read (.stored name) = some bytes := by
    rw [hother _ (by simp), hread]
  have hwrite := @writeFile_spec _ _ _ bytes hcut halone.write hfed
  cases e with
  | unopened => exact ⟨h, fun _ _ => rfl, fun hok => nomatch hok⟩
  | stopped n =>
    obtain ⟨hsound, hrest, hwhole⟩ := hwrite (.stopped n)
    rw [copyFile, hsource, Option.getD_some]
    · exact ⟨hsound, fun l hl => (hrest l hl).trans (hother l hl), hwhole⟩
    · simp
  | whole =>
    obtain ⟨hsound, hrest, hwhole⟩ := hwrite .whole
    rw [copyFile, hsource, Option.getD_some]
    · exact ⟨hsound, fun l hl => (hrest l hl).trans (hother l hl), hwhole⟩
    · simp

theorem linkOrCopy_spec (h : Sound sha512Hex d) (hname : ¬IsTemp name)
    (hread : d.read (.stored name) = some bytes) (hfree : d.read (.fed feed file) = none) :
    let r := linkOrCopy d (.stored name) (.fed feed file) f
    Sound sha512Hex r.1 ∧ (∀ l, l ≠ .fed feed file → r.1.read l = d.read l) ∧
      (r.2 = .ok () → r.1.read (.fed feed file) = some bytes) := by
  rw [linkOrCopy]
  cases hlink : (if f.linked then d.link (.stored name) (.fed feed file) else none) with
  | some d' =>
    have hlinked := (Option.ite_none_right_eq_some.mp hlink).2
    refine ⟨h.link hname hlinked, fun l hl => ?_, fun _ => ?_⟩
    · exact (Volume.read_link hlinked).trans (if_neg hl)
    · exact (Volume.read_link hlinked).trans ((if_pos rfl).trans hread)
  | none =>
    obtain ⟨hsound, hother, hwhole⟩ := copyFile_spec h hread hfree f.copied
    generalize copyFile d (.stored name) (.fed feed file) f.copied = r at *
    obtain ⟨d', copied⟩ := r
    cases copied with
    | true => exact ⟨hsound, hother, fun _ => hwhole rfl⟩
    | false => exact ⟨hsound, hother, fun hok => nomatch hok⟩

/-- One package laid where nothing is. -/
theorem layPackage_spec {p : NugetPackage} (h : Sound sha512Hex d)
    (hp : isSha512Hex p.sha512 = true) (hfree : d.read (.fed feed p.fileName) = none) :
    let r := layPackage sha512Hex d feed pid p f
    Sound sha512Hex r.1 ∧
      (∀ feed' name, (feed' = feed → p.fileName ≠ name) →
        r.1.read (.fed feed' name) = d.read (.fed feed' name)) ∧
      (r.2 = .ok () → ∃ bytes, r.1.read (.fed feed p.fileName) = some bytes ∧
        sha512Hex bytes = p.sha512) := by
  rw [layPackage]
  have hfetch : Fetched sha512Hex d p.sha512 (fetchPinned sha512Hex d (pinned p) pid f) :=
    @fetchPinned_fetched _ _ f (pinned p) pid h hp
  generalize fetchPinned sha512Hex d (pinned p) pid f = r at *
  obtain ⟨d', result⟩ := r
  cases result with
  | error e => exact ⟨hfetch.sound, fun feed' name _ => hfetch.fed feed' name, fun hok => nomatch hok⟩
  | ok stored =>
    obtain ⟨hname, bytes, hread, hhash⟩ := hfetch.file stored rfl
    have hfree' : d'.read (.fed feed p.fileName) = none := (hfetch.fed _ _).trans hfree
    obtain ⟨hsound, hother, hwhole⟩ := @linkOrCopy_spec _ _ _ _ _ _ f hfetch.sound hname hread hfree'
    refine ⟨hsound, fun feed' name' hne => ?_, fun hok => ⟨bytes, hwhole hok, hhash⟩⟩
    refine (hother _ fun heq => ?_).trans (hfetch.fed feed' name')
    rw [Place.fed.injEq] at heq
    exact hne heq.1 heq.2.symm

/-- The loop, over packages whose names are free in the feed. -/
theorem layPackages_spec {packages : List NugetPackage} {faults : ℕ → Faults}
    (h : Sound sha512Hex d) (hp : ∀ p ∈ packages, isSha512Hex p.sha512 = true)
    (hfree : ∀ p ∈ packages, d.read (.fed feed p.fileName) = none)
    (hnames : packages.Pairwise fun p q => p.fileName ≠ q.fileName) :
    let r := layPackages sha512Hex feed pid packages faults d
    Sound sha512Hex r.1 ∧
      (∀ feed' name, (feed' = feed → ∀ p ∈ packages, p.fileName ≠ name) →
        r.1.read (.fed feed' name) = d.read (.fed feed' name)) ∧
      (r.2 = .ok () → ∀ p ∈ packages, ∃ bytes, r.1.read (.fed feed p.fileName) = some bytes ∧
        sha512Hex bytes = p.sha512) := by
  induction packages generalizing d faults with
  | nil => exact ⟨h, fun _ _ _ => rfl, fun _ p hmem => absurd hmem List.not_mem_nil⟩
  | cons p packages ih =>
    rw [List.forall_mem_cons] at hp hfree
    rw [List.pairwise_cons] at hnames
    rw [layPackages]
    obtain ⟨hsound, hother, hwhole⟩ := @layPackage_spec _ _ _ (faults 0) pid p h hp.1 hfree.1
    generalize layPackage sha512Hex d feed pid p (faults 0) = r at *
    obtain ⟨d', result⟩ := r
    cases result with
    | error e =>
      refine ⟨hsound, fun feed' name hne => hother feed' name fun heq => ?_, fun hok => nomatch hok⟩
      exact hne heq p List.mem_cons_self
    | ok _ =>
      have hfree' : ∀ q ∈ packages, d'.read (.fed feed q.fileName) = none := fun q hq =>
        (hother feed _ fun _ => hnames.1 q hq).trans (hfree.2 q hq)
      obtain ⟨hsound', hother', hwhole'⟩ := @ih d' (fun n => faults (n + 1)) hsound hp.2 hfree'
        hnames.2
      refine ⟨hsound', fun feed' name hne => ?_, fun hok => List.forall_mem_cons.mpr ⟨?_, ?_⟩⟩
      · rw [hother' feed' name fun heq q hq => hne heq q (List.mem_cons_of_mem _ hq)]
        exact hother feed' name fun heq => hne heq p List.mem_cons_self
      · obtain ⟨bytes, hread, hhash⟩ := hwhole rfl
        refine ⟨bytes, ?_, hhash⟩
        rw [hother' feed p.fileName fun _ q hq heq => hnames.1 q hq heq.symm]
        exact hread
      · exact hwhole' hok

/-! ### Calls -/

variable {c : Call}

theorem pinned_of_validated {m : NugetManifest} (h : Validated m) :
    (∀ p ∈ m.packages, isSha512Hex p.sha512 = true) ∧ m.packages.Nodup := by
  obtain ⟨origin, hvalid⟩ := h
  refine ⟨fun p hp => ?_, ?_⟩
  · have hdefect := checkEntries_eq_ok.mp (validate_eq_ok.mp hvalid).2.1 p hp
    rw [NugetPackage.defect] at hdefect
    split_ifs at hdefect with _ _ hhex
    simpa using hhex
  · refine (pins_rise hvalid).imp fun {p q} hlt heq => ?_
    have heq' : comparePins p q = .eq := comparePins_eq_iff.mpr ⟨heq ▸ rfl, heq ▸ rfl⟩
    exact nomatch hlt.symm.trans heq'

/-- A call keeps the disk sound, and where it succeeds the feed holds the packages. -/
theorem materializeFeed_spec (h : Sound sha512Hex d) (hvalid : Validated c.manifest)
    (hnames : NamesApart c.manifest.packages) :
    Sound sha512Hex (materializeFeed sha512Hex d c).1 ∧
      ((materializeFeed sha512Hex d c).2 = .ok () →
        FeedHolds sha512Hex (materializeFeed sha512Hex d c).1 c.feed c.manifest.packages) := by
  rw [materializeFeed]
  cases c.kept with
  | some kept => exact ⟨h.keep _, fun hok => nomatch hok⟩
  | none =>
    dsimp only
    split_ifs with hcreated
    swap
    · exact ⟨h.keep _, fun hok => nomatch hok⟩
    obtain ⟨hhex, hnodup⟩ := pinned_of_validated hvalid
    have hempty : ∀ name, (d.keep (stays c.feed fun _ => false)).read (.fed c.feed name) = none :=
      fun name => by
        rw [Volume.read_keep, if_neg (by simp [stays])]
    have hpairwise : c.manifest.packages.Pairwise fun p q => p.fileName ≠ q.fileName :=
      hnodup.imp_of_mem fun hp hq hne heq => hne (hnames _ hp _ hq heq)
    obtain ⟨hsound, hother, hwhole⟩ := @layPackages_spec _ _ c.feed c.pid _ c.faults (h.keep _) hhex
      (fun p _ => hempty p.fileName) hpairwise
    refine ⟨hsound, fun hok => ⟨hwhole hok, hnames, fun name bytes hread => ?_⟩⟩
    by_contra hnone
    rw [hother c.feed name fun _ p hp heq => hnone ⟨p, hp, heq⟩, hempty] at hread
    exact nomatch hread

theorem run_sound (h : Sound sha512Hex d) {calls : List Call}
    (hcalls : ∀ c ∈ calls, Validated c.manifest ∧ NamesApart c.manifest.packages) :
    Sound sha512Hex (run sha512Hex d calls) := by
  induction calls generalizing d with
  | nil => exact h
  | cons c calls ih =>
    rw [List.forall_mem_cons] at hcalls
    exact ih (materializeFeed_spec h hcalls.1.1 hcalls.1.2).1 hcalls.2

/-- A store without temps, all of whose files hash to their names, is sound. -/
theorem sound_of_hashed
    (h : ∀ name bytes, d.read (.stored name) = some bytes → HashesToName sha512Hex name bytes) :
    Sound sha512Hex d where
  hashed name bytes hread := Or.inr (h name bytes hread)
  apart name htemp := by
    refine Volume.alone_of_none (Option.eq_none_iff_forall_ne_some.mpr fun i hi => ?_)
    obtain ⟨digest, extension, hhex, rfl, -⟩ := h name (d.content i) (by rw [Volume.read, hi]; rfl)
    exact not_isTemp_pathFor hhex htemp

/-- Over every sequence of calls with checked manifests, as long as no two packages of a manifest
have one file name: the store stays hashed, and a call that succeeds leaves a feed of the pinned
packages. -/
theorem store_stays_hashed (sha512Hex : Bytes → Str) (d : Disk)
    (hstart : ∀ name bytes, d.read (.stored name) = some bytes → HashesToName sha512Hex name bytes)
    (calls : List Call) (c : Call)
    (hcalls : ∀ c' ∈ calls ++ [c], Validated c'.manifest ∧ NamesApart c'.manifest.packages) :
    StoreHashed sha512Hex (run sha512Hex d calls) ∧
      StoreHashed sha512Hex (materializeFeed sha512Hex (run sha512Hex d calls) c).1 ∧
      ((materializeFeed sha512Hex (run sha512Hex d calls) c).2 = .ok () →
        FeedHolds sha512Hex (materializeFeed sha512Hex (run sha512Hex d calls) c).1 c.feed
          c.manifest.packages) := by
  have hbefore := run_sound (sound_of_hashed hstart) fun c' hc' =>
    hcalls c' (List.mem_append_left _ hc')
  obtain ⟨hvalid, hnames⟩ := hcalls c (List.mem_append_right _ List.mem_cons_self)
  obtain ⟨hafter, hfeed⟩ := materializeFeed_spec hbefore hvalid hnames
  exact ⟨hbefore.hashed, hafter.hashed, hfeed⟩

/-- The digests of the empty string and of the two bytes below. -/
def digestOne : Str :=
  "7b54b66836c1fbdd13d2441d9e1434dc62ca677fb68f5fe66a464baadecdbd00".toList ++
  "576f8d6b5ac3bcc80844b7d50b1cc6603444bbe7cfcf8fc0aa1ee3c636d9e339".toList

def digestTwo : Str :=
  "fab848c9b657a853ee37c09cbfdd149d0b3807b191dde9b623ccd95281dd1870".toList ++
  "5b48c89b1503903845bba5753945351fe6b454852760f73529cf01ca8f69dcca".toList

def digestNone : Str :=
  "cf83e1357eefb8bdf1542850d66d8007d620e4050b5715dc83f4a921d36ce9ce".toList ++
  "47d0d13c5d85f2b0ff8318d2877eec2f63b931bd47417a81a538327af927da3e".toList

/-- SHA-512, on the bytes that are stored below. -/
def digests (bytes : Bytes) : Str :=
  if bytes = [1] then digestOne else if bytes = [2] then digestTwo else digestNone

def emptyDisk : Disk := ⟨fun _ => none, fun _ => [], 0, fun h => nomatch h⟩

/-- The server sends one byte, and nothing fails. -/
def served (byte : UInt8) : Faults := ⟨.ok [byte], .whole, true, true, true, .whole⟩

/-- A call over two packages. -/
def fill (packages : List NugetPackage) : Call where
  pid := 7
  manifest := ⟨"linux-x64".toList, packages⟩
  feed := "feed".toList
  kept := none
  created := true
  faults n := if n = 0 then served 1 else served 2

/-- Two packages with names of their own. -/
def namedApart : List NugetPackage :=
  [⟨"a".toList, "1.2".toList, digestOne⟩, ⟨"b".toList, "2".toList, digestTwo⟩]

theorem namedApart_stays_hashed :
    (materializeFeed digests (run digests emptyDisk []) (fill namedApart)).2 = .ok () ∧
      StoreHashed digests (materializeFeed digests (run digests emptyDisk []) (fill namedApart)).1 := by
  have hvalid : Validated (fill namedApart).manifest := ⟨[], by decide +kernel⟩
  have hnames : NamesApart (fill namedApart).manifest.packages := by
    rw [NamesApart]
    decide +kernel
  refine ⟨by decide +kernel, (store_stays_hashed digests emptyDisk (fun _ _ h => nomatch h) [] (fill namedApart)
    fun c' hc' => ?_).2.1⟩
  rw [List.nil_append, List.mem_singleton] at hc'
  exact hc' ▸ ⟨hvalid, hnames⟩

/-- Two packages with one name: `a` 1.2 and `a.1` 2. -/
def oneName : List NugetPackage :=
  [⟨"a".toList, "1.2".toList, digestOne⟩, ⟨"a.1".toList, "2".toList, digestTwo⟩]

/-- The copy of the second writes through the link of the first into the store. -/
theorem oneName_overwrites :
    ¬∀ (d : Disk) (calls : List Call) (c : Call),
      (∀ name bytes, d.read (.stored name) = some bytes → HashesToName digests name bytes) →
      (∀ c' ∈ calls ++ [c], Validated c'.manifest) →
      StoreHashed digests (materializeFeed digests (run digests d calls) c).1 ∧
        ((materializeFeed digests (run digests d calls) c).2 = .ok () →
          FeedHolds digests (materializeFeed digests (run digests d calls) c).1 c.feed
            c.manifest.packages) := by
  intro h
  have hvalid : Validated (fill oneName).manifest := ⟨[], by decide +kernel⟩
  have hhashed := (h emptyDisk [] (fill oneName) (fun _ _ h => nomatch h) fun c' hc' => by
    rw [List.nil_append, List.mem_singleton] at hc'
    exact hc' ▸ hvalid).1
  have hread : (materializeFeed digests emptyDisk (fill oneName)).1.read
      (.stored (pathFor digestOne "nupkg".toList)) = some [2] := by
    decide +kernel
  have hhex : isSha512Hex digestOne = true := by decide +kernel
  rcases hhashed _ _ hread with htemp | hhashes
  · exact not_isTemp_pathFor hhex htemp
  · exact absurd (hhashes.eq hhex) (by decide +kernel)

end Boot2Deb.Engine.Dotnet
