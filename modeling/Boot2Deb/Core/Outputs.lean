import Boot2Deb.Rust.Text
import Boot2Deb.Lib.Keyed
import Boot2Deb.Lib.TreeMap
import Boot2Deb.Core.FilesDiff

/-!
# Build outputs

The artifacts a build emitted, the judgement of a reproduction against the original's, and the
record committed beside a lock, which holds the outputs of each build host that are a function of
the lock. What is recorded and checked again on the same host reproduces; a check reproduces exactly
if every recorded row is among the compared outputs with its digest: `record_check`.
-/

namespace Boot2Deb.Core.Outputs

open Rust Files Std

/-- One artifact a build emitted. -/
structure Output where
  step : Str
  role : Str
  file : Str
  size : UInt64
  sha256 : Str
  perImage : Bool
deriving DecidableEq

/-- A disk image or a container of one. -/
def Output.isDiskImage (o : Output) : Bool :=
  o.step = "image".toList && ["image".toList, "boot_img".toList, "rootfs_img".toList,
    "compressed".toList].contains o.role

/-- Two builds' images compared: their files, and a sentence for each difference of the disks. -/
structure ImageComparison where
  files : FilesDiff
  disk : List Str

inductive Verdict where
  | identical
  | differs (detail : Str)
  | missing
  | notComparable (reason : Str)
deriving DecidableEq

def Verdict.isFailure : Verdict → Bool
  | differs _ => true
  | missing => true
  | _ => false

structure OutputVerdict where
  file : Str
  step : Str
  role : Str
  verdict : Verdict

/-- A reproduction judged: a verdict for each output the original recorded, the outputs it did not
record, and the per-image paths set aside. -/
structure Reproduction where
  outputs : List OutputVerdict
  unrecorded : List Str
  setAside : List Str

def Reproduction.reproduced (r : Reproduction) : Bool :=
  !r.outputs.any fun o => o.verdict.isFailure

/-- The first twelve bytes of a digest, all of it where they end inside a character. -/
def short (hash : Str) : Str := (sliceTo hash 12).getD hash

/-- A sentence naming how many paths differ, with the first three. -/
def filesDetail (diff : FilesDiff) : Str :=
  let paths := diff.added.map (· ++ " (added)".toList) ++
    diff.removed.map (· ++ " (removed)".toList) ++
    diff.changed.map fun c => c.path ++ " (".toList ++ join ", ".toList c.fields ++ ")".toList
  Nat.toDigits 10 paths.length ++ " path(s) differ outside the per-image password: ".toList ++
    join "; ".toList (paths.take 3) ++
    if 3 < paths.length then
      "; and ".toList ++ Nat.toDigits 10 (paths.length - 3) ++ " more".toList
    else []

/-- The verdict on one output of the original. The images are what of their comparison remains. -/
def judgeOutput (reproduced : List Output) (images : Option (FilesDiff × List Str)) (o : Output) :
    Verdict :=
  match firstWith Output.file reproduced o.file with
  | none => .missing
  | some r =>
    if o.perImage then
      match images with
      | some (rest, disk) =>
        if rest.isEmpty && disk.isEmpty then .identical
        else .differs (join ". ".toList (disk ++ if rest.isEmpty then [] else [filesDetail rest]))
      | none => .notComparable ("it contains the per-image password, and one of the two ".toList ++
          "builds recorded no file manifest to compare it through".toList)
    else if r.sha256 = o.sha256 then .identical
    else .differs ("sha256 ".toList ++ short o.sha256 ++ " -> ".toList ++ short r.sha256 ++
      ", ".toList ++ Nat.toDigits 10 o.size.toNat ++ " -> ".toList ++
      Nat.toDigits 10 r.size.toNat ++ " bytes".toList)

def judge (original reproduced : List Output) (images : Option ImageComparison) : Reproduction :=
  let rest := images.map fun c => (c.files.withoutPerImage, c.disk)
  { outputs := original.map fun o =>
      ⟨o.file, o.step, o.role, judgeOutput reproduced (rest.map fun r => (r.1.1, r.2)) o⟩
    unrecorded :=
      (reproduced.filter fun r => !original.any fun o => o.file = r.file).map Output.file
    setAside := (rest.map fun r => r.1.2).getD [] }

/-! ### The committed record -/

/-- One output of the committed record. -/
structure CommittedOutput where
  step : Str
  role : Str
  file : Str
  size : UInt64
  sha256 : Str
deriving DecidableEq

/-- The outputs of each build host. -/
structure CommittedOutputs where
  hosts : ExtTreeMap Str (List CommittedOutput) compare

/-- An output the record holds: no per-image output and no disk image. -/
def Output.isCommitted (o : Output) : Bool := !o.perImage && !o.isDiskImage

def Output.committed (o : Output) : CommittedOutput := ⟨o.step, o.role, o.file, o.size, o.sha256⟩

def CommittedOutput.output (c : CommittedOutput) : Output :=
  ⟨c.step, c.role, c.file, c.size, c.sha256, false⟩

/-- `sort_by` of the file name, a stable sort. -/
def sortByFile (rows : List CommittedOutput) : List CommittedOutput :=
  rows.insertionSort fun a b => StrLe a.file b.file

/-- The rows a host's entry gets. -/
def rowsOf (outputs : List Output) : List CommittedOutput :=
  sortByFile ((outputs.filter Output.isCommitted).map Output.committed)

def CommittedOutputs.record (m : CommittedOutputs) (hostArch : Str) (outputs : List Output) :
    CommittedOutputs :=
  ⟨m.hosts.insert hostArch (rowsOf outputs)⟩

def CommittedOutputs.check (m : CommittedOutputs) (hostArch : Str) (outputs : List Output) :
    Option Reproduction :=
  m.hosts[hostArch]?.map fun rows =>
    judge (rows.map CommittedOutput.output) (outputs.filter Output.isCommitted) none

/-! ### What a check says -/

variable {m : CommittedOutputs} {hostArch : Str} {built outputs : List Output}
  {row : CommittedOutput}

/-- A row is met by a compared output of its name and digest. -/
def Met (built : List Output) (row : CommittedOutput) : Prop :=
  ∃ o ∈ built, o.isCommitted = true ∧ o.file = row.file ∧ o.sha256 = row.sha256

theorem firstWith_of_nodup (hn : (built.map Output.file).Nodup) {o : Output} (ho : o ∈ built)
    (hc : o.isCommitted = true) :
    firstWith Output.file (built.filter Output.isCommitted) o.file = some o := by
  have hsub : ((built.filter Output.isCommitted).map Output.file).Nodup :=
    hn.sublist (List.filter_sublist.map _)
  exact (firstWith_eq_some_iff hsub).mpr ⟨List.mem_filter.mpr ⟨ho, hc⟩, rfl⟩

theorem judgeOutput_committed {reproduced : List Output} :
    (judgeOutput reproduced none row.output).isFailure = false ↔
      ∃ r, firstWith Output.file reproduced row.file = some r ∧ r.sha256 = row.sha256 := by
  unfold judgeOutput CommittedOutput.output
  cases firstWith Output.file reproduced row.file with
  | none => simp [Verdict.isFailure]
  | some r =>
    by_cases hsha : r.sha256 = row.sha256 <;> simp [hsha, Verdict.isFailure]

theorem not_isFailure_iff (hn : (built.map Output.file).Nodup) :
    (judgeOutput (built.filter Output.isCommitted) none row.output).isFailure = false ↔
      Met built row := by
  rw [judgeOutput_committed]
  constructor
  · rintro ⟨r, hr, hsha⟩
    obtain ⟨hmem, hfile⟩ := mem_of_firstWith hr
    obtain ⟨hbuilt, hc⟩ := List.mem_filter.mp hmem
    exact ⟨r, hbuilt, hc, hfile, hsha⟩
  · rintro ⟨o, ho, hc, hfile, hsha⟩
    exact ⟨o, hfile ▸ firstWith_of_nodup hn ho hc, hsha⟩

theorem judge_reproduced_iff (hn : (built.map Output.file).Nodup) (rows : List CommittedOutput) :
    (judge (rows.map CommittedOutput.output) (built.filter Output.isCommitted) none).reproduced =
      true ↔ ∀ row ∈ rows, Met built row := by
  unfold Reproduction.reproduced judge
  rw [Bool.not_eq_true', List.any_eq_false]
  simp only [List.map_map, List.forall_mem_map, Function.comp_apply, Option.map_none,
    Bool.not_eq_true, not_isFailure_iff hn]

theorem mem_rowsOf : row ∈ rowsOf outputs ↔
    ∃ o ∈ outputs, o.isCommitted = true ∧ o.committed = row := by
  unfold rowsOf sortByFile
  rw [List.mem_insertionSort, List.mem_map]
  simp [List.mem_filter, and_assoc]

/-- Every row of a record of the outputs is met by them. -/
theorem met_of_mem_rowsOf (h : row ∈ rowsOf outputs) : Met outputs row := by
  obtain ⟨o, ho, hc, rfl⟩ := mem_rowsOf.mp h
  exact ⟨o, ho, hc, rfl, rfl⟩

/-- What is recorded reproduces; a check reproduces exactly if every row recorded for the host is met
by a compared output; the entries of the other hosts stay as they were. -/
theorem record_check (m : CommittedOutputs) (hostArch : Str) (built : List Output)
    (hn : (built.map Output.file).Nodup) :
    ((m.record hostArch built).check hostArch built).map Reproduction.reproduced = some true ∧
      ((m.check hostArch built).isSome ↔ m.hosts[hostArch]?.isSome) ∧
      (∀ rows, m.hosts[hostArch]? = some rows →
        ((m.check hostArch built).map Reproduction.reproduced = some true ↔
          ∀ row ∈ rows, Met built row)) ∧
      ∀ other, other ≠ hostArch → (m.record hostArch built).hosts[other]? = m.hosts[other]? := by
  refine ⟨?recorded, ?answers, ?reproduced, ?frame⟩
  case recorded =>
    have hentry : (m.record hostArch built).hosts[hostArch]? = some (rowsOf built) :=
      ExtTreeMap.getElem?_insert_self
    unfold CommittedOutputs.check
    rw [hentry, Option.map_some, Option.map_some, Option.some.injEq, judge_reproduced_iff hn]
    exact fun row hrow => met_of_mem_rowsOf hrow
  case answers =>
    unfold CommittedOutputs.check
    rw [Option.isSome_map]
  case reproduced =>
    intro rows hrows
    unfold CommittedOutputs.check
    rw [hrows, Option.map_some, Option.map_some, Option.some.injEq, judge_reproduced_iff hn]
  case frame =>
    intro other hother
    unfold CommittedOutputs.record
    rw [ExtTreeMap.getElem?_insert, if_neg]
    intro h
    exact hother (Std.LawfulEqCmp.eq_of_compare h).symm

def kernelDeb (perImage : Bool) : Output :=
  ⟨"kernel".toList, "image_deb".toList, "linux-image.deb".toList, 7, "00ff".toList, perImage⟩

theorem record_check_kernelDeb : ∃ r : Reproduction, r.reproduced = true ∧
    ((CommittedOutputs.mk ∅).record "arm64".toList [kernelDeb false]).check "arm64".toList
      [kernelDeb false] = some r := by
  obtain ⟨r, hr, hok⟩ := Option.map_eq_some_iff.mp
    (record_check ⟨∅⟩ "arm64".toList [kernelDeb false] (List.nodup_singleton _)).1
  exact ⟨r, hok, hr⟩

/-- An output of the name and the digest that now carries the password does not count. -/
theorem perImage_not_compared : ¬∀ (m : CommittedOutputs) (hostArch : Str) (built : List Output),
    (built.map Output.file).Nodup →
      ((m.check hostArch built).map Reproduction.reproduced = some true ↔
        ∀ rows, m.hosts[hostArch]? = some rows → ∀ row ∈ rows,
          ∃ o ∈ built, o.file = row.file ∧ o.sha256 = row.sha256) := by
  intro h
  have hentry : ((CommittedOutputs.mk ∅).record "arm64".toList
      [kernelDeb false]).hosts["arm64".toList]? = some [(kernelDeb false).committed] :=
    ExtTreeMap.getElem?_insert_self
  have hcheck := (h ((CommittedOutputs.mk ∅).record "arm64".toList [kernelDeb false])
    "arm64".toList [kernelDeb true] (List.nodup_singleton _)).mpr ?_
  · unfold CommittedOutputs.check at hcheck
    rw [hentry] at hcheck
    cases hcheck
  · intro rows hrows row hrow
    obtain rfl := Option.some.inj (hentry.symm.trans hrows)
    obtain rfl := List.mem_singleton.mp hrow
    exact ⟨kernelDeb true, List.mem_singleton_self _, rfl, rfl⟩

end Boot2Deb.Core.Outputs
