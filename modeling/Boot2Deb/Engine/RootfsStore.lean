import Mathlib
import Boot2Deb.Rust.Str
import Boot2Deb.Lib.Run

/-!
# The cached-root store

An entry of the store is a directory with a tarball and its manifest. A `put` stages both in a
directory of its process, moves a prior entry aside by one rename and publishes its own by another,
a `get` looks for the two files one after the other. The steps of any number of puts, each in a
process of its own, and of any number of gets come in any order, and every one may fail. A rename
happens or does not; any other step that fails may leave anything at the path it works on.
-/

namespace Boot2Deb.Engine.RootfsStore

open Rust

variable {Pid Getter : Type}

/-- The content of a file, and the put that wrote it. -/
structure File (Pid : Type) where
  writer : Pid
  bytes : Bytes
deriving DecidableEq, Repr

/-- An entry directory: `rootfs.tar` and `manifest.pkgs`. -/
structure Dir (Pid : Type) where
  tar : Option (File Pid)
  manifest : Option (File Pid)
deriving DecidableEq, Repr

def Dir.isEmpty (dir : Dir Pid) : Bool := dir.tar.isNone && dir.manifest.isNone

/-- Where a put is: the step it takes next. `aside` says whether it has moved an entry aside, and
`stored` whether one stood at its place when the put returned. -/
inductive Pc where
  | clearPartial
  | createPartial
  | copyTar
  | copyManifest
  | clearReplaced
  | moveAside
  | publish (aside : Bool)
  | lookAtWinner (aside : Bool)
  | dropStaged
  | dropReplaced
  | abort
  | abortPartial (aside : Bool)
  | abortReplaced (aside : Bool)
  | returned (ok stored : Bool)
deriving DecidableEq, Repr

/-- A put of one process: its sources, its staging directory, the directory it moves a prior entry
to, and whether an entry was stored when it began. -/
structure Put (Pid : Type) where
  tar : Bytes
  manifest : Bytes
  had : Bool
  staged : Option (Dir Pid)
  replaced : Option (Dir Pid)
  pc : Pc
deriving DecidableEq, Repr

/-- Where a get is. A hit answers the two paths, which lead to what then stands there. -/
inductive Get (Pid : Type) where
  | sawTar (dir : Dir Pid)
  | hit (dir : Dir Pid)
  | miss
deriving DecidableEq, Repr

/-- How a step ends. -/
inductive Fate (Pid : Type) where
  | done
  | fails (left : Option (Dir Pid))

/-- What a step leaves of a directory that it removes. -/
def Fate.removed : Fate Pid → Option (Dir Pid)
  | .done => none
  | .fails left => left

/-- The store of one key. -/
structure State (Pid Getter : Type) where
  entry : Option (Dir Pid)
  puts : Pid → Option (Put Pid)
  gets : Getter → Option (Get Pid)

/-- What a put leaves in its staging directory. -/
def complete (pid : Pid) (p : Put Pid) : Dir Pid := ⟨some ⟨pid, p.tar⟩, some ⟨pid, p.manifest⟩⟩

/-- `rename` onto a directory that may be there: it has to be empty then. -/
def canReplace (target : Option (Dir Pid)) : Bool := target.all Dir.isEmpty

/-- The next step of a put: the put behind it, and the entry. -/
def Put.advance (pid : Pid) (p : Put Pid) (entry : Option (Dir Pid)) (fate : Fate Pid) :
    Put Pid × Option (Dir Pid) :=
  match p.pc, fate with
  -- `remove_dir_all` of the staging directory, its result unused
  | .clearPartial, fate => ({ p with staged := fate.removed, pc := .createPartial }, entry)
  | .createPartial, .done =>
    ({ p with staged := some (p.staged.getD ⟨none, none⟩), pc := .copyTar }, entry)
  | .copyTar, .done =>
    ({ p with staged := p.staged.map ({ · with tar := some ⟨pid, p.tar⟩ }), pc := .copyManifest },
      entry)
  | .copyManifest, .done =>
    ({ p with
        staged := p.staged.map ({ · with manifest := some ⟨pid, p.manifest⟩ })
        pc := .clearReplaced },
      entry)
  | .createPartial, .fails left | .copyTar, .fails left | .copyManifest, .fails left =>
    ({ p with staged := left, pc := .returned false entry.isSome }, entry)
  | .clearReplaced, fate => ({ p with replaced := fate.removed, pc := .moveAside }, entry)
  | .moveAside, .done =>
    match entry with
    | none => ({ p with pc := .publish false }, none)
    | some dir =>
      if canReplace p.replaced then ({ p with replaced := some dir, pc := .publish true }, none)
      else ({ p with pc := .abort }, some dir)
  | .moveAside, .fails _ => ({ p with pc := .abort }, entry)
  | .publish aside, .done =>
    match p.staged with
    | some dir =>
      if canReplace entry then ({ p with staged := none, pc := .dropReplaced }, some dir)
      else ({ p with pc := .lookAtWinner aside }, entry)
    | none => ({ p with pc := .lookAtWinner aside }, entry)
  | .publish aside, .fails _ => ({ p with pc := .lookAtWinner aside }, entry)
  -- `entry.join("rootfs.tar").is_file()`, which is false where the look fails
  | .lookAtWinner aside, .done =>
    if entry.any fun dir => dir.tar.isSome then ({ p with pc := .dropStaged }, entry)
    else ({ p with pc := .abortPartial aside }, entry)
  | .lookAtWinner aside, .fails _ => ({ p with pc := .abortPartial aside }, entry)
  | .dropStaged, fate => ({ p with staged := fate.removed, pc := .dropReplaced }, entry)
  | .dropReplaced, fate =>
    ({ p with replaced := fate.removed, pc := .returned true entry.isSome }, entry)
  | .abort, fate =>
    ({ p with staged := fate.removed, pc := .returned false entry.isSome }, entry)
  | .abortPartial aside, fate =>
    ({ p with staged := fate.removed, pc := .abortReplaced aside }, entry)
  | .abortReplaced _, fate =>
    ({ p with replaced := fate.removed, pc := .returned false entry.isSome }, entry)
  | .returned ok stored, _ => ({ p with pc := .returned ok stored }, entry)

/-- The next step of a get. A look that fails finds nothing. -/
def Get.advance (g : Option (Get Pid)) (entry : Option (Dir Pid)) (fate : Fate Pid) : Get Pid :=
  match g, fate with
  | none, .done =>
    match entry with
    | some dir => if dir.tar.isSome then .sawTar dir else .miss
    | none => .miss
  | some (.sawTar _), .done =>
    match entry with
    | some dir => if dir.manifest.isSome then .hit dir else .miss
    | none => .miss
  | none, .fails _ | some (.sawTar _), .fails _ => .miss
  | some (.hit dir), _ => .hit dir
  | some .miss, _ => .miss

/-- One step of a run: a process begins its put, a put or a get goes on. The directories `staged` and
`replaced` are what a former process of that id has left. -/
inductive Action (Pid Getter : Type) where
  | begin (pid : Pid) (tar manifest : Bytes) (staged replaced : Option (Dir Pid))
  | put (pid : Pid) (fate : Fate Pid)
  | get (getter : Getter) (fate : Fate Pid)

/-! ### What one step of a put does -/

variable {pid : Pid} {p : Put Pid} {entry : Option (Dir Pid)} {fate : Fate Pid}

theorem advance_fields : (p.advance pid entry fate).1.tar = p.tar ∧
    (p.advance pid entry fate).1.manifest = p.manifest ∧
    (p.advance pid entry fate).1.had = p.had := by
  unfold Put.advance
  repeat' split
  all_goals exact ⟨rfl, rfl, rfl⟩

theorem complete_advance : complete pid (p.advance pid entry fate).1 = complete pid p := by
  unfold complete
  rw [advance_fields.1, advance_fields.2.1]

/-- Only the two renames touch the entry. -/
theorem advance_entry : (p.advance pid entry fate).2 = entry ∨
    (p.pc = .moveAside ∧ (p.advance pid entry fate).2 = none ∧
      (p.advance pid entry fate).1.pc = .publish true) ∨
    ∃ aside dir, p.pc = .publish aside ∧ p.staged = some dir ∧
      (p.advance pid entry fate).2 = some dir := by
  obtain ⟨tar, manifest, had, staged, replaced, pc⟩ := p
  cases pc with
  | moveAside =>
    cases fate with
    | fails left => exact .inl rfl
    | done =>
      unfold Put.advance
      cases entry with
      | none => exact .inl rfl
      | some dir =>
        by_cases hreplaced : canReplace replaced = true
        · exact .inr (.inl ⟨rfl, by simp [hreplaced], by simp [hreplaced]⟩)
        · exact .inl (by simp [hreplaced])
  | publish aside =>
    cases fate with
    | fails left => exact .inl rfl
    | done =>
      unfold Put.advance
      cases staged with
      | none => exact .inl rfl
      | some dir =>
        by_cases hentry : canReplace entry = true
        · exact .inr (.inr ⟨aside, dir, rfl, rfl, by simp [hentry]⟩)
        · exact .inl (by simp [hentry])
  | lookAtWinner aside =>
    cases fate with
    | fails left => exact .inl rfl
    | done =>
      unfold Put.advance
      by_cases hwinner : (entry.any fun dir => dir.tar.isSome) = true
      · exact .inl (by simp [hwinner])
      · exact .inl (by simp [hwinner])
  | _ => cases fate <;> exact .inl rfl

/-- What the staging directory of a put holds where it stands. -/
def Put.Staged (pid : Pid) (p : Put Pid) : Prop :=
  match p.pc with
  | .copyTar => ∃ dir, p.staged = some dir
  | .copyManifest => ∃ dir, p.staged = some dir ∧ dir.tar = some ⟨pid, p.tar⟩
  | .clearReplaced | .moveAside | .publish _ | .lookAtWinner _ => p.staged = some (complete pid p)
  | _ => True

theorem staged_advance (h : p.Staged pid) : (p.advance pid entry fate).1.Staged pid := by
  obtain ⟨tar, manifest, had, staged, replaced, pc⟩ := p
  cases pc with
  | createPartial =>
    cases fate with
    | fails left => trivial
    | done => exact ⟨_, rfl⟩
  | copyTar =>
    cases fate with
    | fails left => trivial
    | done =>
      obtain ⟨dir, hdir⟩ : ∃ dir, staged = some dir := h
      subst hdir
      exact ⟨_, rfl, rfl⟩
  | copyManifest =>
    cases fate with
    | fails left => trivial
    | done =>
      obtain ⟨dir, hdir, htar⟩ : ∃ dir, staged = some dir ∧ dir.tar = some ⟨pid, tar⟩ := h
      subst hdir
      show some (Dir.mk dir.tar _) = some (Dir.mk _ _)
      rw [htar]
      rfl
  | clearReplaced => exact h
  | moveAside =>
    cases fate with
    | fails left => trivial
    | done =>
      unfold Put.advance
      cases entry with
      | none => exact h
      | some dir =>
        by_cases hreplaced : canReplace replaced = true
        · simp only [if_pos hreplaced]
          exact h
        · simp only [if_neg hreplaced]
          trivial
  | publish aside =>
    cases fate with
    | fails left => exact h
    | done =>
      unfold Put.advance
      cases staged with
      | none => exact h
      | some dir =>
        by_cases hentry : canReplace entry = true
        · simp only [if_pos hentry]
          trivial
        · simp only [if_neg hentry]
          exact h
  | lookAtWinner aside =>
    cases fate with
    | fails left => trivial
    | done =>
      unfold Put.advance
      by_cases hwinner : (entry.any fun dir => dir.tar.isSome) = true
      · simp only [if_pos hwinner]
        trivial
      · simp only [if_neg hwinner]
        trivial
  | _ => cases fate <;> trivial

/-- The put has moved an entry aside and published none. -/
def Pc.holdsAside : Pc → Bool
  | .publish aside | .lookAtWinner aside | .abortPartial aside | .abortReplaced aside => aside
  | _ => false

/-- The step is the last of a put that returns an error. -/
def Pc.returnsErr : Pc → Fate Pid → Bool
  | .createPartial, .fails _ | .copyTar, .fails _ | .copyManifest, .fails _ => true
  | .abort, _ | .abortReplaced _, _ => true
  | _, _ => false

theorem holdsAside_advance (h : p.pc.holdsAside = true) :
    (p.advance pid entry fate).1.pc.holdsAside = true ∨
    (p.advance pid entry fate).2.isSome = true ∨
    (p.pc.returnsErr fate = true ∧ (p.advance pid entry fate).2 = entry) := by
  obtain ⟨tar, manifest, had, staged, replaced, pc⟩ := p
  cases pc with
  | publish aside =>
    obtain rfl : aside = true := h
    cases fate with
    | fails left => exact .inl rfl
    | done =>
      unfold Put.advance
      cases staged with
      | none => exact .inl rfl
      | some dir =>
        by_cases hentry : canReplace entry = true
        · exact .inr (.inl (by simp [hentry]))
        · exact .inl (by simp [hentry, Pc.holdsAside])
  | lookAtWinner aside =>
    obtain rfl : aside = true := h
    cases fate with
    | fails left => exact .inl rfl
    | done =>
      unfold Put.advance
      by_cases hwinner : (entry.any fun dir => dir.tar.isSome) = true
      · have hentry : entry.isSome = true := Option.isSome_of_any hwinner
        exact .inr (.inl (by simp [hwinner, hentry]))
      · exact .inl (by simp [hwinner, Pc.holdsAside])
  | abortPartial aside => exact .inl h
  | abortReplaced aside => exact .inr (.inr ⟨rfl, rfl⟩)
  | _ => cases h

theorem returned_advance {stored : Bool}
    (h : (p.advance pid entry fate).1.pc = .returned false stored) :
    p.pc = .returned false stored ∨ (p.pc.returnsErr fate = true ∧ stored = entry.isSome) := by
  obtain ⟨tar, manifest, had, staged, replaced, pc⟩ := p
  cases pc with
  | createPartial | copyTar | copyManifest =>
    cases fate with
    | done => cases h
    | fails left => exact .inr ⟨rfl, (Pc.returned.inj h).2.symm⟩
  | abort | abortReplaced aside => exact .inr ⟨rfl, (Pc.returned.inj h).2.symm⟩
  | returned ok stored' => exact .inl h
  | moveAside | publish aside | lookAtWinner aside =>
    cases fate with
    | fails left => cases h
    | done =>
      simp only [Put.advance] at h
      repeat' split at h
      all_goals cases h
  | _ => cases h

/-- A look of a get finds what stands at the entry. -/
theorem get_advance {g : Option (Get Pid)} {dir : Dir Pid} :
    (Get.advance g entry fate = .sawTar dir → entry = some dir) ∧
    (Get.advance g entry fate = .hit dir → entry = some dir ∨ g = some (.hit dir)) := by
  constructor <;> intro h <;> unfold Get.advance at h <;> split at h
  all_goals try split at h
  all_goals try split at h
  all_goals cases h
  · rfl
  · exact .inl rfl
  · exact .inr rfl

/-! ### Runs -/

variable {s : State Pid Getter} {dir : Dir Pid}

def initial : State Pid Getter := ⟨none, fun _ => none, fun _ => none⟩

/-- The directory holds both files of one put of the run. -/
def Written (s : State Pid Getter) (dir : Dir Pid) : Prop :=
  ∃ pid p, s.puts pid = some p ∧ dir = complete pid p

/-- The entry and what the gets have found in it are written by one put, and every put has staged
its own files. -/
structure Sound (s : State Pid Getter) : Prop where
  entry : ∀ dir, s.entry = some dir → Written s dir
  staged : ∀ pid p, s.puts pid = some p → p.Staged pid
  sawTar : ∀ getter dir, s.gets getter = some (.sawTar dir) → Written s dir
  hit : ∀ getter dir, s.gets getter = some (.hit dir) → Written s dir

theorem sound_initial : Sound (initial : State Pid Getter) := by
  constructor <;> intros <;> contradiction

/-- An entry is stored, or a put under way has it aside. -/
def Kept (s : State Pid Getter) : Prop :=
  s.entry.isSome = true ∨ ∃ pid p, s.puts pid = some p ∧ p.pc.holdsAside = true

/-- What the store owes to the puts that began with an entry stored. -/
structure Keeps (s : State Pid Getter) : Prop where
  kept : ∀ pid p, s.puts pid = some p → p.had = true → Kept s
  returned : ∀ pid p stored, s.puts pid = some p → p.had = true →
    p.pc = .returned false stored → stored = true

theorem keeps_initial : Keeps (initial : State Pid Getter) := by
  constructor <;> intros <;> contradiction

/-- No put that holds an entry aside returns an error while nothing stands at the entry, and none
that began with an entry stored returns one while another put has the entry aside. -/
def Meets (s : State Pid Getter) : Action Pid Getter → Prop
  | .put pid fate => ∀ p, s.puts pid = some p → p.pc.returnsErr fate = true → s.entry = none →
    p.pc.holdsAside = false ∧
      (p.had = true → ∀ pid' q, s.puts pid' = some q → q.pc.holdsAside = false)
  | _ => True

/-- A put returns errors only where an entry stands. -/
def ErrsOverEntry (s : State Pid Getter) : Action Pid Getter → Prop
  | .put pid fate =>
    (∃ p ∈ s.puts pid, p.pc.returnsErr fate = true) → s.entry.isSome = true
  | _ => True

instance (s : State Pid Getter) : ∀ action, Decidable (ErrsOverEntry s action)
  | .put pid fate => inferInstanceAs (Decidable
      ((∃ p ∈ s.puts pid, p.pc.returnsErr fate = true) → s.entry.isSome = true))
  | .begin .. => .isTrue trivial
  | .get .. => .isTrue trivial

theorem meets_of_errsOverEntry {action : Action Pid Getter} (h : ErrsOverEntry s action) :
    Meets s action := by
  cases action with
  | put pid fate =>
    intro p hput herr hentry
    have hstored : s.entry.isSome = true := h ⟨p, hput, herr⟩
    rw [hentry] at hstored
    cases hstored
  | _ => trivial

variable [DecidableEq Pid]

def setPut (s : State Pid Getter) (pid : Pid) (p : Put Pid) (entry : Option (Dir Pid)) :
    State Pid Getter :=
  { s with entry := entry, puts := Function.update s.puts pid (some p) }

theorem puts_setPut {pid pid' : Pid} {p : Put Pid} {entry : Option (Dir Pid)} :
    (setPut s pid p entry).puts pid' = if pid' = pid then some p else s.puts pid' :=
  Function.update_apply _ _ _ _

/-- What a put has written stays written by it when a put goes on or begins. -/
theorem written_setPut {pid : Pid} {p : Put Pid} {entry : Option (Dir Pid)}
    (hp : ∀ q, s.puts pid = some q → complete pid p = complete pid q) (h : Written s dir) :
    Written (setPut s pid p entry) dir := by
  obtain ⟨pid', q, hq, rfl⟩ := h
  by_cases heq : pid' = pid
  · subst heq
    exact ⟨pid', p, by rw [puts_setPut, if_pos rfl], (hp q hq).symm⟩
  · exact ⟨pid', q, by rw [puts_setPut, if_neg heq, hq], rfl⟩

theorem sound_setPut {pid : Pid} {p : Put Pid} {entry : Option (Dir Pid)} (hs : Sound s)
    (hp : ∀ q, s.puts pid = some q → complete pid p = complete pid q) (hstaged : p.Staged pid)
    (hentry : ∀ dir, entry = some dir → Written s dir ∨ dir = complete pid p) :
    Sound (setPut s pid p entry) := by
  constructor
  · intro dir hdir
    rcases hentry dir hdir with h | rfl
    · exact written_setPut hp h
    · exact ⟨pid, p, by rw [puts_setPut, if_pos rfl], rfl⟩
  · intro pid' q hq
    rw [puts_setPut] at hq
    by_cases heq : pid' = pid
    · rw [if_pos heq, Option.some.injEq] at hq
      rwa [heq, ← hq]
    · rw [if_neg heq] at hq
      exact hs.staged pid' q hq
  · intro getter dir hget
    exact written_setPut hp (hs.sawTar getter dir hget)
  · intro getter dir hget
    exact written_setPut hp (hs.hit getter dir hget)

theorem kept_setPut {pid : Pid} {p : Put Pid} {entry : Option (Dir Pid)} (hs : Kept s)
    (hentry : s.entry.isSome = true → entry.isSome = true ∨ p.pc.holdsAside = true)
    (hp : ∀ q, s.puts pid = some q → q.pc.holdsAside = true →
      entry.isSome = true ∨ p.pc.holdsAside = true) : Kept (setPut s pid p entry) := by
  have hself : entry.isSome = true ∨ p.pc.holdsAside = true → Kept (setPut s pid p entry) := by
    rintro (h | h)
    · exact .inl h
    · exact .inr ⟨pid, p, by rw [puts_setPut, if_pos rfl], h⟩
  rcases hs with h | ⟨pid', q, hq, h⟩
  · exact hself (hentry h)
  · by_cases heq : pid' = pid
    · subst heq
      exact hself (hp q hq h)
    · exact .inr ⟨pid', q, by rw [puts_setPut, if_neg heq, hq], h⟩

variable [DecidableEq Getter]

def step (s : State Pid Getter) : Action Pid Getter → State Pid Getter
  | .begin pid tar manifest staged replaced =>
    match s.puts pid with
    | none => setPut s pid ⟨tar, manifest, s.entry.isSome, staged, replaced, .clearPartial⟩ s.entry
    | some _ => s
  | .put pid fate =>
    match s.puts pid with
    | some p => setPut s pid (p.advance pid s.entry fate).1 (p.advance pid s.entry fate).2
    | none => s
  | .get getter fate =>
    { s with gets := Function.update s.gets getter (some (Get.advance (s.gets getter) s.entry fate)) }

/-- What one step of a run can do. -/
theorem step_cases (s : State Pid Getter) (action : Action Pid Getter) : step s action = s ∨
    (∃ pid tar manifest staged replaced, s.puts pid = none ∧ step s action =
      setPut s pid ⟨tar, manifest, s.entry.isSome, staged, replaced, .clearPartial⟩ s.entry) ∨
    (∃ pid fate p, action = .put pid fate ∧ s.puts pid = some p ∧ step s action =
      setPut s pid (p.advance pid s.entry fate).1 (p.advance pid s.entry fate).2) ∨
    ∃ getter fate, step s action = { s with
      gets := Function.update s.gets getter (some (Get.advance (s.gets getter) s.entry fate)) } := by
  cases action with
  | begin pid tar manifest staged replaced =>
    cases hput : s.puts pid with
    | some p => exact .inl (by simp only [step, hput])
    | none => exact .inr (.inl ⟨pid, tar, manifest, staged, replaced, hput, by simp only [step, hput]⟩)
  | put pid fate =>
    cases hput : s.puts pid with
    | none => exact .inl (by simp only [step, hput])
    | some p => exact .inr (.inr (.inl ⟨pid, fate, p, rfl, hput, by simp only [step, hput]⟩))
  | get getter fate => exact .inr (.inr (.inr ⟨getter, fate, rfl⟩))

theorem sound_step (hs : Sound s) (action : Action Pid Getter) : Sound (step s action) := by
  rcases step_cases s action with h | ⟨pid, tar, manifest, staged, replaced, hput, h⟩ |
    ⟨pid, fate, p, -, hput, h⟩ | ⟨getter, fate, h⟩ <;> rw [h]
  · exact hs
  · refine sound_setPut hs (fun q hq => ?_) trivial fun dir hdir => .inl (hs.entry dir hdir)
    rw [hput] at hq
    cases hq
  · have hstaged : p.Staged pid := hs.staged pid p hput
    refine sound_setPut hs (fun q hq => ?_) (staged_advance hstaged) fun dir hdir => ?_
    · obtain rfl : p = q := Option.some.inj (hput.symm.trans hq)
      exact complete_advance
    · rw [complete_advance]
      rcases advance_entry with h | ⟨-, h, -⟩ | ⟨aside, d, hpc, hd, h⟩
      · exact .inl (hs.entry dir (h.symm.trans hdir))
      · rw [h] at hdir
        cases hdir
      · -- the second rename publishes what this put has staged
        unfold Put.Staged at hstaged
        rw [hpc, hd] at hstaged
        rw [h] at hdir
        exact .inr (Option.some.inj (hdir.symm.trans hstaged))
  · refine ⟨hs.entry, hs.staged, fun getter' dir hget => ?_, fun getter' dir hget => ?_⟩
    · have h : (if getter' = getter then some (Get.advance (s.gets getter) s.entry fate)
          else s.gets getter') = some (.sawTar dir) := (Function.update_apply _ _ _ _).symm.trans hget
      split at h
      · exact hs.entry dir (get_advance.1 (Option.some.inj h))
      · exact hs.sawTar getter' dir h
    · have h : (if getter' = getter then some (Get.advance (s.gets getter) s.entry fate)
          else s.gets getter') = some (.hit dir) := (Function.update_apply _ _ _ _).symm.trans hget
      split at h
      · rcases get_advance.2 (Option.some.inj h) with hdir | hdir
        · exact hs.entry dir hdir
        · exact hs.hit getter dir hdir
      · exact hs.hit getter' dir h

/-- In every run, a get that hits answers paths that lead to both files of one put. -/
theorem hit_written (ops : List (Action Pid Getter)) {getter : Getter}
    (h : (ops.foldl step initial).gets getter = some (.hit dir)) :
    Written (ops.foldl step initial) dir := by
  have hs : Sound (ops.foldl step initial) :=
    foldl_invariant (fun _ action hs => sound_step hs action) sound_initial
  exact hs.hit getter dir h

/-! ### Puts that fail -/

/-- A put loses an entry only where it returns an error while it holds one aside. -/
theorem kept_step (hs : Kept s) {action : Action Pid Getter} (haction : Meets s action) :
    Kept (step s action) := by
  rcases step_cases s action with h | ⟨pid, tar, manifest, staged, replaced, hput, h⟩ |
    ⟨pid, fate, p, rfl, hput, h⟩ | ⟨getter, fate, h⟩ <;> rw [h]
  · exact hs
  · refine kept_setPut hs .inl fun q hq => ?_
    rw [hput] at hq
    cases hq
  · refine kept_setPut hs (fun hentry => ?_) fun q hq haside => ?_
    · rcases advance_entry with h | ⟨-, -, h⟩ | ⟨aside, dir, -, -, h⟩
      · exact .inl (h.symm ▸ hentry)
      · exact .inr (by rw [h]; rfl)
      · exact .inl (by rw [h]; rfl)
    · obtain rfl : p = q := Option.some.inj (hput.symm.trans hq)
      rcases holdsAside_advance haside with h | h | ⟨herr, h⟩
      · exact .inr h
      · exact .inl h
      · rw [h]
        cases hentry : s.entry with
        | some dir => exact .inl rfl
        | none =>
          rw [(haction p hput herr hentry).1] at haside
          cases haside
  · exact hs

theorem keeps_step (hs : Keeps s) {action : Action Pid Getter} (haction : Meets s action) :
    Keeps (step s action) := by
  have hkept : ∀ pid p, s.puts pid = some p → p.had = true → Kept (step s action) :=
    fun pid p hput hhad => kept_step (hs.kept pid p hput hhad) haction
  rcases step_cases s action with h | ⟨pid, tar, manifest, staged, replaced, hput, h⟩ |
    ⟨pid, fate, p, rfl, hput, h⟩ | ⟨getter, fate, h⟩ <;> rw [h] at hkept ⊢
  · exact hs
  · constructor
    · intro pid' q hq hhad
      rw [puts_setPut] at hq
      split at hq
      · obtain rfl := Option.some.inj hq
        exact .inl hhad
      · exact hkept pid' q hq hhad
    · intro pid' q stored hq hhad hpc
      rw [puts_setPut] at hq
      split at hq
      · obtain rfl := Option.some.inj hq
        cases hpc
      · exact hs.returned pid' q stored hq hhad hpc
  · constructor
    · intro pid' q hq hhad
      rw [puts_setPut] at hq
      split at hq
      · obtain rfl := Option.some.inj hq
        rw [advance_fields.2.2] at hhad
        exact hkept pid p hput hhad
      · exact hkept pid' q hq hhad
    · intro pid' q stored hq hhad hpc
      rw [puts_setPut] at hq
      split at hq
      · obtain rfl := Option.some.inj hq
        rw [advance_fields.2.2] at hhad
        rcases returned_advance hpc with hpc | ⟨herr, rfl⟩
        · exact hs.returned pid p stored hput hhad hpc
        · rcases hs.kept pid p hput hhad with hentry | ⟨other, r, hr, haside⟩
          · exact hentry
          · cases hentry : s.entry with
            | some dir => rfl
            | none =>
              rw [(haction p hput herr hentry).2 hhad other r hr] at haside
              cases haside
      · exact hs.returned pid' q stored hq hhad hpc
  · exact ⟨hs.kept, hs.returned⟩

/-- What a get finds is both files of one put, and a put that returned an error and had begun with
an entry stored left one stored. -/
structure Atomic (s : State Pid Getter) : Prop where
  hit : ∀ getter dir, s.gets getter = some (.hit dir) → Written s dir
  returned : ∀ pid p stored, s.puts pid = some p → p.had = true →
    p.pc = .returned false stored → stored = true

/-- In every state of a run whose steps meet the condition, the store has published atomically. -/
theorem atomic_of_meet {ops : List (Action Pid Getter)} (h : AllMeet step Meets initial ops)
    {done : List (Action Pid Getter)} (hdone : done <+: ops) :
    Atomic (done.foldl step initial) := by
  obtain ⟨rest, rfl⟩ := hdone
  have hkeeps : Keeps (done.foldl step initial) :=
    h.append_left.invariant (fun _ _ _ hs haction => keeps_step hs haction) keeps_initial
  exact ⟨fun _ _ => hit_written done, hkeeps.returned⟩

/-- The steps of a put that succeeds, up to its second rename. -/
def staging (pid : ℕ) : List (Action ℕ ℕ) :=
  .begin pid [1] [2] none none :: List.replicate 6 (.put pid .done)

/-- A put that stores an entry. -/
def storing (pid : ℕ) : List (Action ℕ ℕ) := staging pid ++ List.replicate 2 (.put pid .done)

/-- A put stores an entry, another cannot create its staging directory, and a get hits. -/
def failedStaging : List (Action ℕ ℕ) :=
  storing 1 ++ [.begin 2 [3] [4] none none, .put 2 .done, .put 2 (.fails none), .get 0 .done,
    .get 0 .done]

theorem atomic_failedStaging : Atomic (failedStaging.foldl step initial) := by
  have h : AllMeet step ErrsOverEntry initial failedStaging := by decide
  exact atomic_of_meet (h.imp fun _ _ => meets_of_errsOverEntry) (List.prefix_refl _)

/-- The second rename of a put fails, and it cleans up. -/
def failedPublish (pid : ℕ) : List (Action ℕ ℕ) :=
  staging pid ++ .put pid (.fails none) :: List.replicate 3 (.put pid .done)

/-- The put that fails has moved an entry aside and removes it. -/
theorem failed_publish_loses_entry :
    let stored : State ℕ ℕ := (storing 1).foldl step initial
    let lost : State ℕ ℕ := (failedPublish 2).foldl step stored
    stored.entry = some ⟨some ⟨1, [1]⟩, some ⟨1, [2]⟩⟩ ∧
    (lost.puts 2).map (fun p => (p.had, p.pc)) = some (true, .returned false false) ∧
    lost.entry = none := by decide

end Boot2Deb.Engine.RootfsStore
