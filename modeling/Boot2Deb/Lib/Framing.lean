import Mathlib.Data.Set.Prod
import Mathlib.Data.Set.Function
import Mathlib.Data.List.Basic

/-!
# Self-delimiting codes

A code is self-delimiting on a set when the end of a code word shows in whatever follows it. Pairs
of self-delimiting codes are self-delimiting again, and a run of non-empty code words is read back
word by word. Putting its length in front of a word, in a field of fixed width, makes any code of
bounded words self-delimiting.
-/

namespace Boot2Deb

variable {α β γ : Type*}

/-- The code word of an element of `s` can be cut off whatever follows it. -/
def SelfDelimitingOn (f : α → List γ) (s : Set α) : Prop :=
  ∀ ⦃a⦄, a ∈ s → ∀ ⦃b⦄, b ∈ s → ∀ ⦃u v⦄, f a ++ u = f b ++ v → a = b ∧ u = v

namespace SelfDelimitingOn
variable {f : α → List γ} {g : β → List γ} {s : Set α} {t : Set β}

theorem prod (hf : SelfDelimitingOn f s) (hg : SelfDelimitingOn g t) :
    SelfDelimitingOn (fun p : α × β => f p.1 ++ g p.2) (s ×ˢ t) := by
  intro p hp q hq u v h
  simp only [List.append_assoc] at h
  obtain ⟨h1, h⟩ := hf hp.1 hq.1 h
  obtain ⟨h2, h⟩ := hg hp.2 hq.2 h
  exact ⟨Prod.ext h1 h2, h⟩

/-- A run of non-empty code words is read back word by word. -/
theorem flatMap_injOn (hf : SelfDelimitingOn f s) (hne : ∀ a, f a ≠ []) :
    Set.InjOn (List.flatMap f) {l | ∀ a ∈ l, a ∈ s} := by
  intro as has bs hbs h
  induction as generalizing bs with
  | nil =>
    cases bs with
    | nil => rfl
    | cons b bs => exact absurd (List.append_eq_nil_iff.mp h.symm).1 (hne b)
  | cons a as ih =>
    cases bs with
    | nil => exact absurd (List.append_eq_nil_iff.mp h).1 (hne a)
    | cons b bs =>
      obtain ⟨ha, has'⟩ := List.forall_mem_cons.mp has
      obtain ⟨hb, hbs'⟩ := List.forall_mem_cons.mp hbs
      obtain ⟨rfl, htail⟩ := hf ha hb h
      rw [ih has' hbs' htail]

end SelfDelimitingOn

/-- A word behind its length. -/
def framed (encode : ℕ → List γ) (word : List γ) : List γ := encode word.length ++ word

variable {encode : ℕ → List γ} {width : ℕ}

/-- Lengths below `bound` in a field of fixed width delimit the words up to it. -/
theorem selfDelimitingOn_framed {bound : ℕ} (hwidth : ∀ n, (encode n).length = width)
    (hinj : Set.InjOn encode {n | n < bound}) {f : α → List γ} (hf : Function.Injective f) :
    SelfDelimitingOn (fun a => framed encode (f a)) {a | (f a).length < bound} := by
  intro a ha b hb u v h
  simp only [framed, List.append_assoc] at h
  obtain ⟨hlen, h⟩ := List.append_inj h (by rw [hwidth, hwidth])
  obtain ⟨hword, huv⟩ := List.append_inj h (hinj ha hb hlen)
  exact ⟨hf hword, huv⟩

theorem framed_ne_nil (hwidth : ∀ n, (encode n).length = width) (hpos : 0 < width)
    (word : List γ) : framed encode word ≠ [] := by
  intro h
  have hlen := congrArg List.length (List.append_eq_nil_iff.mp h).1
  rw [hwidth, List.length_nil] at hlen
  omega

/-- A stream of whole words, each behind its length. -/
def IsFramed (encode : ℕ → List γ) (bound : ℕ) (stream : List γ) : Prop :=
  ∃ words : List (List γ), (∀ w ∈ words, w.length < bound) ∧ stream = words.flatMap (framed encode)

/-- Behind a whole word, a stream is whole just where it was. -/
theorem isFramed_framed_append {bound : ℕ} (hwidth : ∀ n, (encode n).length = width)
    (hpos : 0 < width) (hinj : Set.InjOn encode {n | n < bound}) {word : List γ}
    (hword : word.length < bound) {rest : List γ} :
    IsFramed encode bound (framed encode word ++ rest) ↔ IsFramed encode bound rest := by
  have hdelim := selfDelimitingOn_framed hwidth hinj (f := id) Function.injective_id
  constructor
  · rintro ⟨words, hwords, h⟩
    cases words with
    | nil => exact absurd (List.append_eq_nil_iff.mp h).1 (framed_ne_nil hwidth hpos word)
    | cons w words =>
      obtain ⟨hw, hwords⟩ := List.forall_mem_cons.mp hwords
      exact ⟨words, hwords, (hdelim hword hw h).2⟩
  · rintro ⟨words, hwords, rfl⟩
    exact ⟨word :: words, List.forall_mem_cons.mpr ⟨hword, hwords⟩, rfl⟩

end Boot2Deb
