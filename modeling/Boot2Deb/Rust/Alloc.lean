import Boot2Deb.Rust.Outcome
import Boot2Deb.Rust.Text

/-!
# Allocations

Making a string or a vector longer than an allocation can be panics.
-/

namespace Boot2Deb.Rust
variable {ε α : Type}

/-- `format!`. -/
def format (s : Str) : Outcome ε Text :=
  if h : byteLen s ≤ isizeMax then .ok ⟨s, h⟩ else .panic

/-- `collect` into a `Vec`. -/
def collect (l : List α) : Outcome ε (Slice α) :=
  if h : l.length ≤ isizeMax then .ok ⟨l, h⟩ else .panic

theorem format_eq_ok {s : Str} {t : Text} : (format s : Outcome ε Text) = .ok t ↔ t.val = s := by
  unfold format
  split_ifs with h
  · simp [Subtype.ext_iff, eq_comm]
  · refine iff_of_false nofun ?_
    rintro rfl
    exact h t.property

theorem collect_eq_ok {l : List α} {s : Slice α} : (collect l : Outcome ε (Slice α)) = .ok s ↔ s.val = l := by
  unfold collect
  split_ifs with h
  · simp [Subtype.ext_iff, eq_comm]
  · refine iff_of_false nofun ?_
    rintro rfl
    exact h s.property

end Boot2Deb.Rust
