import Mathlib.Logic.Function.Basic
import Mathlib.Data.Nat.Notation
import Mathlib.Tactic.SplitIfs
import Mathlib.Tactic.ByContra

/-!
# Names that share a content

A volume gives its names their contents through inodes. Names linked to one inode have one content,
so what is written through one of them is read through the others. A name that is alone on its
inode can be written without a change to any other.
-/

namespace Boot2Deb.Lib

/-- Names, the inode of each, and the content of every inode. No name has an inode from `next`
on. -/
structure Volume (κ β : Type*) where
  names : κ → Option ℕ
  content : ℕ → β
  next : ℕ
  bound : ∀ {k i}, names k = some i → i < next

namespace Volume
variable {κ β : Type*}

def read (v : Volume κ β) (k : κ) : Option β := (v.names k).map v.content

/-- No other name has the inode of `k`. -/
def Alone (v : Volume κ β) (k : κ) : Prop :=
  ∀ ⦃l i⦄, v.names k = some i → v.names l = some i → l = k

/-- The volume without the names outside `p`. -/
def keep (v : Volume κ β) (p : κ → Bool) : Volume κ β where
  names k := if p k then v.names k else none
  content := v.content
  next := v.next
  bound h := v.bound (Option.ite_none_right_eq_some.mp h).2

section Updates
variable [DecidableEq κ]

/-- Write a content through a name, to a new inode where there is no such name. -/
def write (v : Volume κ β) (k : κ) (b : β) : Volume κ β where
  names l := if l = k then some ((v.names k).getD v.next) else v.names l
  content := Function.update v.content ((v.names k).getD v.next) b
  next := v.next + 1
  bound {l i} h := by
    by_cases hl : l = k
    · rw [if_pos hl, Option.some_inj] at h
      cases hk : v.names k with
      | none =>
        rw [hk, Option.getD_none] at h
        omega
      | some j =>
        have hj := v.bound hk
        rw [hk, Option.getD_some] at h
        omega
    · rw [if_neg hl] at h
      have hi := v.bound h
      omega

/-- Give the inode of `k` the name `l` as well, where there is no such name yet. -/
def link (v : Volume κ β) (k l : κ) : Option (Volume κ β) :=
  if (v.names k).isSome ∧ v.names l = none then
    some {
      names := fun m => if m = l then v.names k else v.names m
      content := v.content
      next := v.next
      bound := fun {m i} h => by
        by_cases hm : m = l
        · exact v.bound ((if_pos hm).symm.trans h)
        · exact v.bound ((if_neg hm).symm.trans h) }
  else none

/-- Give the inode of `k` the name `l` in the place of `k`, whatever had that name. -/
def rename (v : Volume κ β) (k l : κ) : Volume κ β where
  names m := if m = l then v.names k else if m = k then none else v.names m
  content := v.content
  next := v.next
  bound {m i} h := by
    by_cases hm : m = l
    · exact v.bound ((if_pos hm).symm.trans h)
    · rw [if_neg hm] at h
      exact v.bound (Option.ite_none_left_eq_some.mp h).2

end Updates

variable {v v' : Volume κ β} {k l m : κ} {b : β}

theorem isSome_read : (v.read k).isSome = (v.names k).isSome := by
  rw [read, Option.isSome_map]

theorem alone_of_none (h : v.names k = none) : v.Alone k :=
  fun _ _ hk => nomatch h.symm.trans hk

/-! ### Names removed -/

theorem names_keep (p : κ → Bool) : (v.keep p).names k = if p k then v.names k else none := rfl

theorem read_keep {p : κ → Bool} : (v.keep p).read k = if p k then v.read k else none := by
  rw [read, names_keep]
  split_ifs <;> rfl

theorem Alone.keep (h : v.Alone k) (p : κ → Bool) : (v.keep p).Alone k := fun _ _ hk hl =>
  h (Option.ite_none_right_eq_some.mp hk).2 (Option.ite_none_right_eq_some.mp hl).2

variable [DecidableEq κ]

/-! ### Writing -/

theorem names_write : (v.write k b).names l =
    if l = k then some ((v.names k).getD v.next) else v.names l := rfl

theorem content_write : (v.write k b).content =
    Function.update v.content ((v.names k).getD v.next) b := rfl

theorem isSome_names_write :
    ((v.write k b).names l).isSome = true ↔ l = k ∨ (v.names l).isSome = true := by
  by_cases hl : l = k <;> simp [names_write, hl]

theorem read_write_self : (v.write k b).read k = some b := by
  rw [read, names_write, if_pos rfl, Option.map_some, content_write, Function.update_self]

/-- A write through a name that is alone is read through no other. -/
theorem Alone.read_write (h : v.Alone k) (hl : l ≠ k) : (v.write k b).read l = v.read l := by
  rw [read, read, names_write, if_neg hl, content_write]
  refine Option.map_congr fun i hi => Function.update_of_ne ?_ _ _
  rintro rfl
  cases hk : v.names k with
  | none =>
    rw [hk, Option.getD_none] at hi
    exact absurd (v.bound hi) (Nat.lt_irrefl _)
  | some j =>
    rw [hk, Option.getD_some] at hi
    exact hl (h hk hi)

theorem Alone.write (h : v.Alone l) : (v.write k b).Alone l := by
  intro m i hl hm
  rw [names_write] at hl hm
  cases hk : v.names k with
  | some j =>
    have hsame : ∀ n, (if n = k then some ((v.names k).getD v.next) else v.names n) = v.names n :=
      fun n => by
        split_ifs with hn
        · rw [hk, hn, hk, Option.getD_some]
        · rfl
    rw [hsame] at hl hm
    exact h hl hm
  | none =>
    rw [hk, Option.getD_none] at hl hm
    by_cases hlk : l = k
    · rw [if_pos hlk, Option.some_inj] at hl
      by_contra hne
      rw [if_neg fun hmk => hne (hmk.trans hlk.symm)] at hm
      exact absurd (v.bound hm) (hl ▸ Nat.lt_irrefl _)
    · rw [if_neg hlk] at hl
      by_cases hmk : m = k
      · rw [if_pos hmk, Option.some_inj] at hm
        exact absurd (v.bound hl) (hm ▸ Nat.lt_irrefl _)
      · rw [if_neg hmk] at hm
        exact h hl hm

/-! ### Links -/

theorem link_eq_some (h : v.link k l = some v') : (v.names k).isSome ∧ v.names l = none ∧
    v'.content = v.content ∧ ∀ m, v'.names m = if m = l then v.names k else v.names m := by
  obtain ⟨⟨hk, hl⟩, h⟩ := Option.ite_none_right_eq_some.mp h
  obtain rfl := Option.some.inj h
  exact ⟨hk, hl, rfl, fun _ => rfl⟩

theorem read_link (h : v.link k l = some v') :
    v'.read m = if m = l then v.read k else v.read m := by
  obtain ⟨-, -, hcontent, hnames⟩ := link_eq_some h
  rw [read, hnames, hcontent, read, read]
  split_ifs <;> rfl

theorem Alone.link (h : v.Alone m) (hmk : m ≠ k) (hml : m ≠ l) (hlink : v.link k l = some v') :
    v'.Alone m := by
  obtain ⟨-, -, -, hnames⟩ := link_eq_some hlink
  intro n i hm hn
  rw [hnames, if_neg hml] at hm
  rw [hnames] at hn
  split_ifs at hn
  · exact absurd (h hm hn) hmk.symm
  · exact h hm hn

/-! ### Renames -/

theorem names_rename : (v.rename k l).names m =
    if m = l then v.names k else if m = k then none else v.names m := rfl

theorem read_rename : (v.rename k l).read m =
    if m = l then v.read k else if m = k then none else v.read m := by
  rw [read, names_rename]
  split_ifs <;> rfl

theorem Alone.rename (h : v.Alone m) (hml : m ≠ l) : (v.rename k l).Alone m := by
  intro n i hm hn
  rw [names_rename] at hm hn
  rw [if_neg hml] at hm
  obtain ⟨hmk, hm⟩ := Option.ite_none_left_eq_some.mp hm
  split_ifs at hn with hnl hnk
  · exact absurd (h hm hn).symm hmk
  · exact h hm hn

end Volume

end Boot2Deb.Lib
