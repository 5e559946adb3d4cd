import Mathlib.Data.List.Basic
import Mathlib.Data.List.Perm.Basic

/-!
# Writing over a part of a list

A write replaces as many elements as it has, from a position on. Outside of that nothing changes, so
parts apart from a write stay and writes apart from each other commute.
-/

namespace Boot2Deb

variable {α : Type*} {l v w : List α} {n m i lo hi : ℕ}

/-- The elements from `lo` up to `hi`. -/
def part (l : List α) (lo hi : ℕ) : List α := (l.take hi).drop lo

/-- The list with `w` written over it from position `n` on. -/
def overwrite (l : List α) (n : ℕ) (w : List α) : List α := l.take n ++ w ++ l.drop (n + w.length)

theorem getElem?_part : (part l lo hi)[i]? = if lo + i < hi then l[lo + i]? else none := by
  rw [part, List.getElem?_drop, List.getElem?_take]

theorem length_part (h : hi ≤ l.length) : (part l lo hi).length = hi - lo := by
  rw [part, List.length_drop, List.length_take_of_le h]

theorem length_part_le : (part l lo hi).length ≤ l.length := by
  rw [part, List.length_drop, List.length_take]
  omega

/-- A part of a part. -/
theorem part_part {i j : ℕ} (h : lo + j ≤ hi) : part (part l lo hi) i j = part l (lo + i) (lo + j) := by
  refine List.ext_getElem? fun k => ?_
  rw [getElem?_part, getElem?_part, getElem?_part]
  split_ifs
  · rw [Nat.add_assoc]
  all_goals first | rfl | omega

/-- A part that ends where two lists still agree. -/
theorem part_congr {l' : List α} (h : l'.take n = l.take n) (hhi : hi ≤ n) :
    part l' lo hi = part l lo hi := by
  rw [part, part, ← Nat.min_eq_left hhi, ← List.take_take, h, List.take_take]

theorem getElem?_overwrite (h : n + w.length ≤ l.length) :
    (overwrite l n w)[i]? = if n ≤ i ∧ i < n + w.length then w[i - n]? else l[i]? := by
  have hn : (l.take n).length = n := List.length_take_of_le (by omega)
  rw [overwrite, List.append_assoc, List.getElem?_append, hn]
  split_ifs with hi hw hw
  · omega
  · rw [List.getElem?_take, if_pos hi]
  · rw [List.getElem?_append_left (by omega)]
  · rw [List.getElem?_append_right (by omega), List.getElem?_drop]
    congr 1
    omega

@[simp] theorem length_overwrite (h : n + w.length ≤ l.length) : (overwrite l n w).length = l.length := by
  simp only [overwrite, List.length_append, List.length_take, List.length_drop]
  omega

/-- A write is read back. -/
theorem part_overwrite_self (h : n + w.length ≤ l.length) (hhi : hi = n + w.length) :
    part (overwrite l n w) n hi = w := by
  refine List.ext_getElem? fun i => ?_
  rw [getElem?_part, getElem?_overwrite h]
  by_cases hi' : i < w.length
  · rw [if_pos (by omega), if_pos (by omega), Nat.add_sub_cancel_left]
  · rw [if_neg (by omega), List.getElem?_eq_none (by omega)]

/-- A part apart from the write stays. -/
theorem part_overwrite_of_apart (h : n + w.length ≤ l.length) (hd : hi ≤ n ∨ n + w.length ≤ lo) :
    part (overwrite l n w) lo hi = part l lo hi := by
  refine List.ext_getElem? fun i => ?_
  rw [getElem?_part, getElem?_part, getElem?_overwrite h]
  split_ifs
  · omega
  · rfl
  · rfl

/-- What lies before a write stays. -/
theorem take_overwrite (h : m ≤ n) (hn : n ≤ l.length) : (overwrite l n w).take m = l.take m := by
  rw [overwrite, List.append_assoc, List.take_append_of_le_length
    (by rw [List.length_take]; omega), List.take_take, Nat.min_eq_left h]

/-- A second write at the same place hides what it covers of the first. -/
theorem overwrite_overwrite (hn : n ≤ l.length) (h : w.length ≤ v.length) :
    overwrite (overwrite l n v) n w = overwrite l n (w ++ v.drop w.length) := by
  have hlen : (l.take n).length = n := List.length_take_of_le hn
  have htake : ((l.take n ++ v) ++ l.drop (n + v.length)).take n = l.take n := by
    rw [List.append_assoc, List.take_left' hlen]
  have hdrop : ((l.take n ++ v) ++ l.drop (n + v.length)).drop (n + w.length) =
      v.drop w.length ++ l.drop (n + v.length) := by
    rw [List.append_assoc, ← List.drop_drop, List.drop_left' hlen, List.drop_append_of_le_length h]
  rw [overwrite, overwrite, overwrite, htake, hdrop, List.length_append, List.length_drop,
    Nat.add_sub_cancel' h, ← List.append_assoc, List.append_assoc (l.take n)]

/-- Writes apart from each other commute. -/
theorem overwrite_comm (hv : n + v.length ≤ l.length) (hw : m + w.length ≤ l.length)
    (hd : n + v.length ≤ m ∨ m + w.length ≤ n) :
    overwrite (overwrite l n v) m w = overwrite (overwrite l m w) n v := by
  refine List.ext_getElem? fun i => ?_
  rw [getElem?_overwrite (by rwa [length_overwrite hv]), getElem?_overwrite hv,
    getElem?_overwrite (by rwa [length_overwrite hw]), getElem?_overwrite hw]
  split_ifs
  · omega
  all_goals rfl

theorem overwrite_nil : overwrite l n [] = l := by
  rw [overwrite, List.append_nil, List.length_nil, Nat.add_zero, List.take_append_drop]

/-- A write in two steps, the second behind the first. -/
theorem overwrite_append (hn : n + v.length ≤ l.length) :
    overwrite l n (v ++ w) = overwrite (overwrite l n v) (n + v.length) w := by
  have hlen : (l.take n ++ v).length = n + v.length := by
    rw [List.length_append, List.length_take_of_le (by omega)]
  have hdrop : (l.take n ++ v ++ l.drop (n + v.length)).drop (n + v.length + w.length) =
      l.drop (n + v.length + w.length) := by
    rw [← List.drop_drop, List.drop_left' hlen, List.drop_drop]
  rw [overwrite, overwrite, overwrite, List.take_left' hlen, hdrop, List.length_append,
    List.append_assoc (l.take n) v w, Nat.add_assoc]

/-- Writing what is there changes nothing. -/
theorem overwrite_part (hn : n + w.length ≤ l.length) (h : part l n (n + w.length) = w) :
    overwrite l n w = l := by
  refine List.ext_getElem? fun i => ?_
  rw [getElem?_overwrite hn]
  split_ifs with hi
  · rw [← h, getElem?_part, if_pos (by omega), Nat.add_sub_cancel' hi.1]
  · rfl

/-! ### Many writes -/

/-- The list with each part written over it, in order. -/
def overlay (l : List α) (parts : List (ℕ × List α)) : List α :=
  parts.foldl (fun l p => overwrite l p.1 p.2) l

/-- The parts have no position in common. -/
def Apart (p q : ℕ × List α) : Prop := p.1 + p.2.length ≤ q.1 ∨ q.1 + q.2.length ≤ p.1

theorem Apart.symm {p q : ℕ × List α} (h : Apart p q) : Apart q p := Or.symm h

/-- Parts in places of their own, of a list that long. -/
structure Fits (size : ℕ) (parts : List (ℕ × List α)) : Prop where
  inside : ∀ p ∈ parts, p.1 + p.2.length ≤ size
  apart : parts.Pairwise Apart

theorem Fits.sublist {size : ℕ} {parts parts' : List (ℕ × List α)} (h : Fits size parts)
    (hsub : parts'.Sublist parts) : Fits size parts' :=
  ⟨fun p hp => h.inside p (hsub.subset hp), h.apart.sublist hsub⟩

theorem Fits.perm {size : ℕ} {parts parts' : List (ℕ × List α)} (h : Fits size parts)
    (hperm : parts.Perm parts') : Fits size parts' :=
  ⟨fun p hp => h.inside p (hperm.mem_iff.mpr hp), (hperm.pairwise_iff Apart.symm).mp h.apart⟩

theorem length_overlay {parts : List (ℕ × List α)} (h : ∀ p ∈ parts, p.1 + p.2.length ≤ l.length) :
    (overlay l parts).length = l.length := by
  induction parts generalizing l with
  | nil => rfl
  | cons p parts ih =>
    have hp := length_overwrite (h p List.mem_cons_self)
    rw [overlay, List.foldl_cons]
    exact (ih fun q hq => by rw [hp]; exact h q (List.mem_cons_of_mem _ hq)).trans hp

theorem overlay_concat {parts : List (ℕ × List α)} :
    overlay l (parts ++ [(n, w)]) = overwrite (overlay l parts) n w := by
  rw [overlay, List.foldl_append]
  rfl

/-- What lies apart from all parts stays. -/
theorem part_overlay_of_apart {parts : List (ℕ × List α)}
    (h : ∀ p ∈ parts, p.1 + p.2.length ≤ l.length)
    (hapart : ∀ p ∈ parts, hi ≤ p.1 ∨ p.1 + p.2.length ≤ lo) :
    part (overlay l parts) lo hi = part l lo hi := by
  induction parts generalizing l with
  | nil => rfl
  | cons p parts ih =>
    have hp := h p List.mem_cons_self
    rw [overlay, List.foldl_cons]
    refine (ih (fun q hq => ?_) fun q hq => hapart q (List.mem_cons_of_mem _ hq)).trans
      (part_overwrite_of_apart hp (hapart p List.mem_cons_self))
    rw [length_overwrite hp]
    exact h q (List.mem_cons_of_mem _ hq)

/-- Parts apart from each other are written in any order. -/
theorem overlay_perm {parts parts' : List (ℕ × List α)} (hperm : parts.Perm parts')
    (h : Fits l.length parts) : overlay l parts = overlay l parts' := by
  obtain ⟨h, hapart⟩ := h
  induction hperm generalizing l with
  | nil => rfl
  | cons p _ ih =>
    refine ih (fun q hq => ?_) (List.pairwise_cons.mp hapart).2
    rw [length_overwrite (h p List.mem_cons_self)]
    exact h q (List.mem_cons_of_mem _ hq)
  | swap p q parts =>
    have hpq : Apart q p := (List.pairwise_cons.mp hapart).1 p List.mem_cons_self
    rw [overlay, overlay, List.foldl_cons, List.foldl_cons, List.foldl_cons, List.foldl_cons,
      overwrite_comm (h q List.mem_cons_self) (h p (List.mem_cons_of_mem _ List.mem_cons_self)) hpq]
  | trans h1 _ ih1 ih2 =>
    exact (ih1 h hapart).trans (ih2 (fun p hp => h p (h1.mem_iff.mpr hp))
      ((h1.pairwise_iff Apart.symm).mp hapart))

end Boot2Deb
