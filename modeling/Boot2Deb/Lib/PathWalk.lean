import Mathlib.Data.List.Induction
import Mathlib.Logic.Relation

/-!
# Walking down a tree of directories

A path is a list of steps from the root: stay, go up, go to a child. `walk` is the directory it
leads to, as the names on the way there, in a tree without links; above the root is the root. Two
paths lead to one directory exactly when steps that cancel turn one into the other (`walk_eq_iff`).
-/

namespace Boot2Deb

/-- One component of a path. -/
inductive PathStep (α : Type*) where
  | stay
  | up
  | child (name : α)

namespace PathStep

variable {α : Type*}

/-- The directory one step leads to. -/
def next (dir : List α) : PathStep α → List α
  | stay => dir
  | up => dir.dropLast
  | child name => dir ++ [name]

/-- The directory a path leads to. -/
def walk (path : List (PathStep α)) : List α := path.foldl next []

/-- A path with steps taken out that lead nowhere. -/
inductive Cancel : List (PathStep α) → List (PathStep α) → Prop
  | stay (before after : List (PathStep α)) : Cancel (before ++ stay :: after) (before ++ after)
  | back (before after : List (PathStep α)) (name : α) :
      Cancel (before ++ child name :: up :: after) (before ++ after)
  | root (after : List (PathStep α)) : Cancel (up :: after) after

/-- Two spellings of a path, up to steps that cancel. -/
def Respelled : List (PathStep α) → List (PathStep α) → Prop := Relation.EqvGen Cancel

variable {path path' : List (PathStep α)}

theorem Cancel.walk_eq (h : Cancel path path') : walk path = walk path' := by
  cases h with
  | stay before after => simp [walk, next]
  | back before after name => simp [walk, next]
  | root after => rfl

theorem Respelled.walk_eq (h : Respelled path path') : walk path = walk path' := by
  induction h with
  | rel _ _ h => exact h.walk_eq
  | refl => rfl
  | symm _ _ _ ih => exact ih.symm
  | trans _ _ _ _ _ ih ih' => exact ih.trans ih'

theorem Cancel.append_right (h : Cancel path path') (after : List (PathStep α)) :
    Cancel (path ++ after) (path' ++ after) := by
  cases h with
  | stay before mid =>
    rw [List.append_assoc, List.append_assoc, List.cons_append]
    exact Cancel.stay ..
  | back before mid name =>
    rw [List.append_assoc, List.append_assoc, List.cons_append, List.cons_append]
    exact Cancel.back ..
  | root mid => exact Cancel.root _

theorem Respelled.append_right (h : Respelled path path') (after : List (PathStep α)) :
    Respelled (path ++ after) (path' ++ after) := by
  induction h with
  | rel _ _ h => exact .rel _ _ (h.append_right after)
  | refl => exact .refl _
  | symm _ _ _ ih => exact .symm _ _ ih
  | trans _ _ _ _ _ ih ih' => exact .trans _ _ _ ih ih'

/-- Every path is a spelling of the names on its way. -/
theorem respelled_walk (path : List (PathStep α)) : Respelled path ((walk path).map child) := by
  induction path using List.reverseRecOn with
  | nil => exact .refl _
  | append_singleton path step ih =>
    refine .trans _ _ _ (ih.append_right [step]) ?_
    have hwalk : walk (path ++ [step]) = next (walk path) step := by simp [walk]
    rw [hwalk]
    cases step with
    | stay => exact .rel _ _ (by simpa [next] using Cancel.stay ((walk path).map child) [])
    | child name => simpa [next] using Relation.EqvGen.refl _
    | up =>
      rcases List.eq_nil_or_concat (walk path) with hnil | ⟨dir, name, hdir⟩
      · rw [hnil]
        exact .rel _ _ (Cancel.root [])
      · rw [hdir]
        refine .rel _ _ ?_
        simpa [next] using Cancel.back (dir.map child) [] name

theorem walk_eq_iff : walk path = walk path' ↔ Respelled path path' := by
  constructor
  · intro h
    have hpath := respelled_walk path
    rw [h] at hpath
    exact .trans _ _ _ hpath (.symm _ _ (respelled_walk path'))
  · exact Respelled.walk_eq

end PathStep

end Boot2Deb
