import Mathlib
import Boot2Deb.Lib.Run

/-!
# Scripts that are run again

A script looks at a store and issues writes, each to one cell of it. A run may end behind any of its
writes, and the script is then started over. `Absorbs p q` says that a whole run of `p` makes the
same of a store whether or not a run of `q` that ended early came before. It may rest on what the
scripts keep of each cell (`Keeps`), and on certain cells not being left by halves (`Intact`).
-/

namespace Boot2Deb.Resume

/-- The writes of a store: the cell each goes to, and what it makes of the cell. -/
structure Writes (κ ε β : Type*) where
  target : ε → κ
  edit : ε → β → β

/-- The writes a script issues on a store. -/
abbrev Script (κ ε β : Type*) := (κ → β) → List ε

variable {κ ε β : Type*} [DecidableEq κ] {w : Writes κ ε β} {p q p' q' : Script κ ε β}
  {s t : κ → β} {es : List ε} {F G D : Set κ} {ok : κ → β → Prop} {n : ℕ}

namespace Writes

def apply (w : Writes κ ε β) (s : κ → β) (e : ε) : κ → β :=
  Function.update s (w.target e) (w.edit e (s (w.target e)))

def exec (w : Writes κ ε β) (s : κ → β) (es : List ε) : κ → β := es.foldl w.apply s

/-- The store behind a script that came to its end. -/
def run (w : Writes κ ε β) (p : Script κ ε β) (s : κ → β) : κ → β := w.exec s (p s)

/-- The store behind a script that ended after some of its writes. -/
def cut (w : Writes κ ε β) (p : Script κ ε β) (n : ℕ) (s : κ → β) : κ → β := w.exec s ((p s).take n)

/-- One script behind another. -/
def andThen (w : Writes κ ε β) (p q : Script κ ε β) : Script κ ε β := fun s => p s ++ q (w.run p s)

theorem exec_append (fs : List ε) : w.exec s (es ++ fs) = w.exec (w.exec s es) fs :=
  List.foldl_append

theorem run_andThen : w.run (w.andThen p q) s = w.run q (w.run p s) := exec_append _

theorem run_eq_cut : w.run p s = w.cut p (p s).length s := by
  unfold run cut
  rw [List.take_length]

theorem cut_of_length_le (h : (p s).length ≤ n) : w.cut p n s = w.run p s := by
  unfold run cut
  rw [List.take_of_length_le h]

/-- A cut falls into the first script or into the second. -/
theorem cut_andThen (n : ℕ) : w.cut (w.andThen p q) n s = w.cut p n s ∨
    ∃ k, w.cut (w.andThen p q) n s = w.cut q k (w.run p s) := by
  unfold cut andThen
  rcases Nat.le_total n (p s).length with h | h
  · exact .inl (by rw [List.take_append_of_le_length h])
  · refine .inr ⟨n - (p s).length, ?_⟩
    rw [List.take_append, List.take_of_length_le h, exec_append]
    rfl

end Writes

/-! ### Scripts apart from each other -/

/-- A script that looks at, and writes, no other cells than these. -/
structure Within (w : Writes κ ε β) (F : Set κ) (p : Script κ ε β) : Prop where
  reads : ∀ s t : κ → β, (∀ k ∈ F, s k = t k) → p s = p t
  writes : ∀ s, ∀ e ∈ p s, w.target e ∈ F

omit [DecidableEq κ] in
theorem Within.mono (h : Within w F p) (hFG : F ⊆ G) : Within w G p where
  reads s t hst := h.reads s t fun k hk => hst k (hFG hk)
  writes s e he := hFG (h.writes s e he)

theorem exec_outside (hes : ∀ e ∈ es, w.target e ∈ F) {k : κ} (hk : k ∉ F) : w.exec s es k = s k := by
  induction es generalizing s with
  | nil => rfl
  | cons e es ih =>
    obtain ⟨he, hes⟩ := List.forall_mem_cons.mp hes
    have hrest := @ih (w.apply s e) hes
    have hne : k ≠ w.target e := fun h => hk (h ▸ he)
    exact hrest.trans (Function.update_of_ne hne _ _)

theorem exec_inside (hes : ∀ e ∈ es, w.target e ∈ F) (hst : ∀ k ∈ F, s k = t k) :
    ∀ k ∈ F, w.exec s es k = w.exec t es k := by
  induction es generalizing s t with
  | nil => exact hst
  | cons e es ih =>
    obtain ⟨he, hes⟩ := List.forall_mem_cons.mp hes
    refine ih hes fun k hk => ?_
    unfold Writes.apply
    rw [hst _ he]
    by_cases h : k = w.target e
    · rw [h, Function.update_self, Function.update_self]
    · rw [Function.update_of_ne h, Function.update_of_ne h, hst k hk]

theorem Within.cut_outside (h : Within w F p) {k : κ} (hk : k ∉ F) : w.cut p n s k = s k :=
  exec_outside (fun e he => h.writes s e (List.mem_of_mem_take he)) hk

theorem Within.run_outside (h : Within w F p) {k : κ} (hk : k ∉ F) : w.run p s k = s k :=
  exec_outside (h.writes s) hk

/-- One script behind another keeps to the cells of both. -/
theorem Within.andThen (hp : Within w F p) (hq : Within w G q) :
    Within w (F ∪ G) (w.andThen p q) where
  reads s t hst := by
    have hps : p s = p t := hp.reads s t fun k hk => hst k (.inl hk)
    have hrun : ∀ k ∈ G, w.run p s k = w.run p t k := by
      intro k hk
      by_cases hkF : k ∈ F
      · show w.exec s (p s) k = w.exec t (p t) k
        rw [hps]
        exact exec_inside (hp.writes t) (fun k hk => hst k (.inl hk)) k hkF
      · rw [hp.run_outside hkF, hp.run_outside hkF]
        exact hst k (.inr hk)
    show p s ++ q (w.run p s) = p t ++ q (w.run p t)
    rw [hps, hq.reads _ _ hrun]
  writes s e he := (List.mem_append.mp he).imp (hp.writes s e) (hq.writes _ e)

/-- What a script leaves in its own cells does not depend on a script before it. -/
theorem run_andThen_right (hp : Within w F p) (hq : Within w G q) (hFG : Disjoint F G) {k : κ}
    (hk : k ∈ G) : w.run (w.andThen p q) s k = w.run q s k := by
  have hsame : ∀ k ∈ G, w.run p s k = s k := fun k hk =>
    hp.run_outside (Set.disjoint_right.mp hFG hk)
  have hq' : q (w.run p s) = q s := hq.reads _ _ hsame
  rw [Writes.run_andThen]
  show w.exec (w.run p s) (q (w.run p s)) k = w.exec s (q s) k
  rw [hq']
  exact exec_inside (hq.writes s) hsame k hk

theorem run_andThen_left (hq : Within w G q) {k : κ} (hk : k ∉ G) :
    w.run (w.andThen p q) s k = w.run p s k := by
  rw [Writes.run_andThen, hq.run_outside hk]

/-- Scripts apart from each other do not mind each other's writes. -/
theorem run_cut_comm (hp : Within w F p) (hq : Within w G q) (hFG : Disjoint F G) :
    w.run p (w.cut q n s) = w.cut q n (w.run p s) := by
  have hpq : p (w.cut q n s) = p s :=
    hp.reads _ _ fun k hk => hq.cut_outside (Set.disjoint_left.mp hFG hk)
  have hqp : q (w.run p s) = q s :=
    hq.reads _ _ fun k hk => hp.run_outside (Set.disjoint_right.mp hFG hk)
  funext k
  by_cases hkF : k ∈ F
  · have hkG := Set.disjoint_left.mp hFG hkF
    rw [hq.cut_outside hkG]
    unfold Writes.run at hpq ⊢
    rw [hpq]
    exact exec_inside (hp.writes s) (fun k hk => hq.cut_outside (Set.disjoint_left.mp hFG hk)) k hkF
  · rw [hp.run_outside hkF]
    by_cases hkG : k ∈ G
    · unfold Writes.cut
      rw [hqp]
      exact exec_inside (fun e he => hq.writes s e (List.mem_of_mem_take he))
        (fun k hk => (hp.run_outside (Set.disjoint_right.mp hFG hk)).symm) k hkG
    · rw [hq.cut_outside hkG, hq.cut_outside hkG, hp.run_outside hkF]

/-! ### Absorbing what ended early -/

/-- However a script ends, the cells stay as they should be. -/
def Keeps (w : Writes κ ε β) (ok : κ → β → Prop) (p : Script κ ε β) : Prop :=
  ∀ s n, (∀ k, ok k (s k)) → ∀ k, ok k (w.cut p n s k)

theorem Keeps.run (h : Keeps w ok p) (hs : ∀ k, ok k (s k)) : ∀ k, ok k (w.run p s k) := by
  rw [Writes.run_eq_cut]
  exact h s _ hs

/-- Enough for it is that every write keeps its cell so. -/
theorem keeps_of_edit (h : ∀ s, ∀ e ∈ p s, ∀ b, ok (w.target e) b → ok (w.target e) (w.edit e b)) :
    Keeps w ok p := by
  intro s n hs
  have hexec : ∀ (es : List ε) (s : κ → β),
      (∀ e ∈ es, ∀ b, ok (w.target e) b → ok (w.target e) (w.edit e b)) →
      (∀ k, ok k (s k)) → ∀ k, ok k (w.exec s es k) := by
    intro es
    induction es with
    | nil => exact fun s _ hs => hs
    | cons e es ih =>
      intro s hes hs
      obtain ⟨he, hes⟩ := List.forall_mem_cons.mp hes
      refine ih (w.apply s e) hes fun k => ?_
      unfold Writes.apply
      by_cases hk : k = w.target e
      · rw [hk, Function.update_self]
        exact he _ (hs _)
      · rw [Function.update_of_ne hk]
        exact hs k
  exact hexec _ s (fun e he => h s e (List.mem_of_mem_take he)) hs

theorem Keeps.andThen (hp : Keeps w ok p) (hq : Keeps w ok q) : Keeps w ok (w.andThen p q) := by
  intro s n hs
  rcases @Writes.cut_andThen _ _ _ _ w p q s n with hcut | ⟨k, hcut⟩
  · rw [hcut]
    exact hp s n hs
  · rw [hcut]
    exact hq _ k (hp.run hs)

/-- Of these cells none was left by halves: each is as it was, or as a whole run leaves it. -/
def Intact (w : Writes κ ε β) (D : Set κ) (q : Script κ ε β) (n : ℕ) (s : κ → β) : Prop :=
  ∀ k ∈ D, w.cut q n s k = s k ∨ w.cut q n s k = w.run q s k

theorem intact_run : Intact w D q (q s).length s := fun _ _ => .inr (by rw [Writes.run_eq_cut])

/-- A whole run makes nothing of a run that ended early before it, where that left no cell of `D` by
halves. -/
def Absorbs (w : Writes κ ε β) (ok : κ → β → Prop) (D : Set κ) (p q : Script κ ε β) : Prop :=
  ∀ s n, (∀ k, ok k (s k)) → Intact w D q n s → w.run p (w.cut q n s) = w.run p s

theorem Absorbs.run (h : Absorbs w ok D p q) (hs : ∀ k, ok k (s k)) :
    w.run p (w.run q s) = w.run p s := by
  rw [@Writes.run_eq_cut _ _ _ _ w q]
  exact h s _ hs intact_run

/-- Scripts that absorb, behind scripts that do and are apart from them. -/
theorem Absorbs.andThen (h : Absorbs w ok D p q) (h' : Absorbs w ok D p' q')
    (hkeeps : Keeps w ok p) (hp : Within w F p) (hq : Within w F q) (hq' : Within w G q')
    (hFG : Disjoint F G) : Absorbs w ok D (w.andThen p p') (w.andThen q q') := by
  intro s n hs hintact
  rw [Writes.run_andThen, Writes.run_andThen]
  rcases @Writes.cut_andThen _ _ _ _ w q q' s n with hcut | ⟨k, hcut⟩
  · rw [hcut]
    refine congrArg _ (h s n hs fun c hc => ?_)
    have hwhole := hintact c hc
    rw [hcut, Writes.run_andThen] at hwhole
    by_cases hcF : c ∈ F
    · rwa [hq'.run_outside (Set.disjoint_left.mp hFG hcF)] at hwhole
    · exact .inl (hq.cut_outside hcF)
  · have hagree : ∀ c ∈ G, w.run p s c = w.run q s c := fun c hc => by
      rw [hp.run_outside (Set.disjoint_right.mp hFG hc),
        hq.run_outside (Set.disjoint_right.mp hFG hc)]
    have hsame : q' (w.run p s) = q' (w.run q s) := hq'.reads _ _ hagree
    have hintact' : Intact w D q' k (w.run p s) := by
      intro c hc
      by_cases hcG : c ∈ G
      · have hwhole := hintact c hc
        rw [hcut, Writes.run_andThen] at hwhole
        have hcutSame : w.cut q' k (w.run p s) c = w.cut q' k (w.run q s) c := by
          unfold Writes.cut
          rw [hsame]
          exact exec_inside (fun e he => hq'.writes _ e (List.mem_of_mem_take he)) hagree c hcG
        have hrunSame : w.run q' (w.run p s) c = w.run q' (w.run q s) c := by
          show w.exec _ (q' (w.run p s)) c = w.exec _ (q' (w.run q s)) c
          rw [hsame]
          exact exec_inside (hq'.writes _) hagree c hcG
        rw [hcutSame, hrunSame, hp.run_outside (Set.disjoint_right.mp hFG hcG)]
        exact hwhole
      · exact .inl (hq'.cut_outside hcG)
    rw [hcut, run_cut_comm hp hq' hFG, h.run hs]
    exact h' _ k (hkeeps.run hs) hintact'

end Boot2Deb.Resume
