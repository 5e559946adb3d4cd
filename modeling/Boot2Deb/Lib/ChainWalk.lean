import Mathlib.Logic.Relation
import Mathlib.Data.Finset.Card
import Boot2Deb.Rust.Outcome

/-!
# Chains of links

A name is checked, is read, and leads on to one other name or to none. A chain is what a name leads
to, down to one that leads nowhere. A walk follows the names and refuses to come back to one: it
finds the chain where there is one (`walk_of_chain`), refuses a name that leads to a cycle
(`walk_of_cyclic`), and ends wherever only finitely many names pass the check (`walk_ends`).
-/

namespace Boot2Deb.Lib
open Rust Relation

variable {α β ε : Type}

/-- What each name holds and the name it leads to, or why it cannot be read. -/
abbrev Links (α β ε : Type) := α → Outcome ε (β × Option α)

namespace Links

def LeadsTo (links : Links α β ε) (a a' : α) : Prop := ∃ b, links a = .ok (b, some a')

/-- The names a name leads to with what they hold, down to one that leads nowhere. -/
inductive Chain (links : Links α β ε) : α → List (α × β) → Prop
  | last {a b} (h : links a = .ok (b, none)) : Chain links a [(a, b)]
  | link {a b a' levels} (h : links a = .ok (b, some a')) (rest : Chain links a' levels) :
    Chain links a ((a, b) :: levels)

/-- A name that leads to one that leads back to itself. -/
def Cyclic (links : Links α β ε) (a : α) : Prop :=
  ∃ x, ReflTransGen links.LeadsTo a x ∧ TransGen links.LeadsTo x x

/-- The links of names that are checked before they are read. -/
def checked (check : α → Outcome ε Unit) (read : Links α β ε) : Links α β ε := fun a => do
  check a
  read a

variable {links : Links α β ε} {a a' x : α} {b : β} {levels levels' : List (α × β)}

/-! ### Chains and cycles -/

theorem LeadsTo.unique (h : links.LeadsTo a a') (h' : links.LeadsTo a x) : a' = x := by
  obtain ⟨b, hb⟩ := h
  obtain ⟨b', hb'⟩ := h'
  rw [hb] at hb'
  cases hb'
  rfl

theorem Chain.unique (h : links.Chain a levels) (h' : links.Chain a levels') : levels = levels' := by
  induction h generalizing levels' with
  | last h =>
    cases h' with
    | last h' =>
      rw [h] at h'
      cases h'
      rfl
    | link h' _ =>
      rw [h] at h'
      cases h'
  | link h _ ih =>
    cases h' with
    | last h' =>
      rw [h] at h'
      cases h'
    | link h' rest =>
      rw [h] at h'
      cases h'
      rw [ih rest]

theorem Chain.ne_nil (h : links.Chain a levels) : levels ≠ [] := by
  cases h <;> exact List.cons_ne_nil _ _

/-- From every name of a chain on, the rest of it is a chain. -/
theorem Chain.exists_suffix (h : links.Chain a levels) (hx : x ∈ levels.map Prod.fst) :
    ∃ rest, links.Chain x rest ∧ rest.length ≤ levels.length := by
  induction h with
  | last h =>
    obtain rfl := List.mem_singleton.mp hx
    exact ⟨_, .last h, le_rfl⟩
  | link h rest ih =>
    rw [List.map_cons, List.mem_cons] at hx
    rcases hx with rfl | hx
    · exact ⟨_, .link h rest, le_rfl⟩
    · obtain ⟨found, hc, hlen⟩ := ih hx
      exact ⟨found, hc, hlen.trans (Nat.le_succ _)⟩

/-- No name is twice in a chain: the rest behind it would be as long as itself. -/
theorem Chain.nodup (h : links.Chain a levels) : (levels.map Prod.fst).Nodup := by
  induction h with
  | last => exact List.nodup_singleton _
  | link h rest ih =>
    refine List.nodup_cons.mpr ⟨fun hmem => ?_, ih⟩
    obtain ⟨again, hagain, hlen⟩ := rest.exists_suffix hmem
    have heq := (Chain.link h rest).unique hagain
    rw [← heq, List.length_cons] at hlen
    omega

theorem Cyclic.next (h : links.Cyclic a) : ∃ a', links.LeadsTo a a' ∧ links.Cyclic a' := by
  obtain ⟨x, hax, hx⟩ := h
  rcases ReflTransGen.cases_head hax with rfl | ⟨a', haa', ha'x⟩
  · obtain ⟨a', haa', ha'⟩ := TransGen.head'_iff.mp hx
    exact ⟨a', haa', a, ha', hx⟩
  · exact ⟨a', haa', x, ha'x, hx⟩

theorem Cyclic.of_reach (h : links.Cyclic a) (hx : ReflTransGen links.LeadsTo a x) :
    links.Cyclic x := by
  induction hx with
  | refl => exact h
  | tail _ hstep ih =>
    obtain ⟨a', hnext, hcyc⟩ := ih.next
    exact hstep.unique hnext ▸ hcyc

theorem Chain.not_cyclic (h : links.Chain a levels) : ¬ links.Cyclic a := by
  induction h with
  | last h =>
    intro hcyc
    obtain ⟨a', ⟨b', hb'⟩, -⟩ := hcyc.next
    rw [h] at hb'
    cases hb'
  | link h _ ih =>
    intro hcyc
    obtain ⟨a', hnext, hcyc'⟩ := hcyc.next
    exact ih (hnext.unique ⟨_, h⟩ ▸ hcyc')

/-! ### The walk -/

variable [DecidableEq α] {check : α → Outcome ε Unit} {read : Links α β ε} {cyclic : List α → ε}
  {seen : List (α × β)} {fuel : ℕ}

/-- Walk on from a name behind those seen; none where the fuel runs out. -/
def walk (check : α → Outcome ε Unit) (read : Links α β ε) (cyclic : List α → ε) :
    ℕ → List (α × β) → α → Outcome ε (Option (List (α × β)))
  | 0, _, _ => .ok none
  | fuel + 1, seen, a => do
    check a
    if a ∈ seen.map Prod.fst then .err (cyclic (seen.map Prod.fst ++ [a]))
    else
      let (b, next) ← read a
      match next with
      | none => .ok (some (seen ++ [(a, b)]))
      | some a' => walk check read cyclic fuel (seen ++ [(a, b)]) a'

/-- One round: the name is refused by the check, was seen, cannot be read, or is put behind the
others. -/
theorem walk_succ_cases (fuel : ℕ) (seen : List (α × β)) (a : α) :
    (check a = .ok () ∧ a ∈ seen.map Prod.fst ∧
        walk check read cyclic (fuel + 1) seen a = .err (cyclic (seen.map Prod.fst ++ [a]))) ∨
      ((∀ p, checked check read a ≠ .ok p) ∧ ∀ o, walk check read cyclic (fuel + 1) seen a ≠ .ok o) ∨
      (check a = .ok () ∧ a ∉ seen.map Prod.fst ∧ ∃ b next, checked check read a = .ok (b, next) ∧
        walk check read cyclic (fuel + 1) seen a = match next with
          | none => .ok (some (seen ++ [(a, b)]))
          | some a' => walk check read cyclic fuel (seen ++ [(a, b)]) a') := by
  cases hcheck : check a with
  | err e => exact .inr (.inl (by simp [checked, walk, hcheck]))
  | panic => exact .inr (.inl (by simp [checked, walk, hcheck]))
  | ok u =>
    by_cases hseen : a ∈ seen.map Prod.fst
    · exact .inl ⟨rfl, hseen, by simp [walk, hcheck, hseen]⟩
    cases hread : read a with
    | err e => exact .inr (.inl (by simp [checked, walk, hcheck, hread, hseen]))
    | panic => exact .inr (.inl (by simp [checked, walk, hcheck, hread, hseen]))
    | ok p =>
      obtain ⟨b, next⟩ := p
      refine .inr (.inr ⟨rfl, hseen, b, next, by simp [checked, hcheck, hread], ?_⟩)
      simp only [walk, hcheck, hread, Outcome.ok_bind, if_neg hseen]

theorem walk_of_chain_behind (h : (checked check read).Chain a levels)
    (hnew : ∀ x ∈ levels.map Prod.fst, x ∉ seen.map Prod.fst) (hfuel : levels.length ≤ fuel) :
    walk check read cyclic fuel seen a = .ok (some (seen ++ levels)) := by
  induction h generalizing seen fuel with
  | last h =>
    obtain ⟨fuel, rfl⟩ := Nat.exists_eq_succ_of_ne_zero (Nat.one_le_iff_ne_zero.mp hfuel)
    rcases walk_succ_cases fuel seen _ with ⟨-, hseen, -⟩ | ⟨hno, -⟩ | ⟨-, -, b', next, hb', hw⟩
    · exact absurd hseen (hnew _ List.mem_cons_self)
    · exact absurd h (hno _)
    · rw [h] at hb'
      cases hb'
      exact hw
  | @link a b a' levels h rest ih =>
    obtain ⟨fuel, rfl⟩ := Nat.exists_eq_succ_of_ne_zero (n := fuel) (by
      rw [List.length_cons] at hfuel
      omega)
    rcases walk_succ_cases fuel seen _ with ⟨-, hseen, -⟩ | ⟨hno, -⟩ | ⟨-, -, b', next, hb', hw⟩
    · exact absurd hseen (hnew _ List.mem_cons_self)
    · exact absurd h (hno _)
    · rw [h] at hb'
      cases hb'
      have hfirst := (List.nodup_cons.mp (Chain.link h rest).nodup).1
      have hbehind : ∀ x ∈ levels.map Prod.fst, x ∉ (seen ++ [(a, b)]).map Prod.fst := by
        intro x hx hmem
        rw [List.map_append, List.mem_append, List.map_singleton, List.mem_singleton] at hmem
        rcases hmem with hmem | rfl
        · exact hnew x (List.mem_cons_of_mem _ hx) hmem
        · exact hfirst hx
      refine hw.trans ((ih hbehind (Nat.succ_le_succ_iff.mp hfuel)).trans ?_)
      rw [List.append_assoc]
      rfl

/-- A chain is found by every walk with fuel for its names. -/
theorem walk_of_chain (h : (checked check read).Chain a levels) (hfuel : levels.length ≤ fuel) :
    walk check read cyclic fuel [] a = .ok (some levels) :=
  walk_of_chain_behind h (fun _ _ => List.not_mem_nil) hfuel

/-- What a walk finds is a chain. -/
theorem chain_of_walk {all : List (α × β)}
    (h : walk check read cyclic fuel seen a = .ok (some all)) :
    ∃ levels, all = seen ++ levels ∧ (checked check read).Chain a levels := by
  induction fuel generalizing seen a with
  | zero => cases h
  | succ fuel ih =>
    rcases walk_succ_cases fuel seen a with ⟨-, -, hw⟩ | ⟨-, hw⟩ | ⟨-, -, b, next, hb, hw⟩
    · rw [hw] at h
      cases h
    · exact absurd h (hw _)
    · rw [hw] at h
      cases next with
      | none =>
        cases h
        exact ⟨_, rfl, .last hb⟩
      | some a' =>
        obtain ⟨levels, rfl, hc⟩ := ih h
        exact ⟨(a, b) :: levels, List.append_assoc .., .link hb hc⟩

/-- A walk that finds no chain has come back to a name, or reached one that cannot be read. -/
theorem walk_fails (h : ∀ o, walk check read cyclic fuel seen a ≠ .ok o) :
    (∃ names x, x ∈ seen.map Prod.fst ++ names ∧
        (names ++ [x]).IsChain (checked check read).LeadsTo ∧ (names ++ [x]).head? = some a ∧
        walk check read cyclic fuel seen a = .err (cyclic (seen.map Prod.fst ++ names ++ [x]))) ∨
      ∃ x, ReflTransGen (checked check read).LeadsTo a x ∧ ∀ p, checked check read x ≠ .ok p := by
  induction fuel generalizing seen a with
  | zero => exact absurd rfl (h none)
  | succ fuel ih =>
    rcases walk_succ_cases fuel seen a with ⟨-, hseen, hw⟩ | ⟨hno, -⟩ | ⟨-, -, b, next, hb, hw⟩
    · exact .inl ⟨[], a, by simpa using hseen, List.isChain_singleton a, rfl, by simpa using hw⟩
    · exact .inr ⟨a, .refl, hno⟩
    · rw [hw] at h ⊢
      cases next with
      | none => exact absurd rfl (h _)
      | some a' =>
        rcases ih h with ⟨names, x, hx, hchain, hhead, hw'⟩ | ⟨x, hreach, hno⟩
        · refine .inl ⟨a :: names, x, by simpa using hx, ?_, rfl, by simpa using hw'⟩
          refine List.isChain_cons.mpr ⟨fun y hy => ?_, hchain⟩
          obtain rfl := Option.some.inj (hhead.symm.trans hy)
          exact ⟨b, hb⟩
        · exact .inr ⟨x, .head ⟨b, hb⟩ hreach, hno⟩

/-- A walk does not run out of fuel where there is some for every name that passes the check. -/
theorem walk_ends {names : Finset α} (hnames : ∀ a, check a = .ok () → a ∈ names)
    (hnodup : (seen.map Prod.fst).Nodup) (hseen : ∀ a ∈ seen.map Prod.fst, a ∈ names)
    (hfuel : names.card < fuel + seen.length) : walk check read cyclic fuel seen a ≠ .ok none := by
  induction fuel generalizing seen a with
  | zero =>
    have hsub : (seen.map Prod.fst).toFinset ⊆ names := fun x hx => hseen x (List.mem_toFinset.mp hx)
    have hcard := Finset.card_le_card hsub
    rw [List.toFinset_card_of_nodup hnodup, List.length_map] at hcard
    omega
  | succ fuel ih =>
    rcases walk_succ_cases fuel seen a with ⟨-, -, hw⟩ | ⟨-, hw⟩ | ⟨hcheck, hnew, b, next, hb, hw⟩
    · rw [hw]
      exact fun h => by cases h
    · exact hw none
    · rw [hw]
      cases next with
      | none => exact fun h => by cases h
      | some a' =>
        refine ih ?_ (fun x hx => ?_) ?_
        · rw [List.map_append]
          exact List.nodup_append'.mpr ⟨hnodup, List.nodup_singleton a, by simpa using hnew⟩
        · rw [List.map_append, List.mem_append] at hx
          rcases hx with hx | hx
          · exact hseen x hx
          · rw [List.mem_singleton.mp hx]
            exact hnames a hcheck
        · rw [List.length_append, List.length_singleton]
          omega

/-- A name that leads to a cycle is refused, with the names from it to the one it comes back to. -/
theorem walk_of_cyclic (h : (checked check read).Cyclic a)
    (hends : walk check read cyclic fuel [] a ≠ .ok none) :
    ∃ names x, x ∈ names ∧ (names ++ [x]).IsChain (checked check read).LeadsTo ∧
      (names ++ [x]).head? = some a ∧
      walk check read cyclic fuel [] a = .err (cyclic (names ++ [x])) := by
  have hno : ∀ o, walk check read cyclic fuel [] a ≠ .ok o := by
    rintro (- | all) ho
    · exact hends ho
    · obtain ⟨levels, -, hc⟩ := chain_of_walk ho
      exact hc.not_cyclic h
  rcases walk_fails hno with hcyc | ⟨x, hreach, hx⟩
  · simpa using hcyc
  · obtain ⟨a', ⟨b, hb⟩, -⟩ := (h.of_reach hreach).next
    exact absurd hb (hx _)

end Links

end Boot2Deb.Lib
