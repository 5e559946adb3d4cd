import Mathlib.Tactic

/-!
# Positional numerals

`ofMsd b ds` is the number whose digits in base `b`, most significant first, are `ds`. Two numerals
compare by their significant digits: the longer is the larger, and numerals of one length compare
lexicographically.
-/

namespace Boot2Deb
/-- The number with the base-`b` digits `ds`, most significant first. -/
def ofMsd (b : Nat) (ds : List Nat) : Nat := ds.foldl (fun n d => b * n + d) 0

/-- The digits behind the leading zeroes. -/
def significant (ds : List Nat) : List Nat := ds.dropWhile (· == 0)

section
variable {b : Nat} {as bs ds : List Nat}

theorem foldl_msd (b acc : Nat) (ds : List Nat) :
    ds.foldl (fun n d => b * n + d) acc = acc * b ^ ds.length + ofMsd b ds := by
  induction ds generalizing acc with
  | nil => simp [ofMsd]
  | cons d ds ih =>
    rw [ofMsd, List.foldl_cons, List.foldl_cons, ih, ih (b * 0 + d), List.length_cons]
    ring

@[simp] theorem ofMsd_nil : ofMsd b [] = 0 := rfl

theorem ofMsd_cons (d : Nat) : ofMsd b (d :: ds) = d * b ^ ds.length + ofMsd b ds := by
  rw [ofMsd, List.foldl_cons, foldl_msd]
  simp

theorem ofMsd_append_singleton (d : Nat) : ofMsd b (ds ++ [d]) = b * ofMsd b ds + d := by
  simp [ofMsd]

theorem ofMsd_significant (ds : List Nat) : ofMsd b (significant ds) = ofMsd b ds := by
  induction ds with
  | nil => rfl
  | cons d ds ih =>
    rcases Nat.eq_zero_or_pos d with rfl | hd
    · simpa [significant, ofMsd_cons] using ih
    · simp [significant, Nat.pos_iff_ne_zero.mp hd]

theorem ofMsd_lt (h : ∀ d ∈ ds, d < b) : ofMsd b ds < b ^ ds.length := by
  induction ds with
  | nil => simp
  | cons d ds ih =>
    obtain ⟨hd, hds⟩ := List.forall_mem_cons.mp h
    calc ofMsd b (d :: ds) = d * b ^ ds.length + ofMsd b ds := ofMsd_cons d
      _ < d * b ^ ds.length + b ^ ds.length := Nat.add_lt_add_left (ih hds) _
      _ = (d + 1) * b ^ ds.length := by ring
      _ ≤ b * b ^ ds.length := Nat.mul_le_mul_right _ hd
      _ = b ^ (d :: ds).length := by rw [List.length_cons, pow_succ']

/-- Numerals of one length compare lexicographically. -/
theorem compare_ofMsd_of_length_eq (hlen : as.length = bs.length) (ha : ∀ d ∈ as, d < b)
    (hb : ∀ d ∈ bs, d < b) : compare (ofMsd b as) (ofMsd b bs) = compare as bs := by
  induction as generalizing bs with
  | nil => rw [List.length_eq_zero_iff.mp hlen.symm]; rfl
  | cons a as ih =>
    cases bs with
    | nil => simp at hlen
    | cons c bs =>
      obtain ⟨-, has⟩ := List.forall_mem_cons.mp ha
      obtain ⟨-, hbs⟩ := List.forall_mem_cons.mp hb
      have hlen' : as.length = bs.length := Nat.succ.inj hlen
      have hlta := ofMsd_lt has
      have hltb := ofMsd_lt hbs
      rw [List.compare_cons_cons, ofMsd_cons, ofMsd_cons, ← hlen']
      rw [← hlen'] at hltb
      -- the leading digit outweighs all that follows it
      rcases Nat.lt_trichotomy a c with hac | rfl | hac
      · have : (a + 1) * b ^ as.length ≤ c * b ^ as.length := Nat.mul_le_mul_right _ hac
        rw [Nat.add_mul, Nat.one_mul] at this
        rw [Nat.compare_eq_lt.mpr hac, Ordering.lt_then, Nat.compare_eq_lt]
        omega
      · rw [Nat.compare_eq_eq.mpr rfl, Ordering.eq_then, ← ih hlen' has hbs]
        rcases Nat.lt_trichotomy (ofMsd b as) (ofMsd b bs) with h | h | h
        · rw [Nat.compare_eq_lt.mpr h, Nat.compare_eq_lt]; omega
        · rw [h, Nat.compare_eq_eq.mpr rfl, Nat.compare_eq_eq.mpr rfl]
        · rw [Nat.compare_eq_gt.mpr h, Nat.compare_eq_gt]; omega
      · have : (c + 1) * b ^ as.length ≤ a * b ^ as.length := Nat.mul_le_mul_right _ hac
        rw [Nat.add_mul, Nat.one_mul] at this
        rw [Nat.compare_eq_gt.mpr hac, Ordering.gt_then, Nat.compare_eq_gt]
        omega

/-- A numeral with more significant digits is the larger. -/
theorem ofMsd_lt_of_length_lt (hb : 0 < b) (ha : ∀ d ∈ as, d < b)
    (hlt : as.length < (significant bs).length) : ofMsd b as < ofMsd b bs := by
  rw [← ofMsd_significant bs]
  cases hs : significant bs with
  | nil => simp [hs] at hlt
  | cons c cs =>
    have hc : c ≠ 0 := by
      have := List.head?_dropWhile_not (· == 0) bs
      rw [← significant, hs] at this
      simpa using this
    have hlen : as.length ≤ cs.length := by
      rw [hs, List.length_cons] at hlt
      omega
    calc ofMsd b as < b ^ as.length := ofMsd_lt ha
      _ ≤ b ^ cs.length := Nat.pow_le_pow_right hb hlen
      _ ≤ c * b ^ cs.length := Nat.le_mul_of_pos_left _ (Nat.pos_of_ne_zero hc)
      _ ≤ ofMsd b (c :: cs) := by rw [ofMsd_cons]; exact Nat.le_add_right _ _

theorem forall_mem_significant {P : Nat → Prop} (h : ∀ d ∈ ds, P d) : ∀ d ∈ significant ds, P d :=
  fun d hd => h d ((List.dropWhile_sublist _).subset hd)

/-- Numerals compare by the number of their significant digits, then by these digits in order. -/
theorem compare_ofMsd (hb : 0 < b) (has : ∀ d ∈ as, d < b) (hbs : ∀ d ∈ bs, d < b) :
    compare (ofMsd b as) (ofMsd b bs) =
      (compare (significant as).length (significant bs).length).then
        (compare (significant as) (significant bs)) := by
  have has' := forall_mem_significant has
  have hbs' := forall_mem_significant hbs
  rw [← ofMsd_significant as, ← ofMsd_significant bs]
  rcases Nat.lt_trichotomy (significant as).length (significant bs).length with h | h | h
  · rw [Nat.compare_eq_lt.mpr h, Ordering.lt_then, Nat.compare_eq_lt, ofMsd_significant bs]
    exact ofMsd_lt_of_length_lt hb has' h
  · rw [h, Nat.compare_eq_eq.mpr rfl, Ordering.eq_then, compare_ofMsd_of_length_eq h has' hbs']
  · rw [Nat.compare_eq_gt.mpr h, Ordering.gt_then, Nat.compare_eq_gt, ofMsd_significant as]
    exact ofMsd_lt_of_length_lt hb hbs' h

end

end Boot2Deb
