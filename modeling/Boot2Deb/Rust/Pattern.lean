import Boot2Deb.Rust.Text

/-!
# Searching a string for another

`str::matches` and `str::replace` scan from the left and go on behind each match, so the matches do
not overlap. The pattern is not empty.
-/

namespace Boot2Deb.Rust

/-- What stands between the matches of a pattern, the next `skip` characters left out. -/
def piecesFrom (pat : Str) : ℕ → Str → List Str
  | _, [] => [[]]
  | skip + 1, _ :: s => piecesFrom pat skip s
  | 0, c :: s =>
    if pat <+: c :: s then [] :: piecesFrom pat (pat.length - 1) s
    else (piecesFrom pat 0 s).modifyHead (c :: ·)

/-- What stands between the matches of a pattern. -/
def pieces (pat s : Str) : List Str := piecesFrom pat 0 s

/-- `str::matches(pat).count()`. -/
def countMatches (s pat : Str) : ℕ := (pieces pat s).length - 1

/-- `str::replace`. -/
def replace (s pat new : Str) : Str := join new (pieces pat s)

variable {pat s : Str}

theorem piecesFrom_ne_nil (skip : ℕ) : piecesFrom pat skip s ≠ [] := by
  induction s generalizing skip with
  | nil => simp [piecesFrom]
  | cons c s ih =>
    cases skip with
    | zero =>
      rw [piecesFrom]
      split_ifs
      · simp
      · simpa using ih 0
    | succ skip => exact ih skip

theorem piecesFrom_eq (skip : ℕ) : piecesFrom pat skip s = piecesFrom pat 0 (s.drop skip) := by
  induction s generalizing skip with
  | nil => cases skip <;> rfl
  | cons c s ih =>
    cases skip with
    | zero => rfl
    | succ skip => exact ih skip

theorem join_cons (new piece : Str) {rest : List Str} (h : rest ≠ []) :
    join new (piece :: rest) = piece ++ new ++ join new rest := by
  obtain ⟨next, rest, rfl⟩ := List.exists_cons_of_ne_nil h
  simp [join, List.intercalate, List.intersperse]

theorem join_append (new : Str) {front back : List Str} (hf : front ≠ []) (hb : back ≠ []) :
    join new (front ++ back) = join new front ++ new ++ join new back := by
  induction front with
  | nil => exact absurd rfl hf
  | cons piece front ih =>
    rcases front with - | ⟨next, front⟩
    · rw [List.singleton_append, join_cons new piece hb]
      simp [join, List.intercalate]
    · rw [List.cons_append, join_cons new piece (by simp), ih (by simp),
        join_cons new piece (List.cons_ne_nil next front)]
      simp

theorem join_modifyHead (new : Str) (c : Char) {rest : List Str} (h : rest ≠ []) :
    join new (rest.modifyHead (c :: ·)) = c :: join new rest := by
  obtain ⟨piece, rest, rfl⟩ := List.exists_cons_of_ne_nil h
  cases rest with
  | nil => simp [join, List.intercalate]
  | cons next rest =>
    rw [List.modifyHead_cons, join_cons _ _ (List.cons_ne_nil _ _),
      join_cons _ _ (List.cons_ne_nil _ _), List.cons_append, List.cons_append]

/-- The pieces with the pattern between them are the string. -/
theorem join_pieces (hpat : pat ≠ []) (s : Str) : join pat (pieces pat s) = s := by
  obtain ⟨n, hn⟩ : ∃ n, s.length = n := ⟨_, rfl⟩
  induction n using Nat.strong_induction_on generalizing s with
  | _ n ih =>
    cases s with
    | nil => rfl
    | cons c s =>
      have hlen : s.length < n := by
        rw [← hn]
        exact Nat.lt_succ_self _
      rw [pieces, piecesFrom]
      split_ifs with hp
      · obtain ⟨rest, hrest⟩ := hp
        obtain ⟨d, pat', rfl⟩ := List.exists_cons_of_ne_nil hpat
        obtain ⟨rfl, rfl⟩ := List.cons.inj hrest
        rw [List.append_eq] at hlen ⊢
        have htail : (pat' ++ rest).drop ((d :: pat').length - 1) = rest := by simp
        rw [join_cons _ _ (piecesFrom_ne_nil _), piecesFrom_eq, htail]
        have hrec := ih rest.length (by simp at hlen; omega) rest rfl
        rw [pieces] at hrec
        rw [hrec]
        rfl
      · rw [join_modifyHead _ _ (piecesFrom_ne_nil _)]
        exact congrArg (c :: ·) (ih s.length hlen s rfl)

/-- A string with a match holds the pattern. -/
theorem infix_of_countMatches (hpat : pat ≠ []) (h : 1 ≤ countMatches s pat) : pat <:+: s := by
  rw [countMatches] at h
  obtain ⟨piece, rest, hsplit⟩ := List.exists_cons_of_ne_nil (@piecesFrom_ne_nil pat s 0)
  have hrest : rest ≠ [] := by
    rintro rfl
    rw [pieces, hsplit] at h
    simp at h
  have hjoin := join_pieces hpat s
  rw [pieces, hsplit, join_cons _ _ hrest] at hjoin
  exact ⟨piece, join pat rest, hjoin⟩

/-- A text without the separator goes behind the last piece. -/
theorem splitOn_append_of_not_mem {sep : Char} (s : Str) {t : Str} (ht : sep ∉ t) :
    ∃ init last, s.splitOn sep = init ++ [last] ∧ (s ++ t).splitOn sep = init ++ [last ++ t] := by
  induction s with
  | nil => exact ⟨[], [], rfl, List.splitOn_eq_singleton ht⟩
  | cons d s ih =>
    obtain ⟨init, last, hs, hst⟩ := ih
    rw [List.cons_append, List.splitOn_cons_eq_if_modifyHead, List.splitOn_cons_eq_if_modifyHead,
      hs, hst]
    split_ifs
    · exact ⟨[] :: init, last, rfl, rfl⟩
    · rcases init with - | ⟨first, init⟩
      · exact ⟨[], d :: last, rfl, rfl⟩
      · exact ⟨(d :: first) :: init, last, rfl, rfl⟩

end Boot2Deb.Rust
