import Mathlib.Data.List.Forall2
import Mathlib.Data.List.Infix

/-! The globs of the index of the peels' facts, which match by pieces. Strings are their bytes. -/
namespace Zester.Facts

abbrev Bytes := List (Fin 256)

abbrev star : Fin 256 := 42
abbrev question : Fin 256 := 63

/-- From the places that the two loops have come to, at the rest of the pattern and of the
string. -/
def globMatchRec : (pattern str : Bytes) → Bool
  | [], str => str = []
  | p :: pattern, [] => (p :: pattern).all (· = star)
  | p :: pattern, c :: str =>
    if p = star then
      let rest := pattern.dropWhile (· = star)
      if rest = [] then true else (c :: str).tails.any fun str => globMatchRec rest str
    else if p = question then globMatchRec pattern str
    else if p ≠ c then false
    else globMatchRec pattern str
termination_by pattern => pattern.length
decreasing_by
  · exact Nat.lt_succ_of_le (List.dropWhile_suffix _).length_le
  · exact Nat.lt_succ_self _
  · exact Nat.lt_succ_self _

def globMatch (pattern str : Bytes) : Bool := globMatchRec pattern str

open List

/-- What a byte of a pattern stands for. A star and a question mark stand for themselves, too. -/
def Piece (p : Fin 256) (piece : Bytes) : Prop :=
  p = star ∨ p = question ∧ piece.length = 1 ∨ piece = [p]

def Matches (pattern str : Bytes) : Prop :=
  ∃ pieces, Forall₂ Piece pattern pieces ∧ pieces.flatten = str

theorem matches_nil : Matches [] str ↔ str = [] := by
  simp [Matches, eq_comm]

theorem matches_cons :
    Matches (p :: pattern) str ↔ ∃ piece rest, Piece p piece ∧ Matches pattern rest ∧
      piece ++ rest = str := by
  constructor
  · rintro ⟨_, (_ | ⟨here, rest⟩), rfl⟩
    exact ⟨_, _, here, ⟨_, rest, rfl⟩, rfl⟩
  · rintro ⟨piece, _, here, ⟨pieces, rest, rfl⟩, rfl⟩
    exact ⟨piece :: pieces, .cons here rest, rfl⟩

theorem matches_star :
    Matches (star :: pattern) str ↔ ∃ rest, rest <:+ str ∧ Matches pattern rest := by
  rw [matches_cons]
  constructor
  · rintro ⟨piece, rest, -, found, whole⟩
    exact ⟨rest, ⟨piece, whole⟩, found⟩
  · rintro ⟨rest, ⟨piece, whole⟩, found⟩
    exact ⟨piece, rest, .inl rfl, found, whole⟩

/-- Stars one after the other match as one. -/
theorem matches_stars :
    Matches (star :: pattern) str ↔ ∃ rest, rest <:+ str ∧
      Matches (pattern.dropWhile (· = star)) rest := by
  induction pattern generalizing str with
  | nil => exact matches_star
  | cons p pattern ih =>
    rw [matches_star]
    by_cases isStar : p = star
    · subst isStar
      rw [dropWhile_cons_of_pos (by rfl)]
      simp only [ih]
      constructor
      · rintro ⟨_, outer, rest, inner, found⟩
        exact ⟨rest, inner.trans outer, found⟩
      · rintro ⟨rest, inner, found⟩
        exact ⟨str, suffix_rfl, rest, inner, found⟩
    · rw [dropWhile_cons_of_neg (by simpa using isStar)]

theorem matches_byte (other : p ≠ star) :
    Matches (p :: pattern) str ↔ ∃ c rest, (p = question ∨ p = c) ∧ Matches pattern rest ∧
      str = c :: rest := by
  rw [matches_cons]
  constructor
  · rintro ⟨piece, rest, here, found, rfl⟩
    obtain ⟨any, single⟩ | rfl := here.resolve_left other
    · obtain ⟨c, rfl⟩ := length_eq_one_iff.mp single
      exact ⟨c, rest, .inl any, found, rfl⟩
    · exact ⟨p, rest, .inr rfl, found, rfl⟩
  · rintro ⟨c, rest, fits, found, rfl⟩
    exact ⟨[c], rest, .inr (fits.imp (⟨·, rfl⟩) fun same => by rw [same]), found, rfl⟩

theorem matches_empty : Matches pattern [] ↔ ∀ p ∈ pattern, p = star := by
  induction pattern with
  | nil => simp [matches_nil]
  | cons p pattern ih =>
    rw [forall_mem_cons, ← ih]
    by_cases isStar : p = star
    · simp [isStar, matches_star]
    · simp [isStar, matches_byte isStar]

/-- The string is cut into pieces that fit the bytes of the pattern. -/
theorem globMatch_iff (pattern str : Bytes) :
    globMatch pattern str = true ↔ ∃ pieces, Forall₂ Piece pattern pieces ∧
      pieces.flatten = str := by
  change globMatchRec pattern str = true ↔ Matches pattern str
  fun_induction globMatchRec pattern str with
  | case1 str => simp [matches_nil]
  | case2 p pattern => simp [matches_empty]
  | case3 pattern c str rest nothing =>
    exact iff_of_true rfl (matches_stars.mpr
      ⟨[], nil_suffix, by rw [show pattern.dropWhile _ = [] from nothing, matches_nil]⟩)
  | case4 pattern c str rest some ih =>
    simp only [any_eq_true, mem_tails, ih]
    exact matches_stars.symm
  | case5 pattern c str other ih => simp [matches_byte other, ih]
  | case6 p pattern c str noStar noQuestion differs =>
    simp [matches_byte noStar, noQuestion, Ne.symm differs]
  | case7 p pattern c str noStar noQuestion same ih =>
    obtain rfl : p = c := not_not.mp same
    simp [matches_byte noStar, ih]

end Zester.Facts
