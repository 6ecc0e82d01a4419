import Mathlib.Data.List.Forall2

/-! Subjects of a message bus: texts of tokens between dots. In a pattern, `*` stands
for one token and `>` at the end for one token or more. -/
namespace Subject
open List

abbrev Token := List Char

def tokens (subject : String) : List Token := subject.toList.splitOn '.'

/-- The pattern matches the subject, token by token. -/
def covers : List Token → List Token → Bool
  | [], [] => true
  | [['>']], _ :: _ => true
  | token :: pattern, other :: subject =>
    (token = ['*'] || token = other) && covers pattern subject
  | _, _ => false

def isMatch (pattern subject : String) : Bool := covers (tokens pattern) (tokens subject)

/-- The pattern differs from the stem at a token that both fix. -/
def clashes : List Token → List Token → Bool
  | token :: pattern, other :: stem =>
    token ≠ ['>'] && ((token ≠ ['*'] && token ≠ other) || clashes pattern stem)
  | _, _ => false

theorem tokens_append (dot : front.toList.getLast? = some '.') (back : String) :
    tokens (front ++ back) = (tokens front).dropLast ++ tokens back := by
  obtain ⟨init, split⟩ := getLast?_eq_some_iff.mp dot
  have cut : ∀ rest, (init ++ '.' :: rest).splitOn '.' = init.splitOn '.' ++ rest.splitOn '.' :=
    fun rest => splitOnP_append_cons (p := (· == '.')) init rest (by rfl)
  simp [tokens, split, cut]

theorem tokens_append_dot (front back : String) :
    tokens (front ++ "." ++ back) = tokens front ++ tokens back := by
  have cut : (front.toList ++ '.' :: back.toList).splitOn '.' =
      front.toList.splitOn '.' ++ back.toList.splitOn '.' :=
    splitOnP_append_cons (p := (· == '.')) front.toList back.toList (by rfl)
  simpa [tokens] using cut

theorem tokens_ne_nil (subject : String) : tokens subject ≠ [] :=
  splitOn_ne_nil _ _

theorem tokens_of_dotless (dotless : '.' ∉ token.toList) : tokens token = [token.toList] := by
  simpa [tokens] using splitOn_eq_singleton dotless

theorem covers_cons (fixed : token ≠ ['>']) : covers (token :: pattern) (other :: subject) =
      ((token = ['*'] || token = other) && covers pattern subject) := by
  rw [covers]
  rintro rfl
  simp at fixed

/-- A pattern without `>` matches token by token. -/
theorem covers_iff (fixed : ['>'] ∉ pattern) : covers pattern subject = true ↔
    Forall₂ (fun token other => token = ['*'] ∨ token = other) pattern subject := by
  induction pattern generalizing subject with
  | nil => cases subject <;> simp [covers]
  | cons token pattern ih =>
    simp only [mem_cons, not_or] at fixed
    cases subject with
    | nil => cases pattern <;> simp [covers]
    | cons other subject => simp [covers_cons (Ne.symm fixed.1), ih fixed.2]

/-- A pattern that clashes with a stem matches nothing that starts with it. -/
theorem covers_of_clashes (clash : clashes pattern stem = true) (rest : List Token) :
    covers pattern (stem ++ rest) = false := by
  induction pattern generalizing stem with
  | nil => simp [clashes] at clash
  | cons token pattern ih =>
    cases stem with
    | nil => simp [clashes] at clash
    | cons other stem =>
      simp only [clashes, ne_eq, Bool.and_eq_true, decide_eq_true_eq, Bool.or_eq_true] at clash
      obtain ⟨fixed, ⟨notAny, differs⟩ | later⟩ := clash
      · simp [covers_cons fixed, notAny, differs]
      · simp [covers_cons fixed, ih later]

theorem clashes_append (clash : clashes pattern stem = true) (more : List Token) :
    clashes (pattern ++ more) stem = true := by
  induction pattern generalizing stem with
  | nil => simp [clashes] at clash
  | cons token pattern ih =>
    cases stem with
    | nil => simp [clashes] at clash
    | cons other stem =>
      simp only [cons_append, clashes, Bool.and_eq_true, Bool.or_eq_true] at clash ⊢
      exact ⟨clash.1, clash.2.imp_right ih⟩

theorem clashes_after (plain : ∀ token ∈ pattern, token ≠ ['>']) (notMany : token ≠ ['>'])
    (notAny : token ≠ ['*']) (differs : token ≠ other) :
    clashes (pattern ++ [token]) (pattern ++ [other]) = true := by
  induction pattern with
  | nil => simp [clashes, notMany, notAny, differs]
  | cons head pattern ih =>
    simp only [cons_append, clashes, Bool.and_eq_true, Bool.or_eq_true]
    exact ⟨by simpa using plain head (by simp),
      .inr (ih fun t member => plain t (by simp [member]))⟩

theorem last_of_covers (fixed : ['>'] ∉ pattern) (notMany : token ≠ ['>']) (notAny : token ≠ ['*'])
    (match_ : covers (pattern ++ [token]) (subject ++ [other]) = true) : token = other := by
  induction pattern generalizing subject with
  | nil =>
    cases subject with
    | nil =>
      rw [nil_append, nil_append, covers_cons notMany] at match_
      simpa [notAny, covers] using match_
    | cons first subject =>
      rw [nil_append, cons_append, covers_cons notMany] at match_
      simp [covers] at match_
  | cons head pattern ih =>
    simp only [mem_cons, not_or] at fixed
    cases subject with
    | nil =>
      rw [cons_append, nil_append, covers_cons (Ne.symm fixed.1)] at match_
      cases pattern <;> simp [covers] at match_
    | cons first subject =>
      rw [cons_append, cons_append, covers_cons (Ne.symm fixed.1)] at match_
      exact ih fixed.2 (by simpa using (Bool.and_eq_true_iff.mp match_).2)

end Subject
