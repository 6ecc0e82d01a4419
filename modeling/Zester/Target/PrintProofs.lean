import Zester.Lib.BoolPrinting
import Zester.Target.CompoundProofs

/-! Compound expressions mean what they say: a tree that is printed and parsed back has its own
value. -/
namespace Zester.Target
open BoolGrammar List

/-- What may stand for a matcher: no white space, no parenthesis, and no operator. -/
structure PlainToken (tok : String) : Prop where
  nonempty : tok ≠ ""
  solid : ∀ c ∈ tok.toList, isSpace c = false ∧ isParen c = false
  word : tokenKind tok = .word

/-- An expression where one of the level is expected, with the parentheses that the precedence asks
for. -/
def render : Level → BoolTree String → String
  | _, .leaf tok => tok
  | _, .not tree => "not " ++ render .not tree
  | .not, .and left right => "(" ++ (render .and left ++ " and " ++ render .and right) ++ ")"
  | _, .and left right => render .and left ++ " and " ++ render .and right
  | .or, .or left right => render .or left ++ " or " ++ render .or right
  | _, .or left right => "(" ++ (render .or left ++ " or " ++ render .or right) ++ ")"

def marks : anyWord.Marks where
  opening := "("
  closing := ")"
  conj := "and"
  disj := "or"
  neg := "not"
  opens := by decide
  closes := by decide
  conjoins := by decide
  disjoins := by decide
  negates := by decide

theorem tokenizeFrom_append (front : List Char) (current : List Char)
    (ends : isParen sep = true ∨ sep = ' ') (back : List Char) :
    tokenizeFrom current (front ++ sep :: back) =
      tokenizeFrom current front ++ (if isParen sep then [String.singleton sep] else []) ++
        tokenizeFrom [] back := by
  induction front generalizing current with
  | nil =>
    obtain paren | rfl := ends
    · simp [tokenizeFrom, paren]
    · simp [tokenizeFrom, show isParen ' ' = false from by decide]
  | cons c front ih =>
    rw [cons_append, tokenizeFrom, tokenizeFrom]
    split
    · simp [ih]
    · split
      · simp [ih]
      · exact ih _

theorem tokenize_space (front back : String) :
    tokenize (front ++ " " ++ back) = tokenize front ++ tokenize back := by
  have split := tokenizeFrom_append front.toList [] (.inr rfl : isParen ' ' = true ∨ _) back.toList
  simpa [tokenize, show isParen ' ' = false from by decide] using split

theorem tokenize_group (inner : String) :
    tokenize ("(" ++ inner ++ ")") = "(" :: (tokenize inner ++ [")"]) := by
  have closing := tokenizeFrom_append inner.toList [] (.inl (by decide) : isParen ')' = true ∨ _) []
  have opening :=
    tokenizeFrom_append [] [] (.inl (by decide) : isParen '(' = true ∨ _) (inner.toList ++ [')'])
  rw [nil_append, closing] at opening
  have whole : ("(" ++ inner ++ ")").toList = '(' :: (inner.toList ++ [')']) := by simp
  rw [tokenize, whole, opening]
  simp [tokenizeFrom, flush, trimSpace, isParen, tokenize]

theorem trimSpace_of_solid (solid : ∀ c ∈ s, isSpace c = false) : trimSpace s = s := by
  have same : ∀ s : Text, (∀ c ∈ s, isSpace c = false) → s.dropWhile isSpace = s := by
    intro s solid
    exact dropWhile_of_head fun c head => solid c (mem_of_head? head)
  rw [trimSpace, same s solid, same s.reverse (by simpa using solid), reverse_reverse]

theorem tokenizeFrom_solid (solid : ∀ c ∈ s, isSpace c = false ∧ isParen c = false) :
    tokenizeFrom current s = flush (current ++ s) := by
  induction s generalizing current with
  | nil => simp [tokenizeFrom]
  | cons c s ih =>
    obtain ⟨⟨visible, plain⟩, rest⟩ := forall_mem_cons.mp solid
    have letter : ¬ (c = ' ' ∨ c = '\t') := by
      rintro (rfl | rfl)
      · exact absurd visible (by decide)
      · exact absurd visible (by decide)
    rw [tokenizeFrom, if_neg (by simp [plain]), if_neg (by simpa using letter), ih rest,
      append_assoc, singleton_append]

theorem tokenize_plain (plain : PlainToken tok) : tokenize tok = [tok] := by
  rw [tokenize, tokenizeFrom_solid plain.solid, nil_append, flush,
    trimSpace_of_solid fun c inside => (plain.solid c inside).1]
  simp [plain.nonempty]

theorem tokenize_render (tree : BoolTree String) (plain : ∀ tok ∈ tree.leaves, PlainToken tok)
    (level : Level) : tokenize (render level tree) = marks.print level tree := by
  induction tree generalizing level with
  | leaf tok =>
    rw [render, Marks.print]
    exact tokenize_plain (plain tok (mem_singleton_self tok))
  | not tree ih =>
    rw [render, Marks.print, ← ih plain]
    exact tokenize_space "not" (render .not tree)
  | and left right ihl ihr =>
    obtain ⟨first, second⟩ := forall_mem_append.mp plain
    have joined : tokenize (render .and left ++ " and " ++ render .and right) =
        marks.print .and left ++ "and" :: marks.print .and right := by
      rw [← ihl first, ← ihr second,
        show (" and " : String) = " " ++ ("and" ++ " ") from rfl, ← String.append_assoc,
        String.append_assoc, tokenize_space, tokenize_space]
      rfl
    cases level with
    | not => exact (tokenize_group _).trans (congrArg (fun ts => "(" :: (ts ++ [")"])) joined)
    | and | or => exact joined
  | or left right ihl ihr =>
    obtain ⟨first, second⟩ := forall_mem_append.mp plain
    have joined : tokenize (render .or left ++ " or " ++ render .or right) =
        marks.print .or left ++ "or" :: marks.print .or right := by
      rw [← ihl first, ← ihr second,
        show (" or " : String) = " " ++ ("or" ++ " ") from rfl, ← String.append_assoc,
        String.append_assoc, tokenize_space, tokenize_space]
      rfl
    cases level with
    | not | and => exact (tokenize_group _).trans (congrArg (fun ts => "(" :: (ts ++ [")"])) joined)
    | or => exact joined

section
variable (lib : Library)

/-- What the matcher of a token says of a peel. -/
def verdict (tok peelID : String) (facts : Facts) : Bool :=
  match newTokenMatcher lib tok with
  | .ok m => m.accepts lib peelID facts
  | .error _ => false

/-- For every expression tree over matcher tokens: the printed expression is parsed, and the verdict
on every peel is the value of the tree under the verdicts of its leaves. -/
theorem compound_means_tree (tree : BoolTree String) (plain : ∀ tok ∈ tree.leaves, PlainToken tok)
    (matchers : ∀ tok ∈ tree.leaves, ∃ m, newTokenMatcher lib tok = .ok m) :
    ∃ m, parseCompound lib (render .or tree) = .ok m ∧
      ∀ peelID facts, m.accepts lib peelID facts = tree.eval fun tok =>
        verdict lib tok peelID facts := by
  have operands : ∀ tok ∈ tree.leaves, anyWord.operand tok = true := by
    intro tok inside
    simp [anyWord, (plain tok inside).word]
  obtain ⟨read, derives, agrees⟩ := marks.print_derives tree operands .or
  obtain ⟨root, built⟩ := BoolTree.exists_build.mpr (agrees.leaves ▸ matchers)
  refine ⟨⟨root, render .or tree⟩, parseCompound_eq_ok.mpr ⟨rfl, read, ?_, built⟩,
    fun peelID facts => ?_⟩
  · rw [tokenize_render tree plain]
    exact derives
  · rw [← agrees.eval]
    refine BoolTree.eval_build built _ _ fun tok m made => ?_
    simp only [verdict, made]

theorem compound_means_tree_web :
    ∃ m, parseCompound plainLibrary "(web* or db1) and not G@os:linux" = .ok m ∧
      ∀ peelID facts, m.accepts plainLibrary peelID facts =
        ((verdict plainLibrary "web*" peelID facts || verdict plainLibrary "db1" peelID facts) &&
          !verdict plainLibrary "G@os:linux" peelID facts) := by
  refine compound_means_tree plainLibrary
    (.and (.or (.leaf "web*") (.leaf "db1")) (.not (.leaf "G@os:linux"))) ?_ ?_
  · simp only [BoolTree.leaves, cons_append, nil_append, forall_mem_cons]
    refine ⟨?_, ?_, ?_, by simp⟩ <;>
      exact ⟨by decide, all_iff_forall_prop.mp (by decide), by decide⟩
  · simp only [BoolTree.leaves, cons_append, nil_append, forall_mem_cons]
    exact ⟨⟨_, rfl⟩, ⟨_, rfl⟩, ⟨_, rfl⟩, by simp⟩

end
end Zester.Target
