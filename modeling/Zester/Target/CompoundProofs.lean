import Zester.Target.Compound
import Zester.Target.GlobProofs

/-! The parser of compound expressions and its grammar. The parser takes any token but `(` and
`not` for a matcher where one is expected, also the other operators and `)`. -/
namespace Zester.Target
open BoolTree BoolGrammar List

theorem isOperator_iff (t : String) : (isOperator t "and" = true ↔ tokenKind t = .and) ∧
    (isOperator t "or" = true ↔ tokenKind t = .or) ∧
    (isOperator t "not" = true ↔ tokenKind t = .not) := by
  by_cases opening : t = "("
  · subst opening
    decide
  by_cases closing : t = ")"
  · subst closing
    decide
  simp only [tokenKind, isOperator, decide_eq_true_eq, opening, closing, if_false]
  generalize andText : "and".toList = a
  generalize orText : "or".toList = o
  generalize notText : "not".toList = n
  have distinct : a ≠ o ∧ a ≠ n ∧ o ≠ n := by
    subst andText orText notText
    decide
  by_cases and : toLower t = a
  · simp [and, distinct]
  by_cases or : toLower t = o
  · simp [or, distinct, distinct.1.symm]
  by_cases not : toLower t = n
  · simp [not, distinct.2.1.symm, distinct.2.2.symm]
  · simp [and, or, not]

theorem tokenKind_opening (t : String) : tokenKind t = .opening ↔ t = "(" := by
  unfold tokenKind
  repeat' split
  all_goals simp_all

theorem tokenKind_closing (t : String) : tokenKind t = .closing ↔ t = ")" := by
  unfold tokenKind
  repeat' split
  all_goals simp_all

/-- What the parser reads: every token but `(` and `not` may be a matcher. -/
def anyWord : BoolGrammar String where
  kind := tokenKind
  operand t := tokenKind t != .opening && tokenKind t != .not
  proper t operand := by simpa using operand

/-- The grammar of the documentation: a matcher is no operator and no parenthesis. -/
def documented : BoolGrammar String where
  kind := tokenKind
  operand t := tokenKind t = .word
  proper t operand := by
    simp only [decide_eq_true_eq] at operand
    simp [operand]

theorem atOperator_and : atOperator (t :: ts) "and" = true ↔ tokenKind t = .and :=
  (isOperator_iff t).1

theorem atOperator_or : atOperator (t :: ts) "or" = true ↔ tokenKind t = .or :=
  (isOperator_iff t).2.1

theorem atOperator_not : atOperator (t :: ts) "not" = true ↔ tokenKind t = .not :=
  (isOperator_iff t).2.2

theorem not_atOperator_paren (paren : t = "(" ∨ t = ")") : atOperator (t :: ts) "and" = false ∧
    atOperator (t :: ts) "or" = false ∧ atOperator (t :: ts) "not" = false := by
  have plain : isOperator t "and" = false ∧ isOperator t "or" = false ∧
      isOperator t "not" = false := by
    obtain rfl | rfl := paren <;> decide
  exact plain

theorem derives_ne_nil {g : BoolGrammar String} (derives : g.Derives level ts tree) :
    0 < ts.length := by
  induction derives with
  | ofNot inner ih | ofAnd inner ih => exact ih
  | _ => simp

/-- What the functions of the parser do with an expression at the head of the tokens: the
parts of a chain leave the rest of the chain to its loop. -/
def Runs (lib : Library) (level : Level) (used : List String) (node : Node) : Prop :=
  match level with
  | .not => ∀ rest calls, 4 * used.length ≤ calls →
      parseNot lib calls (used ++ rest) = .ok (node, rest)
  | .and => ∀ rest calls, 4 * used.length + 1 ≤ calls → ∃ left, calls ≤ left + used.length ∧
      parseAnd lib calls (used ++ rest) = loopAnd lib left node rest
  | .or => ∀ rest calls, atOperator rest "and" = false → 4 * used.length + 2 ≤ calls →
      ∃ left, calls ≤ left + used.length ∧
        parseOr lib calls (used ++ rest) = loopOr lib left node rest

theorem loopAnd_stop (enough : 0 < calls) (stops : atOperator rest "and" = false) :
    loopAnd lib calls left rest = .ok (left, rest) := by
  cases calls with
  | zero => cases enough
  | succ calls => simp [loopAnd, stops]

theorem loopOr_stop (enough : 0 < calls) (stops : atOperator rest "or" = false) :
    loopOr lib calls left rest = .ok (left, rest) := by
  cases calls with
  | zero => cases enough
  | succ calls => simp [loopOr, stops]

theorem runs_of_derives (derives : anyWord.Derives level used tree)
    (built : tree.build (newTokenMatcher lib) = .ok node) : Runs lib level used node := by
  induction derives generalizing node with
  | @leaf t operand =>
    intro rest calls enough
    obtain ⟨m, made, rfl⟩ := build_leaf.mp built
    obtain ⟨opening, negation⟩ := anyWord.proper t operand
    have plain : atOperator (t :: rest) "not" = false := by
      rw [Bool.eq_false_iff]
      exact fun same => negation (atOperator_not.mp same)
    obtain ⟨calls, rfl⟩ : ∃ c, calls = c + 2 := ⟨calls - 2, by simp at enough; omega⟩
    have word : t ≠ "(" := fun same => opening ((tokenKind_opening t).mpr same)
    simp [parseNot, plain, parsePrimary, word, parseMatcher, made]
  | @group o c ts tree opens inner closes ih =>
    intro rest calls enough
    obtain rfl := (tokenKind_opening o).mp opens
    obtain rfl := (tokenKind_closing c).mp closes
    simp only [length_cons, length_append, length_nil] at enough
    obtain ⟨calls, rfl⟩ : ∃ n, calls = n + 2 := ⟨calls - 2, by omega⟩
    obtain ⟨left, calls', parsed⟩ :=
      ih built (")" :: rest) calls (not_atOperator_paren (.inr rfl)).1 (by omega)
    have stops : loopOr lib left node (")" :: rest) = .ok (node, ")" :: rest) :=
      loopOr_stop (by omega) (not_atOperator_paren (.inr rfl)).2.1
    have plain : atOperator ("(" :: (ts ++ ")" :: rest)) "not" = false :=
      (not_atOperator_paren (.inl rfl)).2.2
    simp [parseNot, plain, parsePrimary, parsed, stops, bind, Except.bind, pure, Except.pure]
  | @not n ts tree negates inner ih =>
    intro rest calls enough
    obtain ⟨child, made, rfl⟩ := build_not.mp built
    simp only [length_cons] at enough
    obtain ⟨calls, rfl⟩ : ∃ c, calls = c + 1 := ⟨calls - 1, by omega⟩
    have here : atOperator (n :: (ts ++ rest)) "not" = true := atOperator_not.mpr negates
    have parsed := ih made rest calls (by omega)
    simp [parseNot, here, parsed, bind, Except.bind, pure, Except.pure]
  | @ofNot ts tree inner ih =>
    intro rest calls enough
    have some := derives_ne_nil inner
    obtain ⟨calls, rfl⟩ : ∃ c, calls = c + 1 := ⟨calls - 1, by omega⟩
    refine ⟨calls, by omega, ?_⟩
    simp [parseAnd, ih built rest calls (by omega), bind, Except.bind]
  | @and ls rs a left right first joins second ihl ihr =>
    intro rest calls enough
    obtain ⟨l, r, madel, mader, rfl⟩ := build_and.mp built
    simp only [length_append, length_cons] at enough ⊢
    obtain ⟨left', calls', parsed⟩ := ihl madel (a :: (rs ++ rest)) calls (by omega)
    obtain ⟨left', rfl⟩ : ∃ c, left' = c + 1 := ⟨left' - 1, by omega⟩
    refine ⟨left', by omega, ?_⟩
    have here : atOperator (a :: (rs ++ rest)) "and" = true := atOperator_and.mpr joins
    simp [parsed, loopAnd, here, ihr mader rest left' (by omega), bind, Except.bind]
  | @ofAnd ts tree inner ih =>
    intro rest calls stops enough
    have some := derives_ne_nil inner
    obtain ⟨calls, rfl⟩ : ∃ c, calls = c + 1 := ⟨calls - 1, by omega⟩
    obtain ⟨left, bound, parsed⟩ := ih built rest calls (by omega)
    refine ⟨calls, by omega, ?_⟩
    simp [parseOr, parsed, loopAnd_stop (by omega : 0 < left) stops, bind, Except.bind]
  | @or ls rs o left right first joins second ihl ihr =>
    intro rest calls stops enough
    obtain ⟨l, r, madel, mader, rfl⟩ := build_or.mp built
    simp only [length_append, length_cons] at enough ⊢
    have plain : atOperator (o :: (rs ++ rest)) "and" = false := by
      rw [Bool.eq_false_iff]
      intro same
      cases joins.symm.trans (atOperator_and.mp same)
    obtain ⟨left', calls', parsed⟩ := ihl madel (o :: (rs ++ rest)) calls plain (by omega)
    obtain ⟨left', rfl⟩ : ∃ c, left' = c + 1 := ⟨left' - 1, by omega⟩
    obtain ⟨last, bound, parsed'⟩ := ihr mader rest left' (by omega)
    refine ⟨left', by omega, ?_⟩
    have here : atOperator (o :: (rs ++ rest)) "or" = true := atOperator_or.mpr joins
    simp [parsed, loopOr, here, parsed', loopAnd_stop (by omega : 0 < last) stops, bind,
      Except.bind]

theorem exists_of_any {x : Except ε α} {p : α → Bool}
    (good : x.toOption.any p = true) : ∃ a, x = .ok a ∧ p a = true := by
  cases x with
  | error e => cases good
  | ok a => exact ⟨a, rfl, good⟩

/-- The tokens begin with an expression for the node, and this is what is left of them. -/
def Reads (lib : Library) (level : Level) (ts : List String) (node : Node)
    (rest : List String) : Prop :=
  ∃ used tree, ts = used ++ rest ∧ anyWord.Derives level used tree ∧
    tree.build (newTokenMatcher lib) = .ok node

/-- What a loop reads goes on from the expression before it. -/
def Continues (lib : Library) (level : Level) (left : Node) (ts : List String)
    (node : Node) (rest : List String) : Prop :=
  ∀ ls tree, anyWord.Derives level ls tree → tree.build (newTokenMatcher lib) = .ok left →
    ∃ used tree', ts = used ++ rest ∧ anyWord.Derives level (ls ++ used) tree' ∧
      tree'.build (newTokenMatcher lib) = .ok node

theorem Reads.length_le (reads : Reads lib level ts node rest) : rest.length ≤ ts.length := by
  obtain ⟨used, tree, rfl, -⟩ := reads
  simp

theorem Reads.continue {inner : Level}
    (lift : ∀ {ts : List String} {tree : BoolTree String}, anyWord.Derives inner ts tree →
      anyWord.Derives level ts tree)
    (reads : Reads lib inner ts left mid) (continues : Continues lib level left mid node rest) :
    Reads lib level ts node rest := by
  obtain ⟨used, tree, rfl, derives, built⟩ := reads
  obtain ⟨used', tree', rfl, derives', built'⟩ := continues used tree (lift derives) built
  exact ⟨used ++ used', tree', by simp, derives', built'⟩

/-- What a function of the parser returns has been read, and it returns if the calls are enough. -/
def Judged (read : Node → List String → Prop) (enough : Prop) : Parsed → Prop
  | .ok (node, rest) => read node rest
  | .error .calls => ¬ enough
  | .error (.message _) => True

namespace Judged
variable {read : Node → List String → Prop}

theorem imp (judged : Judged read enough x) (more : ∀ node rest, read node rest → read' node rest)
    (less : enough' → enough) : Judged read' enough' x :=
  match x with
  | .ok (node, rest) => more node rest judged
  | .error .calls => fun enough => judged (less enough)
  | .error (.message _) => trivial

theorem bind (first : Judged read enough x) (less : enough' → enough)
    (second : ∀ node rest, read node rest → Judged read' enough' (f (node, rest))) :
    Judged read' enough' (x >>= f) :=
  match x with
  | .ok (node, rest) => second node rest first
  | .error .calls => fun enough => first (less enough)
  | .error (.message _) => trivial

/-- A loop goes on with the operator of its level. -/
theorem loop {inner : Level} {join : Node → Node → Node}
    {parse : List String → Parsed} {loop : Node → List String → Parsed}
    (joins : ∀ {t ls rs l r}, isOperator t operator = true → anyWord.Derives level ls l →
      anyWord.Derives inner rs r →
      ∃ both, anyWord.Derives level (ls ++ t :: rs) both ∧
        ∀ left right, l.build (newTokenMatcher lib) = .ok left →
        r.build (newTokenMatcher lib) = .ok right →
          both.build (newTokenMatcher lib) = .ok (join left right))
    (few : n ≤ 4) (first : ∀ ts, Judged (Reads lib inner ts) (4 * ts.length + n ≤ calls) (parse ts))
    (rest : ∀ left ts, Judged (Continues lib level left ts) (4 * ts.length + 1 ≤ calls)
      (loop left ts)) (left : Node) (ts : List String) :
    Judged (Continues lib level left ts) (4 * ts.length + 1 ≤ calls + 1)
      (if atOperator ts operator then
      parse ts.tail >>= fun read => loop (join left read.1) read.2 else .ok (left, ts)) := by
  split
  · rename_i here
    cases ts with
    | nil => cases here
    | cons t ts =>
      refine (first ts).bind (by simp only [length_cons]; omega) fun right mid reads => ?_
      have shorter := reads.length_le
      refine (rest _ mid).imp (fun node rest continues ls tree derives built => ?_)
        (by simp only [length_cons]; omega)
      obtain ⟨used, tree', rfl, derives', built'⟩ := reads
      obtain ⟨both, derives, joined⟩ := joins here derives derives'
      obtain ⟨used', whole, rfl, derives, built⟩ :=
        continues _ both derives (joined _ _ built built')
      exact ⟨t :: used ++ used', whole, by simp, by simpa using derives, built⟩
  · exact fun ls tree derives built => ⟨[], tree, rfl, by simpa using derives, built⟩

end Judged

structure Sound (lib : Library) (calls : Nat) : Prop where
  or : ∀ ts, Judged (Reads lib .or ts) (4 * ts.length + 4 ≤ calls) (parseOr lib calls ts)
  loopOr : ∀ left ts, Judged (Continues lib .or left ts) (4 * ts.length + 1 ≤ calls)
    (loopOr lib calls left ts)
  and : ∀ ts, Judged (Reads lib .and ts) (4 * ts.length + 3 ≤ calls) (parseAnd lib calls ts)
  loopAnd : ∀ left ts, Judged (Continues lib .and left ts) (4 * ts.length + 1 ≤ calls)
    (loopAnd lib calls left ts)
  not : ∀ ts, Judged (Reads lib .not ts) (4 * ts.length + 2 ≤ calls) (parseNot lib calls ts)
  primary : ∀ ts, atOperator ts "not" = false →
    Judged (Reads lib .not ts) (4 * ts.length + 1 ≤ calls) (parsePrimary lib calls ts)

theorem sound (lib : Library) (calls : Nat) : Sound lib calls := by
  induction calls with
  | zero => constructor <;> intros <;> exact fun enough : _ ≤ 0 => by omega
  | succ calls ih =>
    constructor
    · intro ts
      refine (ih.and ts).bind (by omega) fun left mid reads => ?_
      have shorter := reads.length_le
      exact (ih.loopOr left mid).imp (fun _ _ => reads.continue .ofAnd) (by omega)
    · refine .loop (fun here derives derives' =>
        ⟨_, derives.or ((isOperator_iff _).2.1.mp here) derives', ?_⟩)
        (by omega : 3 ≤ 4) ih.and ih.loopOr
      exact fun left right built built' => build_or.mpr ⟨_, _, built, built', rfl⟩
    · intro ts
      refine (ih.not ts).bind (by omega) fun left mid reads => ?_
      have shorter := reads.length_le
      exact (ih.loopAnd left mid).imp (fun _ _ => reads.continue .ofNot) (by omega)
    · refine .loop (fun here derives derives' =>
        ⟨_, derives.and ((isOperator_iff _).1.mp here) derives', ?_⟩)
        (by omega : 2 ≤ 4) ih.not ih.loopAnd
      exact fun left right built built' => build_and.mpr ⟨_, _, built, built', rfl⟩
    · intro ts
      cases here : atOperator ts "not" with
      | false =>
        simp only [parseNot, here, Bool.false_eq_true, if_false]
        exact (ih.primary ts here).imp (fun _ _ reads => reads) (by omega)
      | true =>
        cases ts with
        | nil => cases here
        | cons n ts =>
          simp only [parseNot, here, if_true, tail_cons, length_cons]
          refine (ih.not ts).bind (by omega) fun child mid reads => ?_
          obtain ⟨used, tree, rfl, derives, built⟩ := reads
          exact ⟨n :: used, .not tree, rfl, .not (atOperator_not.mp here) derives,
            build_not.mpr ⟨_, built, rfl⟩⟩
    · intro ts plain
      cases ts with
      | nil => trivial
      | cons tok ts =>
        by_cases opening : tok = "("
        · subst opening
          simp only [parsePrimary, if_true, length_cons]
          refine (ih.or ts).bind (by omega) fun inner mid reads => ?_
          cases mid with
          | nil => trivial
          | cons closing mid =>
            by_cases closes : closing = ")"
            · subst closes
              obtain ⟨used, tree, rfl, derives, built⟩ := reads
              exact ⟨"(" :: (used ++ [")"]), tree, by simp,
                .group ((tokenKind_opening _).mpr rfl) derives
                  ((tokenKind_closing _).mpr rfl), built⟩
            · simp [closes, Judged]
        · simp only [parsePrimary, opening, if_false, parseMatcher]
          have operand : anyWord.operand tok = true := by
            have negation : tokenKind tok ≠ .not := by
              intro same
              cases plain.symm.trans (atOperator_not.mpr same)
            simpa [anyWord, tokenKind_opening, opening] using negation
          cases made : newTokenMatcher lib tok with
          | error text => trivial
          | ok m => exact ⟨[tok], .leaf tok, rfl, .leaf operand, build_leaf.mpr ⟨m, made, rfl⟩⟩

/-- The bound on the calls is never reached. -/
theorem parseCompound_ends (expr : String) :
    parseOr lib (4 * (tokenize expr).length + 4) (tokenize expr) ≠ .error .calls := by
  intro out
  have judged := (sound lib (4 * (tokenize expr).length + 4)).or (tokenize expr)
  rw [out] at judged
  exact judged (Nat.le_refl _)

/-- The parser accepts what its grammar derives, and builds the matchers of the leaves. -/
theorem parseCompound_eq_ok : parseCompound lib expr = .ok m ↔ m.original = expr ∧
      ∃ tree, anyWord.Derives .or (tokenize expr) tree ∧
        tree.build (newTokenMatcher lib) = .ok m.root := by
  unfold parseCompound
  constructor
  · intro parsed
    dsimp only at parsed
    have judged := (sound lib (4 * (tokenize expr).length + 4)).or (tokenize expr)
    cases result : parseOr lib (4 * (tokenize expr).length + 4) (tokenize expr) with
    | error failure =>
      rw [result] at parsed
      cases failure <;> cases parsed
    | ok read =>
      obtain ⟨node, rest⟩ := read
      rw [result] at parsed judged
      cases rest with
      | cons token rest => cases parsed
      | nil =>
        cases parsed
        obtain ⟨used, tree, same, derives, built⟩ := judged
        rw [append_nil] at same
        exact ⟨rfl, tree, same ▸ derives, built⟩
  · rintro ⟨rfl, tree, derives, built⟩
    obtain ⟨left, bound, parsed⟩ :=
      runs_of_derives derives built [] (4 * (tokenize m.original).length + 4)
      rfl (by omega)
    rw [append_nil, loopOr_stop (by omega) rfl] at parsed
    simp [parsed]

theorem build_of_parseCompound (parsed : parseCompound lib expr = .ok m)
    (derives : anyWord.Derives .or (tokenize expr) tree) :
    tree.build (newTokenMatcher lib) = .ok m.root := by
  obtain ⟨-, tree', derives', built'⟩ := parseCompound_eq_ok.mp parsed
  obtain ⟨root, built⟩ : ∃ root, tree.build (newTokenMatcher lib) = .ok root := by
    rw [exists_build, derives.leaves_eq derives']
    exact exists_build.mp ⟨_, built'⟩
  have again : parseCompound lib expr = .ok ⟨root, expr⟩ :=
    parseCompound_eq_ok.mpr ⟨rfl, tree, derives, built⟩
  cases parsed.symm.trans again
  exact built

theorem not_parseCompound_empty (m : CompoundMatcher) : parseCompound lib "" ≠ .ok m := by
  intro parsed
  obtain ⟨-, tree, derives, -⟩ := parseCompound_eq_ok.mp parsed
  exact absurd (derives_ne_nil derives) (Nat.lt_irrefl 0)

/-- The characters that mean something in a glob or mark the kind of a matcher. -/
def isSpecial (c : Char) : Bool := c ∈ ['[', ']', '\\', '*', '?', '@']

theorem isSpecial_eq_false (plain : isSpecial c = false) :
    c ≠ '[' ∧ c ≠ ']' ∧ c ≠ '\\' ∧ c ≠ '*' ∧ c ≠ '?' ∧ c ≠ '@' := by
  simpa [isSpecial] using plain

theorem not_hasPrefix_mark (plain : ∀ c ∈ tok.toList, isSpecial c = false) (kind : Char) :
    hasPrefix tok (String.ofList [kind, '@']) = false := by
  rw [Bool.eq_false_iff]
  intro starts
  have member : '@' ∈ tok.toList := by
    have sub := IsPrefix.subset ( isPrefixOf_iff_prefix.mp starts)
    exact sub (by simp)
  exact (isSpecial_eq_false (plain _ member)).2.2.2.2.2 rfl

theorem newTokenMatcher_plain (plain : ∀ c ∈ tok.toList, isSpecial c = false)
    (nonempty : tok ≠ "") : ∃ m, newTokenMatcher lib tok = .ok m := by
  have marks := not_hasPrefix_mark plain
  have none : hasPrefix tok "G@" = false ∧ hasPrefix tok "I@" = false ∧
      hasPrefix tok "E@" = false ∧ hasPrefix tok "L@" = false :=
    ⟨marks 'G', marks 'I', marks 'E', marks 'L'⟩
  obtain ⟨fact, settings, pcre, list⟩ := none
  have glob : Plain tok.toList := fun c member =>
    ⟨(isSpecial_eq_false (plain c member)).1, (isSpecial_eq_false (plain c member)).2.2.1⟩
  simp [newTokenMatcher, fact, settings, pcre, list, newGlobMatcher_plain glob nonempty]

theorem plain_of_lower {letters : List Char} (lower : c.toLower ∈ letters)
    (plain : ∀ letter ∈ letters, isSpecial letter = false) : isSpecial c = false := by
  rw [Bool.eq_false_iff]
  intro special
  have same : c.toLower = c := by
    simp only [isSpecial, mem_cons, not_mem_nil, or_false, decide_eq_true_eq] at special
    obtain rfl | rfl | rfl | rfl | rfl | rfl := special <;> rfl
  rw [same] at lower
  cases special.symm.trans (plain c lower)

theorem plain_of_operator (is : isOperator tok operator = true)
    (plain : ∀ letter ∈ operator.toList, isSpecial letter = false) :
    ∀ c ∈ tok.toList, isSpecial c = false := by
  intro c member
  refine plain_of_lower ?_ plain
  have same : toLower tok = operator.toList := of_decide_eq_true is
  rw [← same]
  exact mem_map_of_mem member

/-- The tokens that the parser takes for matchers though they are none do make matchers. -/
theorem newTokenMatcher_reserved (reads : anyWord.operand tok = true)
    (reserved : tokenKind tok ≠ .word) : ∃ m, newTokenMatcher lib tok = .ok m := by
  obtain ⟨opening, negation⟩ := anyWord.proper tok reads
  have nonempty : tok ≠ "" := by
    rintro rfl
    exact reserved (by decide)
  refine newTokenMatcher_plain ?_ nonempty
  cases kind : tokenKind tok with
  | word => exact absurd kind reserved
  | opening => exact absurd kind opening
  | not => exact absurd kind negation
  | closing =>
    obtain rfl := (tokenKind_closing tok).mp kind
    simp [isSpecial]
  | and => exact plain_of_operator ((isOperator_iff tok).1.mpr kind) (by simp [isSpecial])
  | or => exact plain_of_operator ((isOperator_iff tok).2.1.mpr kind) (by simp [isSpecial])

section
variable {lib : Library}

theorem documented_of_anyWord (derives : anyWord.Derives level ts tree)
    (words : ∀ leaf ∈ tree.leaves, tokenKind leaf = .word) : documented.Derives level ts tree :=
  derives.change rfl fun leaf member => decide_eq_true (words leaf member)

theorem word_of_documented (derives : documented.Derives level ts tree) :
    ∀ leaf ∈ tree.leaves, tokenKind leaf = .word :=
  fun leaf member => of_decide_eq_true (derives.operand_of_leaf leaf member)

theorem anyWord_of_documented (derives : documented.Derives level ts tree) :
    anyWord.Derives level ts tree := by
  refine derives.change rfl fun leaf member => ?_
  simp [anyWord, word_of_documented derives leaf member]

theorem parseCompound_of_derives
    (valid : ∀ t ∈ tokenize expr, tokenKind t = .word → ∃ m, newTokenMatcher lib t = .ok m)
    (derives : anyWord.Derives .or (tokenize expr) tree) : ∃ m, parseCompound lib expr = .ok m := by
  obtain ⟨root, built⟩ : ∃ root, tree.build (newTokenMatcher lib) = .ok root := by
    refine exists_build.mpr fun leaf member => ?_
    by_cases word : tokenKind leaf = .word
    · exact valid leaf (derives.leaves_subset member) word
    · exact newTokenMatcher_reserved (derives.operand_of_leaf leaf member) word
  exact ⟨⟨root, expr⟩, parseCompound_eq_ok.mpr ⟨rfl, tree, derives, built⟩⟩

/-- The parser accepts what the documentation says, unless the tokens make an expression in
which a `)`, an `and` or an `or` stands where a matcher is expected. -/
theorem parseCompound_accepts_documented_iff (lib : Library) (expr : String)
    (valid : ∀ t ∈ tokenize expr, tokenKind t = .word → ∃ m, newTokenMatcher lib t = .ok m) :
    ((∃ m, parseCompound lib expr = .ok m) ↔ ∃ tree, documented.Derives .or (tokenize expr) tree) ↔
    ∀ operands, anyWord.scan ⟨true, 0, []⟩ (tokenize expr) = some ⟨false, 0, operands⟩ →
      ∀ t ∈ operands, tokenKind t = .word := by
  constructor
  · intro same operands scanned
    obtain ⟨tree, derives⟩ := derives_of_scan scanned
    obtain ⟨tree', derives'⟩ := same.mp (parseCompound_of_derives valid derives)
    have leaves := ((anyWord_of_documented derives').scan 0 []).symm.trans scanned
    simp only [nil_append, Option.some.injEq, Scan.mk.injEq, true_and] at leaves
    exact leaves ▸ word_of_documented derives'
  · intro words
    constructor
    · rintro ⟨m, parsed⟩
      obtain ⟨-, tree, derives, -⟩ := parseCompound_eq_ok.mp parsed
      exact ⟨tree, documented_of_anyWord derives (words tree.leaves (derives.scan 0 []))⟩
    · rintro ⟨tree, derives⟩
      exact parseCompound_of_derives valid (anyWord_of_documented derives)

/-- The library for regular expressions of plain characters, texts in ASCII and natural
numbers. -/
def plainLibrary : Library where
  compile pattern := .ok fun s => contains s.toList pattern
  equalFold a b := toLower a = toLower b
  compareFloat a b := do return some (compare (← a.toNat?) (← b.toNat?))

theorem parseCompound_accepts_documented_query :
    (∃ m, parseCompound plainLibrary "web* and not (E@db or G@os:ubuntu)" = .ok m) ↔
      ∃ tree, documented.Derives .or (tokenize "web* and not (E@db or G@os:ubuntu)") tree := by
  have tokens : tokenize "web* and not (E@db or G@os:ubuntu)" =
      ["web*", "and", "not", "(", "E@db", "or", "G@os:ubuntu", ")"] := by decide
  refine (parseCompound_accepts_documented_iff plainLibrary _ ?_).mpr ?_
  · have good : ∀ t ∈ ["web*", "and", "not", "(", "E@db", "or", "G@os:ubuntu", ")"],
        tokenKind t = .word → ((newTokenMatcher plainLibrary t).toOption.any fun _ => true) =
            true := by
      decide
    intro t member word
    obtain ⟨m, made, -⟩ := exists_of_any (good t (tokens ▸ member) word)
    exact ⟨m, made⟩
  · have read : anyWord.scan
        ⟨true, 0, []⟩ ["web*", "and", "not", "(", "E@db", "or", "G@os:ubuntu", ")"] =
        some ⟨false, 0, ["web*", "E@db", "G@os:ubuntu"]⟩ := by decide
    rw [tokens]
    intro operands scanned
    cases read.symm.trans scanned
    decide

theorem operator_taken_for_matcher :
    (∀ t ∈ tokenize "web* and or", tokenKind t = .word →
      ∃ m, newTokenMatcher plainLibrary t = .ok m) ∧
    (∃ m, parseCompound plainLibrary "web* and or" = .ok m) ∧
    ¬ ∃ tree, documented.Derives .or (tokenize "web* and or") tree := by
  have tokens : tokenize "web* and or" = ["web*", "and", "or"] := by decide
  have valid : ∀ t ∈ tokenize "web* and or", tokenKind t = .word →
      ∃ m, newTokenMatcher plainLibrary t = .ok m := by
    have good : ∀ t ∈ ["web*", "and", "or"], tokenKind t = .word →
        ((newTokenMatcher plainLibrary t).toOption.any fun _ => true) = true := by decide
    intro t member word
    obtain ⟨m, made, -⟩ := exists_of_any (good t (tokens ▸ member) word)
    exact ⟨m, made⟩
  have glob : anyWord.operand "web*" = true ∧ anyWord.operand "or" = true := by decide
  have derives : anyWord.Derives .or (["web*"] ++ "and" :: ["or"])
      (.and (.leaf "web*") (.leaf "or")) :=
    .ofAnd (.and (.ofNot (.leaf glob.1)) (by decide) (.leaf glob.2))
  rw [singleton_append, ← tokens] at derives
  refine ⟨valid, parseCompound_of_derives valid derives, ?_⟩
  rintro ⟨tree, derives⟩
  have stuck : documented.scan ⟨true, 0, []⟩ ["web*", "and", "or"] = none := by decide
  cases stuck.symm.trans (tokens ▸ derives.scan 0 [])

end
end Zester.Target
