import Mathlib.Data.List.Infix
import Zester.Target.ResolveProofs

/-! The basket function of templates: it reads the basket data of the peels that a query selects,
narrowed by the configured scope. A query is put between parentheses as text, and can close them
itself: then what it says before an `or` stands outside of the scope. -/
namespace Zester.Target

structure BasketResult where
  peelID : String
  value : Value

/-- Where the basket function reads. -/
structure BasketSource where
  /-- The facts bucket: its keys, and all of its entries. -/
  keys : Except String (List String)
  facts : Except String (List (String × Facts))
  /-- With a bus, the resolve service is asked first, which has an index if a master answers. -/
  service : Option (Option (List (String × Facts)))
  /-- The basket bucket, if it can be opened, and what can be read from it. -/
  basket : Option (String → Option Value)

def BasketSource.lister (source : BasketSource) : Lister :=
  match source.service with
  | none => .bulk source.keys source.facts
  | some index => .service index (.bulk source.keys source.facts)

def scopedTarget (tgt scope : String) : String :=
  if scope ≠ "" then "(" ++ tgt ++ ") and (" ++ scope ++ ")" else tgt

def makeBasketFunc (lib : Library) (source : BasketSource) (scope tgt function : String) :
    List BasketResult :=
  let tgt := scopedTarget tgt scope
  match resolve lib tgt (detectType tgt) source.lister with
  | .error _ => []
  | .ok peels =>
    match source.basket with
    | none => []
    | some get => peels.filterMap fun peelID =>
        (get (peelID ++ "." ++ function)).map fun val => ⟨peelID, val⟩

open BoolGrammar BoolTree List

theorem tokenizeFrom_paren (paren : Char) (is : isParen paren = true)
    (current runes rest : List Char) : tokenizeFrom current (runes ++ paren :: rest) =
      tokenizeFrom current runes ++ String.singleton paren :: tokenizeFrom [] rest := by
  induction runes generalizing current with
  | nil => simp [tokenizeFrom, is]
  | cons ch runes ih =>
    simp only [cons_append, tokenizeFrom, ih]
    split
    · simp
    · split <;> simp

/-- The tokens of a query between its parentheses. -/
def enclosed (tgt : String) : List String := "(" :: (tokenize tgt ++ [")"])

theorem tokenize_scopedTarget (narrows : scope ≠ "") :
    tokenize (scopedTarget tgt scope) = enclosed tgt ++ "and" :: enclosed scope := by
  have text : (scopedTarget tgt scope).toList =
      [] ++ '(' :: (tgt.toList ++ ')' :: (" and ".toList ++ '(' :: (scope.toList ++ [')']))) := by
    simp [scopedTarget, narrows]
  have join : tokenizeFrom [] " and ".toList = ["and"] := by decide
  have empty : tokenizeFrom [] [] = [] := rfl
  have closing : String.singleton ')' = ")" := rfl
  have opening : String.singleton '(' = "(" := rfl
  have opens := tokenizeFrom_paren '(' rfl
  have closes := tokenizeFrom_paren ')' rfl
  rw [tokenize, text, opens, closes, opens, closes, join, empty, opening, closing]
  simp [enclosed, tokenize]

theorem contains_iff : contains s part = true ↔ part.toList <:+: s := by
  simp only [contains, any_eq_true, mem_tails, isPrefixOf_iff_prefix, infix_iff_prefix_suffix]
  exact exists_congr fun _ => and_comm

theorem detectType_scopedTarget (narrows : scope ≠ "") :
    detectType (scopedTarget tgt scope) = .compound := by
  refine detectType_eq_compound.mpr ⟨?_, ?_⟩
  · have lower : toLower (scopedTarget tgt scope) =
        (('(' :: tgt.toList).map Char.toLower ++ [')']) ++ " and ".toList ++
          ('(' :: (scope.toList.map Char.toLower ++ [')'])) := by
      simp [scopedTarget, narrows, toLower]
    have joined : contains (toLower (scopedTarget tgt scope)) " and " = true :=
      contains_iff.mpr ⟨_, _, lower.symm⟩
    simp [readsCompound, joined]
  · have first : ∃ rest, (scopedTarget tgt scope).toList = '(' :: rest := by
      simp [scopedTarget, narrows]
    obtain ⟨rest, text⟩ := first
    simp only [isMarked, hasPrefix, text]
    rfl

section
variable {tgt : String}

theorem enclosed_derives (derives : anyWord.Derives .or (tokenize tgt) tree) :
    anyWord.Derives .not (enclosed tgt) tree :=
  .group ((tokenKind_opening _).mpr rfl) derives ((tokenKind_closing _).mpr rfl)

/-- In front of a scope, a query between parentheses is an expression of its own. -/
theorem enclosed_derives_of_joined
    (derives : anyWord.Derives .or (enclosed tgt ++ "and" :: enclosed scope) tree)
    (narrows : anyWord.Derives .or (tokenize scope) nested) :
    ∃ query, anyWord.Derives .or (enclosed tgt) query := by
  have scanned := derives.scan 0 []
  rw [scan_append] at scanned
  obtain ⟨⟨expects, depth, operands⟩, first, second⟩ := Option.bind_eq_some_iff.mp scanned
  obtain rfl : expects = false := by
    have shape : enclosed tgt = ("(" :: tokenize tgt) ++ [")"] := rfl
    rw [shape, scan_append] at first
    obtain ⟨before, -, last⟩ := Option.bind_eq_some_iff.mp first
    rw [scan_cons] at last
    obtain ⟨after, step, same⟩ := Option.bind_eq_some_iff.mp last
    cases same
    exact expects_of_closing ((tokenKind_closing _).mpr rfl) step
  have joins : anyWord.kind "and" = .and := by decide
  have step : anyWord.scanToken ⟨false, depth, operands⟩ "and" = some ⟨true, depth, operands⟩ := by
    simp [scanToken, joins]
  rw [scan_cons, step, Option.bind_some, (enclosed_derives narrows).scan] at second
  simp only [Option.some.injEq, Scan.mk.injEq, true_and] at second
  obtain ⟨rfl, -⟩ := second
  exact derives_of_scan first

/-- What a query says before an `or` that stands outside of its parentheses. -/
def Escapes (lib : Library) (tgt : String) (left : Node) : Prop :=
  ∃ ls o rs l r right, enclosed tgt = ls ++ o :: rs ∧ tokenKind o = .or ∧
    anyWord.Derives .or ls l ∧ anyWord.Derives .and rs r ∧
    l.build (newTokenMatcher lib) = .ok left ∧ r.build (newTokenMatcher lib) = .ok right

theorem and_derives (derives : anyWord.Derives .and ts query)
    (narrows : anyWord.Derives .or (tokenize scope) nested) :
    anyWord.Derives .and (ts ++ "and" :: enclosed scope) (.and query nested) :=
  .and derives (by decide) (enclosed_derives narrows)

section
variable (parses : parseCompound lib scope = .ok s)
include parses

theorem scope_ne_empty : scope ≠ "" := by
  rintro rfl
  exact not_parseCompound_empty s parses

/-- The scope is the right side of the whole matcher, or of the part after an `or`. -/
theorem root_of_scoped (parsed : parseCompound lib (scopedTarget tgt scope) = .ok m) :
    (∃ query, m.root = .and query s.root) ∨
      ∃ left right, m.root = .or left (.and right s.root) ∧ Escapes lib tgt left := by
  obtain ⟨-, inner, narrows, -⟩ := parseCompound_eq_ok.mp parses
  obtain ⟨-, tree, derives, -⟩ := parseCompound_eq_ok.mp parsed
  have tokens : tokenize (scopedTarget tgt scope) = enclosed tgt ++ "and" :: enclosed scope :=
    tokenize_scopedTarget (scope_ne_empty parses)
  obtain ⟨query, derives⟩ := enclosed_derives_of_joined (tokens ▸ derives) narrows
  have scopeBuilt := build_of_parseCompound parses narrows
  generalize opened : enclosed tgt = ts at derives tokens
  cases derives with
  | ofAnd derives =>
    have whole := Derives.ofAnd (and_derives derives narrows)
    rw [← tokens] at whole
    obtain ⟨left, right, -, rightBuilt, shape⟩ :=
      build_and.mp (build_of_parseCompound parsed whole)
    cases scopeBuilt.symm.trans rightBuilt
    exact .inl ⟨left, shape⟩
  | @or ls rs o l r first joins second =>
    have whole := first.or joins (and_derives second narrows)
    rw [← cons_append, ← append_assoc, ← tokens] at whole
    obtain ⟨left, both, leftBuilt, bothBuilt, shape⟩ :=
      build_or.mp (build_of_parseCompound parsed whole)
    obtain ⟨right, right', rightBuilt, rightBuilt', rfl⟩ := build_and.mp bothBuilt
    cases scopeBuilt.symm.trans rightBuilt'
    exact .inr ⟨left, right, shape, ls, o, rs, l, r, right, opened, joins, first, second, leftBuilt,
      rightBuilt⟩

theorem scoped_of_escapes (escapes : Escapes lib tgt left) :
    ∃ right, parseCompound lib (scopedTarget tgt scope) =
      .ok ⟨.or left (.and right s.root), scopedTarget tgt scope⟩ := by
  obtain ⟨ls, o, rs, l, r, right, opened, joins, first, second, leftBuilt, rightBuilt⟩ := escapes
  obtain ⟨-, inner, narrows, scopeBuilt⟩ := parseCompound_eq_ok.mp parses
  refine ⟨right, parseCompound_eq_ok.mpr ⟨rfl, .or l (.and r inner), ?_, ?_⟩⟩
  · rw [tokenize_scopedTarget (scope_ne_empty parses), opened, append_assoc, cons_append]
    exact first.or joins (and_derives second narrows)
  · exact build_or.mpr ⟨_, _, leftBuilt,
      build_and.mpr ⟨_, _, rightBuilt, scopeBuilt, rfl⟩, rfl⟩

end

theorem not_escapes_of_derives (derives : anyWord.Derives .or (tokenize tgt) query) (left : Node) :
    ¬ Escapes lib tgt left := by
  rintro ⟨ls, o, rs, l, r, right, opened, joins, first, -⟩
  cases ls with
  | nil => exact absurd (derives_ne_nil first) (Nat.lt_irrefl 0)
  | cons opening ls =>
    simp only [enclosed, cons_append, cons.injEq] at opened
    obtain ⟨rfl, opened⟩ := opened
    obtain ⟨rest, inside⟩ : ∃ rest, tokenize tgt = ls ++ rest := by
      obtain ⟨beyond, same, last⟩ | ⟨rest, same, -⟩ := append_eq_append_iff.mp opened
      · obtain rfl : beyond = [] := by
          cases beyond with
          | nil => rfl
          | cons t beyond => simp at last
        exact ⟨[], by simpa using same.symm⟩
      · exact ⟨rest, same⟩
    have whole := derives.scan 0 []
    rw [inside, scan_append] at whole
    obtain ⟨mid, scanned, -⟩ := Option.bind_eq_some_iff.mp whole
    have opens : anyWord.scanToken ⟨true, 0, []⟩ "(" = some ⟨true, 1, []⟩ := by decide
    have closed := first.scan 0 []
    rw [scan_cons, opens, Option.bind_some, scan_deeper scanned 1] at closed
    simp at closed

end

section
variable {lib : Library}

/-- The peel is listed with these facts. -/
def BasketSource.Knows (source : BasketSource) (id : String) (facts : Facts) : Prop :=
  ∃ entries, source.lister.load = .ok entries ∧ (id, facts) ∈ entries

/-- The basket has this value of the function for the peel. -/
def BasketSource.Holds (source : BasketSource) (function id : String) (value : Value) : Prop :=
  ∃ get, source.basket = some get ∧ get (id ++ "." ++ function) = some value

theorem mem_makeBasketFunc (narrows : scope ≠ "") :
    result ∈ makeBasketFunc lib source scope tgt function ↔
      ∃ m facts, parseCompound lib (scopedTarget tgt scope) = .ok m ∧
        source.Knows result.peelID facts ∧ m.accepts lib result.peelID facts = true ∧
        source.Holds function result.peelID result.value := by
  simp only [makeBasketFunc, detectType_scopedTarget narrows]
  constructor
  · intro member
    cases resolved : resolve lib (scopedTarget tgt scope) .compound source.lister with
    | error text => simp [resolved] at member
    | ok peels =>
      cases opened : source.basket with
      | none => simp [resolved, opened] at member
      | some get =>
        simp only [resolved, opened, mem_filterMap, Option.map_eq_some_iff] at member
        obtain ⟨peelID, selected, value, read, rfl⟩ := member
        obtain ⟨accepts, entries, made, loaded, rfl⟩ := (resolve_eq_ok rfl).mp resolved
        obtain ⟨m, parsed, rfl⟩ := newMatcher_eq_ok.mp made
        obtain ⟨facts, listed, accepted⟩ := mem_resolveBulk.mp selected
        exact ⟨m, facts, parsed, ⟨entries, loaded, listed⟩, accepted, get, opened, read⟩
  · rintro ⟨m, facts, parsed, ⟨entries, loaded, listed⟩, accepted, get, opened, read⟩
    have resolved := resolve_of_load (newMatcher_eq_ok.mpr ⟨m, parsed, rfl⟩) rfl loaded
    simp only [resolved, opened, mem_filterMap, Option.map_eq_some_iff]
    exact ⟨result.peelID, mem_resolveBulk.mpr ⟨facts, listed, accepted⟩, result.value, read, rfl⟩

/-- The peel is listed with facts that the scope accepts. -/
def InScope (lib : Library) (source : BasketSource) (s : CompoundMatcher) (id : String) : Prop :=
  ∃ facts, source.Knows id facts ∧ s.accepts lib id facts = true

theorem in_scope_of_kept (parses : parseCompound lib scope = .ok s)
    (kept : ∀ left, Escapes lib tgt left → ∀ id facts value, source.Knows id facts →
      source.Holds function id value →
      (left.eval fun matcher => matcher.accepts lib id facts) = true → InScope lib source s id) :
    ∀ result ∈ makeBasketFunc lib source scope tgt function,
      InScope lib source s result.peelID := by
  intro result member
  obtain ⟨m, facts, parsed, known, accepted, held⟩ :=
    (mem_makeBasketFunc (scope_ne_empty parses)).mp member
  obtain ⟨query, shape⟩ | ⟨left, right, shape, escapes⟩ := root_of_scoped parses parsed
  · simp only [CompoundMatcher.accepts, shape, eval, Bool.and_eq_true] at accepted
    exact ⟨facts, known, accepted.2⟩
  simp only [CompoundMatcher.accepts, shape, eval, Bool.or_eq_true,
    Bool.and_eq_true] at accepted
  obtain outside | ⟨-, inside⟩ := accepted
  · exact kept left escapes _ _ _ known held outside
  · exact ⟨facts, known, inside⟩

/-- Basket queries stay in scope, unless a part of the query that stands before an `or` outside
of its parentheses accepts a peel with basket data that the scope does not accept. -/
theorem basket_in_scope_iff (lib : Library) (source : BasketSource) (scope tgt function : String)
    (s : CompoundMatcher) (parses : parseCompound lib scope = .ok s) :
    (∀ result ∈ makeBasketFunc lib source scope tgt function, InScope lib source s result.peelID) ↔
      ∀ left, Escapes lib tgt left → ∀ id facts value, source.Knows id facts →
        source.Holds function id value →
        (left.eval fun matcher => matcher.accepts lib id facts) = true →
        InScope lib source s id := by
  refine ⟨?_, in_scope_of_kept parses⟩
  intro stays left escapes id facts value known held accepted
  obtain ⟨right, parsed⟩ := scoped_of_escapes parses escapes
  refine stays ⟨id, value⟩ ((mem_makeBasketFunc (scope_ne_empty parses)).mpr
    ⟨_, facts, parsed, known, ?_, held⟩)
  simp [CompoundMatcher.accepts, eval, accepted]

def twoClusters : BasketSource where
  keys := .ok ["web1", "web2"]
  facts := .ok [("web1", some [("cluster", .str "a")]), ("web2", some [("cluster", .str "b")])]
  service := none
  basket := some fun key =>
    [("web1.ip", Value.str "10.1.0.1"), ("web2.ip", Value.str "10.2.0.1")].lookup key

theorem basket_in_scope_of_glob : ∃ s, parseCompound plainLibrary "G@cluster:a" = .ok s ∧
    ∀ result ∈ makeBasketFunc plainLibrary twoClusters "G@cluster:a" "web*" "ip",
      InScope plainLibrary twoClusters s result.peelID := by
  have good : ((parseCompound plainLibrary "G@cluster:a").toOption.any fun _ => true) = true := by
    decide +kernel
  obtain ⟨s, parses, -⟩ := exists_of_any good
  have derives : anyWord.Derives .or (tokenize "web*") (.leaf "web*") :=
    .ofAnd (.ofNot (.leaf (by decide)))
  refine ⟨s, parses, (basket_in_scope_iff plainLibrary twoClusters "G@cluster:a" "web*" "ip" s
    parses).mpr ?_⟩
  exact fun left escapes => absurd escapes (not_escapes_of_derives derives left)

theorem query_escapes_scope : ∃ s, parseCompound plainLibrary "G@cluster:a" = .ok s ∧
    (makeBasketFunc plainLibrary twoClusters "G@cluster:a" "web*) or (db*" "ip").map
      BasketResult.peelID = ["web1", "web2"] ∧ ¬ InScope plainLibrary twoClusters s "web2" := by
  have computed : ((parseCompound plainLibrary "G@cluster:a").toOption.any fun s =>
        !s.accepts plainLibrary "web2" (some [("cluster", .str "b")])) = true ∧
      (makeBasketFunc plainLibrary twoClusters "G@cluster:a" "web*) or (db*" "ip").map
        BasketResult.peelID = ["web1", "web2"] := by decide +kernel
  obtain ⟨good, returned⟩ := computed
  obtain ⟨s, parses, rejects⟩ := exists_of_any good
  refine ⟨s, parses, returned, ?_⟩
  rintro ⟨facts, ⟨entries, loaded, listed⟩, accepted⟩
  cases loaded
  simp only [mem_cons, Prod.mk.injEq, not_mem_nil, or_false] at listed
  obtain ⟨same, -⟩ | ⟨-, rfl⟩ := listed
  · exact absurd same (by decide)
  · simp [accepted] at rejects

end
end Zester.Target
