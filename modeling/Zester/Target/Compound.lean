import Zester.Lib.BoolGrammar
import Zester.Target.Matcher

/-! Compound target expressions: the tokenizer, the recursive-descent parser and the trees that
it builds, and the resolution of an expression of any type. -/
namespace Zester.Target

def isParen (c : Char) : Bool := c = '(' || c = ')'

/-- The token that was collected, if there is one. -/
def flush (current : List Char) : List String :=
  let s := trimSpace current
  if s = [] then [] else [String.ofList s]

def tokenizeFrom (current : List Char) : List Char → List String
  | [] => flush current
  | ch :: runes =>
    if isParen ch then flush current ++ String.singleton ch :: tokenizeFrom [] runes
    else if ch = ' ' || ch = '\t' then flush current ++ tokenizeFrom [] runes
    else tokenizeFrom (current ++ [ch]) runes

def tokenize (expr : String) : List String := tokenizeFrom [] expr.toList

/-- `strings.EqualFold` with an operator. None of its letters folds to any but the other case. -/
def isOperator (token operator : String) : Bool := toLower token = operator.toList

def tokenKind (token : String) : TokenKind :=
  if token = "(" then .opening
  else if token = ")" then .closing
  else if isOperator token "and" then .and
  else if isOperator token "or" then .or
  else if isOperator token "not" then .not
  else .word

abbrev Node := BoolTree Matcher

inductive ParseFailure where
  | message (text : String)
  /-- The bound on the calls was too low, which `parseCompound` excludes. -/
  | calls
  deriving DecidableEq, Repr

abbrev Parsed := Except ParseFailure (Node × List String)

def newTokenMatcher (lib : Library) (tok : String) : Except String Matcher :=
  if hasPrefix tok "G@" || hasPrefix tok "I@" then newFactMatcher tok
  else if hasPrefix tok "E@" then newPCREMatcher lib tok
  else if hasPrefix tok "L@" then newListMatcher tok
  else newGlobMatcher tok

def parseMatcher (lib : Library) : List String → Parsed
  | [] => .error (.message "expected matcher expression")
  | tok :: tokens =>
    match newTokenMatcher lib tok with
    | .error text => .error (.message text)
    | .ok m => .ok (.leaf m, tokens)

/-- The next token is the operator. -/
def atOperator (tokens : List String) (operator : String) : Bool :=
  tokens.head?.any fun token => isOperator token operator

mutual

/-- The tokens that are left stand for the position of the parser. -/
def parseOr (lib : Library) : Nat → List String → Parsed
  | 0, _ => .error .calls
  | calls + 1, tokens => do
    let (left, tokens) ← parseAnd lib calls tokens
    loopOr lib calls left tokens

def loopOr (lib : Library) : Nat → Node → List String → Parsed
  | 0, _, _ => .error .calls
  | calls + 1, left, tokens =>
    if atOperator tokens "or" then do
      let (right, tokens) ← parseAnd lib calls tokens.tail
      loopOr lib calls (.or left right) tokens
    else .ok (left, tokens)

def parseAnd (lib : Library) : Nat → List String → Parsed
  | 0, _ => .error .calls
  | calls + 1, tokens => do
    let (left, tokens) ← parseNot lib calls tokens
    loopAnd lib calls left tokens

def loopAnd (lib : Library) : Nat → Node → List String → Parsed
  | 0, _, _ => .error .calls
  | calls + 1, left, tokens =>
    if atOperator tokens "and" then do
      let (right, tokens) ← parseNot lib calls tokens.tail
      loopAnd lib calls (.and left right) tokens
    else .ok (left, tokens)

def parseNot (lib : Library) : Nat → List String → Parsed
  | 0, _ => .error .calls
  | calls + 1, tokens =>
    if atOperator tokens "not" then do
      let (child, tokens) ← parseNot lib calls tokens.tail
      return (.not child, tokens)
    else parsePrimary lib calls tokens

def parsePrimary (lib : Library) : Nat → List String → Parsed
  | 0, _ => .error .calls
  | calls + 1, tokens =>
    match tokens with
    | [] => .error (.message "unexpected end of expression")
    | tok :: rest =>
      if tok = "(" then do
        let (node, tokens) ← parseOr lib calls rest
        match tokens with
        | closing :: tokens =>
          if closing = ")" then return (node, tokens)
          else .error (.message "expected closing parenthesis")
        | [] => .error (.message "expected closing parenthesis")
      else parseMatcher lib tokens

end

structure CompoundMatcher where
  root : Node
  original : String

def parseCompound (lib : Library) (expr : String) : Except String CompoundMatcher :=
  let tokens := tokenize expr
  match parseOr lib (4 * tokens.length + 4) tokens with
  | .error (.message text) => .error ("target: parse compound " ++ expr.quote ++ ": " ++ text)
  | .error .calls => .error "out of calls"
  | .ok (node, []) => .ok ⟨node, expr⟩
  | .ok (_, token :: rest) =>
    .error ("target: unexpected token " ++ token.quote ++ " at position " ++
      toString (tokens.length - (rest.length + 1)) ++ " in " ++ expr.quote)

def CompoundMatcher.accepts (lib : Library) (m : CompoundMatcher) (peelID : String)
    (facts : Facts) : Bool := m.root.eval fun matcher => matcher.accepts lib peelID facts

inductive TargetType where
  | glob
  | pcre
  | fact
  | settings
  | compound
  | list
  deriving DecidableEq, Repr

def detectType (expr : String) : TargetType :=
  if hasPrefix expr "E@" then .pcre
  else if hasPrefix expr "G@" then .fact
  else if hasPrefix expr "I@" then .settings
  else if hasPrefix expr "L@" then .list
  else
    let lower := toLower expr
    if contains lower " and " || contains lower " or " || "not ".toList.isPrefixOf lower then
      .compound
    else .glob

/-- What `NewMatcher` returns for a type, as a test of a peel and its facts. -/
def newMatcher (lib : Library) (expr : String) (tt : TargetType) :
    Except String (String → Facts → Bool) :=
  match tt with
  | .glob => (newGlobMatcher expr).map fun m id facts => m.accepts lib id facts
  | .pcre => (newPCREMatcher lib expr).map fun m id facts => m.accepts lib id facts
  | .fact | .settings => (newFactMatcher expr).map fun m id facts => m.accepts lib id facts
  | .compound => (parseCompound lib expr).map fun m => m.accepts lib
  | .list => (newListMatcher expr).map fun m id facts => m.accepts lib id facts

def needsFacts : TargetType → Bool
  | .fact | .settings | .compound => true
  | .glob | .pcre | .list => false

/-- Where the peels and their facts come from. -/
inductive Lister where
  | plain (peels : Except String (List String)) (facts : String → Except String Facts)
  /-- One that can load all facts at once. -/
  | bulk (peels : Except String (List String)) (all : Except String (List (String × Facts)))
  /-- The resolve service, with the index of the master that answers, if one does. -/
  | service (index : Option (List (String × Facts))) (fallback : Lister)

def resolvePlain (accepts : String → Facts → Bool) (tt : TargetType) (peels : List String)
    (facts : String → Except String Facts) : List String :=
  peels.filter fun id =>
    if needsFacts tt then
      match facts id with
      | .error _ => false
      | .ok facts => accepts id facts
    else accepts id none

def resolveBulk (accepts : String → Facts → Bool) (all : List (String × Facts)) : List String :=
  (all.filter fun peel => accepts peel.1 peel.2).map Prod.fst

def resolve (lib : Library) (expr : String) (tt : TargetType) : Lister → Except String (List String)
  | .plain peels facts =>
    match newMatcher lib expr tt with
    | .error text => .error ("target: create matcher: " ++ text)
    | .ok accepts =>
      match peels with
      | .error text => .error ("target: list peels: " ++ text)
      | .ok peels => .ok (resolvePlain accepts tt peels facts)
  | .bulk peels all =>
    match newMatcher lib expr tt with
    | .error text => .error ("target: create matcher: " ++ text)
    | .ok accepts =>
      if needsFacts tt then
        match all with
        | .error text => .error ("target: bulk list peels: " ++ text)
        | .ok all => .ok (resolveBulk accepts all)
      else
        match peels with
        | .error text => .error ("target: list peels: " ++ text)
        | .ok peels => .ok (resolvePlain accepts tt peels fun _ => .ok none)
  | .service index fallback =>
    match index with
    | none => resolve lib expr tt fallback
    | some index =>
      -- the master resolves over its index; if it reports an error the fallback is used
      match newMatcher lib expr tt with
      | .error _ => resolve lib expr tt fallback
      | .ok accepts =>
        if needsFacts tt then .ok (resolveBulk accepts index)
        else .ok (resolvePlain accepts tt (index.map Prod.fst) fun _ => .ok none)

end Zester.Target
