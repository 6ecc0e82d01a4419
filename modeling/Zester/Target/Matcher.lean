import Zester.Text
import Zester.Value

/-! The matchers of target expressions: globs and lists of peels, regular expressions, and
comparisons of facts. -/
namespace Zester.Target

/-- What is taken from the standard library as it is: regular expressions, the folding of
case, and floating point numbers. -/
structure Library where
  /-- `regexp.Compile` and `MatchString`. -/
  compile : String → Except String (String → Bool)
  equalFold : String → String → Bool
  /-- How two texts compare that `strconv.ParseFloat` reads, where both can be read; numbers
  that are not ordered compare to nothing. -/
  compareFloat : String → String → Option (Option Ordering)

/-- `scanChunk` behind the stars: the chunk up to the next star, and the rest. -/
def scanChunk (inrange : Bool) : List Char → List Char × List Char
  | [] => ([], [])
  | ['\\'] => (['\\'], [])
  | '\\' :: c :: rest =>
    let (chunk, rest) := scanChunk inrange rest
    ('\\' :: c :: chunk, rest)
  | c :: rest =>
    if c = '*' ∧ inrange = false then ([], c :: rest)
    else
      let (chunk, rest) :=
        scanChunk (if c = '[' then true else if c = ']' then false else inrange) rest
      (c :: chunk, rest)

/-- `getEsc`: a character of a class, possibly escaped; nothing for a bad pattern. -/
def getEsc : List Char → Option (Char × List Char)
  | [] | '-' :: _ | ']' :: _ | ['\\'] => none
  | '\\' :: c :: rest | c :: rest => if rest.isEmpty then none else some (c, rest)

/-- The ranges of a class up to its end: whether the character is in one of them, and the
rest of the chunk. -/
def matchClass (r : Option Char) : Nat → Bool → Bool → List Char → Option (Bool × List Char)
  | 0, _, _, _ => none
  | fuel + 1, matched, nonempty, chunk =>
    match chunk, nonempty with
    | ']' :: rest, true => some (matched, rest)
    | chunk, _ => do
      let (lo, rest) ← getEsc chunk
      let (hi, rest) ← match rest with
        | '-' :: rest => getEsc rest
        | rest => some (lo, rest)
      let here := r.any fun c => lo ≤ c && c ≤ hi
      matchClass r fuel (matched || here) true rest

/-- What is left of the name, or nothing once the match has failed. -/
abbrev Remaining := Option (List Char)

/-- `matchChunk`, where the whole pattern is read even after the match has failed; nothing for a
bad pattern. -/
def matchChunk : Nat → List Char → Remaining → Option Remaining
  | 0, _, _ => none
  | _ + 1, [], s => some s
  | fuel + 1, c :: chunk, s =>
    let s := if s = some [] then none else s
    if c = '[' then do
      let (negated, chunk) := match chunk with
        | '^' :: chunk => (true, chunk)
        | chunk => (false, chunk)
      let (matched, chunk) ← matchClass (s.bind List.head?) chunk.length false false chunk
      matchChunk fuel chunk (if matched == negated then none else s.map List.tail)
    else if c = '?' then
      matchChunk fuel chunk (s.bind fun s => if s.head? = some '/' then none else some s.tail)
    else
      match (if c = '\\' then chunk else c :: chunk) with
      | [] => none
      | c :: chunk => matchChunk fuel chunk (s.bind fun s =>
          if s.head? = some c then some s.tail else none)

def matchesChunk (chunk name : List Char) : Option Remaining :=
  matchChunk (chunk.length + 1) chunk (some name)

/-- A star skips characters up to the next separator. -/
def skipStar (chunk : List Char) (last : Bool) : List Char → Option Remaining
  | [] => some none
  | c :: name =>
    if c = '/' then some none
    else do
      match ← matchesChunk chunk name with
      | some rest => if last && !rest.isEmpty then skipStar chunk last name else return some rest
      | none => skipStar chunk last name

/-- The rest of a pattern is checked even where the name does not match. -/
def validChunks : Nat → List Char → Option Unit
  | 0, _ => none
  | _ + 1, [] => some ()
  | fuel + 1, pattern => do
    let (chunk, rest) := scanChunk false (pattern.dropWhile (· = '*'))
    let _ ← matchesChunk chunk []
    validChunks fuel rest

/-- `filepath.Match`; nothing for `ErrBadPattern`. -/
def matchPattern : Nat → List Char → List Char → Option Bool
  | 0, _, _ => none
  | _ + 1, [], name => some name.isEmpty
  | fuel + 1, pattern, name =>
    let star := pattern.head? = some '*'
    let (chunk, rest) := scanChunk false (pattern.dropWhile (· = '*'))
    if star ∧ chunk = [] then some (!name.contains '/')
    else do
      let here ← matchesChunk chunk name
      match here.filter fun left => left.isEmpty || !rest.isEmpty with
      | some left => matchPattern fuel rest left
      | none =>
        match ← (if star then skipStar chunk rest.isEmpty name else some none) with
        | some left => matchPattern fuel rest left
        | none => do
          validChunks fuel rest
          return false

def filepathMatch (pattern name : String) : Option Bool :=
  matchPattern (pattern.length + 1) pattern.toList name.toList

/-- `SanitizeGlobDots`: a dot outside of a class becomes an underscore, as in the ID of a
peel. `inClass` says how much of a class was read. -/
def sanitizeGlobDots (pattern : String) : String :=
  String.ofList (outside pattern.toList)
where
  outside : List Char → List Char
    | [] => []
    | ['\\'] => ['\\']
    | '\\' :: c :: rest => '\\' :: c :: outside rest
    | '[' :: '!' :: ']' :: rest => '[' :: '!' :: ']' :: inside rest
    | '[' :: '^' :: ']' :: rest => '[' :: '^' :: ']' :: inside rest
    | '[' :: '!' :: rest => '[' :: '!' :: inside rest
    | '[' :: '^' :: rest => '[' :: '^' :: inside rest
    | '[' :: ']' :: rest => '[' :: ']' :: inside rest
    | '[' :: rest => '[' :: inside rest
    | '.' :: rest => '_' :: outside rest
    | c :: rest => c :: outside rest
  inside : List Char → List Char
    | [] => []
    | ']' :: rest => ']' :: outside rest
    | ['\\'] => ['\\']
    | '\\' :: c :: rest => '\\' :: c :: inside rest
    | c :: rest => c :: inside rest

inductive CompareOp where
  | equal
  | notEqual
  | gt
  | gte
  | lt
  | lte
  deriving DecidableEq, Repr

inductive Matcher where
  | glob (pattern dotNorm : String)
  | pcre (re : String → Bool) (pattern : String)
  | fact (key : String) (op : CompareOp) (value original : String)
  | list (peels : List String) (original : String)

/-- The facts of a peel; a nil map has none. -/
abbrev Facts := Option Entries

def newGlobMatcher (pattern : String) : Except String Matcher :=
  if pattern = "" then .error "target: glob pattern must not be empty"
  else
    match filepathMatch pattern "" with
    | none =>
      .error ("target: invalid glob pattern " ++ pattern.quote ++ ": syntax error in pattern")
    | some _ => .ok (.glob pattern (sanitizeGlobDots pattern))

def newPCREMatcher (lib : Library) (pattern : String) : Except String Matcher :=
  let raw := trimPrefix pattern "E@"
  if raw = "" then .error "target: pcre pattern must not be empty"
  else
    match lib.compile raw with
    | .error text => .error ("target: invalid regex pattern " ++ raw.quote ++ ": " ++ text)
    | .ok re => .ok (.pcre re pattern)

def parseCompareOp (s : String) : CompareOp × String :=
  if hasPrefix s ">=" then (.gte, trimPrefix s ">=")
  else if hasPrefix s "<=" then (.lte, trimPrefix s "<=")
  else if hasPrefix s "!=" then (.notEqual, trimPrefix s "!=")
  else if hasPrefix s ">" then (.gt, trimPrefix s ">")
  else if hasPrefix s "<" then (.lt, trimPrefix s "<")
  else (.equal, s)

def newFactMatcher (expr : String) : Except String Matcher :=
  let stripped := (trimPrefix (trimPrefix expr "G@") "I@").toList
  if ':' ∉ stripped then
    .error ("target: fact expression must contain ':' separator: " ++ expr.quote)
  else
    let key := stripped.takeWhile (· ≠ ':')
    if key = [] then .error ("target: fact key must not be empty: " ++ expr.quote)
    else
      let (op, value) := parseCompareOp (String.ofList (stripped.drop (key.length + 1)))
      .ok (.fact (String.ofList key) op value expr)

def newListMatcher (expr : String) : Except String Matcher :=
  let stripped := trimPrefix expr "L@"
  if stripped = "" then .error "target: list expression must not be empty"
  else
    let entries :=
      ((stripped.toList.splitOn ',').map fun part => String.ofList (trimSpace part)).filter
      (· ≠ "")
    let peels := entries.flatMap fun p => [p, sanitizeGlobDots p]
    if peels = [] then
      .error ("target: list expression contains no valid peel IDs: " ++ expr.quote)
    else .ok (.list peels expr)

/-- `lookupNested`, over the parts of a key. -/
def lookupNested (current : Value) : List String → Option Value
  | [] => some current
  | part :: parts =>
    match current with
    | .map entries => (entries.lookup part).bind fun inner => lookupNested inner parts
    | _ => none

def ordered : CompareOp → Ordering → Bool
  | .gt, o => o = .gt
  | .gte, o => o ≠ .lt
  | .lt, o => o = .lt
  | .lte, o => o ≠ .gt
  | .equal, _ | .notEqual, _ => false

def numericCompare (lib : Library) (actual expected : String) (op : CompareOp) : Bool :=
  match lib.compareFloat actual expected with
  | some order => order.any (ordered op)
  | none =>
    ordered op (if actual < expected then .lt else if actual = expected then .eq else .gt)

def compareFact (lib : Library) (op : CompareOp) (actual value : String) : Bool :=
  match op with
  | .equal => lib.equalFold actual value
  | .notEqual => !lib.equalFold actual value
  | .gt | .gte | .lt | .lte => numericCompare lib actual value op

/-- `Match` of each kind of matcher. -/
def Matcher.accepts (lib : Library) (peelID : String) (facts : Facts) : Matcher → Bool
  | .glob pattern dotNorm =>
    filepathMatch pattern peelID = some true ||
      (dotNorm != pattern && filepathMatch dotNorm peelID = some true)
  | .pcre re _ => re peelID
  | .fact key op value _ =>
    match facts with
    | none => false
    | some entries =>
      let parts := (key.toList.splitOn '.').map String.ofList
      match lookupNested (.map entries) parts with
      | none | some .null => false
      | some actual => compareFact lib op actual.sprint value
  | .list peels _ => peels.contains peelID

end Zester.Target
