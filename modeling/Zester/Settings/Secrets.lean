import Mathlib.Data.List.Infix
import Zester.Lib.Ranging
import Zester.Value

/-! Secrets of settings files: the sanitizer takes them out and leaves placeholders, and they are
put back into the settings that a peel has read. The YAML library is not part of this repository
and enters as the parameter `Yaml`. -/
namespace Zester.Settings

inductive Style where
  | plain
  | doubleQuoted
  | other
  deriving DecidableEq, Repr

/-- `yaml.Node`. Mappings list their entries as pairs; anchors, comments and
line numbers are left out. -/
inductive Node where
  | scalar (tag : String) (style : Style) (value : String)
  | mapping (tag : String) (pairs : List (Node × Node))
  | sequence (tag : String) (items : List Node)
  | document (content : List Node)
  | aliasNode (name : String)
  deriving Inhabited

namespace Node

def tag : Node → String
  | .scalar tag _ _ | .mapping tag _ | .sequence tag _ => tag
  | .document _ | .aliasNode _ => ""

/-- The field `Value`, which collections leave empty. -/
def value : Node → String
  | .scalar _ _ value => value
  | .aliasNode name => name
  | .mapping _ _ | .sequence _ _ | .document _ => ""

/-- A step down the tree: to a key or a value of a mapping entry, or to an item
of a sequence or document. -/
inductive Step where
  | key (i : Nat)
  | value (i : Nat)
  | item (i : Nat)
  deriving DecidableEq, Repr

abbrev Position := List Step

def child : Node → Step → Option Node
  | .mapping _ pairs, .key i => pairs[i]?.map Prod.fst
  | .mapping _ pairs, .value i => pairs[i]?.map Prod.snd
  | .sequence _ items, .item i => items[i]?
  | .document content, .item i => content[i]?
  | _, _ => none

def locate : Node → Position → Option Node
  | node, [] => some node
  | node, step :: rest => (node.child step).bind fun next => next.locate rest

def text : Node → Option String
  | .scalar _ _ value => some value
  | _ => none

def textAt (node : Node) (position : Position) : Option String :=
  (node.locate position).bind text

end Node

/-- The functions of the YAML library: parsing to a node tree, writing one out, and the
reading of a tree into a `map[string]any`, as `yaml.Unmarshal` does it with what it parses. -/
structure Yaml where
  unmarshal : String → Option Node
  marshal : Node → Except String String
  decode : Node → Option Entries

/-- `yaml.Unmarshal` into a map. -/
def Yaml.read (yaml : Yaml) (content : String) : Option Entries :=
  (yaml.unmarshal content).bind yaml.decode

def encryptedTag : String := "!encrypted"

def secretPlaceholderPrefix : String := "__ZESTER_SECRET:"

def secretPlaceholderSuffix : String := "__"

def placeholder (fullKey : String) : String :=
  secretPlaceholderPrefix ++ fullKey ++ secretPlaceholderSuffix

/-- `valNode` after its tag was found: a collection loses the tag, and only the
text of a scalar shows when the tree is written out. -/
def replaceEncrypted (fullKey : String) : Node → Node
  | .scalar tag style value =>
    if tag = encryptedTag then .scalar "" .doubleQuoted (placeholder fullKey)
    else .scalar tag style value
  | .mapping tag pairs => .mapping (if tag = encryptedTag then "" else tag) pairs
  | .sequence tag items => .sequence (if tag = encryptedTag then "" else tag) items
  | node => node

def hasTemplate (value : String) : Bool := decide (['{', '{'] <:+: value.toList)

/-- Values with template expressions stay quoted. -/
def requote : Node → Node
  | .scalar tag style value =>
    .scalar tag (if hasTemplate value then .doubleQuoted else style) value
  | node => node

def takeSecret (fullKey : String) (node : Node) : List (String × String) :=
  if node.tag = encryptedTag then [(fullKey, node.value)] else []

mutual

/-- The tree after the walk and the assignments to `secrets`, in order. -/
def sanitizeNodes (pre : String) : Node → Node × List (String × String)
  | .mapping tag pairs =>
    let walked := sanitizePairs pre pairs
    (.mapping tag walked.1, walked.2)
  | .sequence tag items =>
    let walked := sanitizeItems pre items
    (.sequence tag walked.1, walked.2)
  | .document content =>
    let walked := sanitizeItems pre content
    (.document walked.1, walked.2)
  | .scalar tag style value => (.scalar tag style value, [])
  | .aliasNode name => (.aliasNode name, [])

def sanitizePairs (pre : String) : List (Node × Node) → List (Node × Node) × List (String × String)
  | [] => ([], [])
  | (key, node) :: pairs =>
    let fullKey := pre ++ key.value
    -- the walk leaves the node's own tag and text alone, so it may come first
    let inner := sanitizeNodes (fullKey ++ ".") node
    let rest := sanitizePairs pre pairs
    ((key, requote (replaceEncrypted fullKey inner.1)) :: rest.1,
      takeSecret fullKey node ++ inner.2 ++ rest.2)

def sanitizeItems (pre : String) : List Node → List Node × List (String × String)
  | [] => ([], [])
  | node :: items =>
    let inner := sanitizeNodes pre node
    let rest := sanitizeItems pre items
    (inner.1 :: rest.1, inner.2 ++ rest.2)

end

structure SanitizedFile where
  content : String
  secrets : Table String

/-- A later assignment to the same key wins. -/
def secretsMap (assignments : List (String × String)) : Table String :=
  assignments.foldl (fun secrets entry => secrets.insert entry.1 entry.2) ∅

/-- A file that does not parse is passed on as it is. -/
def sanitizeFile (yaml : Yaml) (data : String) : Except String SanitizedFile :=
  match yaml.unmarshal data with
  | none => .ok { content := data, secrets := ∅ }
  | some doc =>
    let walked := sanitizeNodes "" doc
    match yaml.marshal walked.1 with
    | .error text => .error ("settings: re-marshal sanitized YAML: " ++ text)
    | .ok content => .ok { content, secrets := secretsMap walked.2 }

/-- `strings.Split(s, ".")`. -/
def splitDots (s : String) : List String := (s.toList.splitOn '.').map String.ofList

/-- `m[k] = v`. -/
def setEntry (entries : Entries) (k : String) (v : Value) : Entries :=
  match entries with
  | [] => [(k, v)]
  | (key, value) :: rest =>
    if key = k then (key, v) :: rest else (key, value) :: setEntry rest k v

/-- `m[k].(map[string]any)`, with a new map where there is none. -/
def nestedMap (entries : Entries) (k : String) : Entries :=
  match entries.lookup k with
  | some (.map inner) => inner
  | _ => []

def setNestedValue (entries : Entries) (parts : List String) (val : Value) :
    Entries :=
  match parts with
  | [] => entries
  | [part] => setEntry entries part val
  | part :: rest => setEntry entries part (.map (setNestedValue (nestedMap entries part) rest val))

def mergeSecrets (it : Ranging) (settings : Entries)
    (secrets : Table String) : Entries :=
  (it.order [0] secrets.entries).foldl
    (fun result secret => setNestedValue result (splitDots secret.1) (.str secret.2)) settings

end Zester.Settings
