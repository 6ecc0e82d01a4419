import Zester.Modules.File.Surgery

/-! The state `file.keyvalue`: lines that set keys to values. -/
namespace Zester.Modules.File
open States

/-- The class `\s` of Go's expressions. -/
def isPerlSpace (c : Char) : Bool := c ∈ ['\t', '\n', '\x0c', '\r', ' ']

/-- What the end of the expression, `\s*(.*?)\s*$`, accepts. -/
def valueMatches (rest : Text) : Bool :=
  '\n' ∉ ((rest.dropWhile isPerlSpace).reverse.dropWhile isPerlSpace)

/-- What the expression accepts behind the key: the separator may stand apart from it. -/
def separatorMatches (s : Text) : Text → Bool
  | [] => s.isPrefixOf [] && valueMatches []
  | c :: rest =>
    s.isPrefixOf (c :: rest) && valueMatches ((c :: rest).drop s.length) ||
      isPerlSpace c && separatorMatches s rest

def keyMatches (key s line : Text) : Bool :=
  key.isPrefixOf line && separatorMatches s (line.drop key.length)

/-- The first group of the expression takes as much as it can of the whitespace that a line begins
with. -/
def leadingGroup (key s : Text) : Text → Option Text
  | [] => if keyMatches key s [] then some [] else none
  | c :: rest =>
    match if isPerlSpace c then leadingGroup key s rest else none with
    | some leading => some (c :: leading)
    | none => if keyMatches key s (c :: rest) then some [] else none

def isBlank (c : Char) : Bool := c = ' ' || c = '\t'

def trimSpaceASCII (s : Text) : Text :=
  ((s.dropWhile isBlank).reverse.dropWhile isBlank).reverse

/-- The separator as it is looked for. -/
def soughtSeparator (sep : Text) : Text :=
  if trimSpaceASCII sep = [] then ['='] else trimSpaceASCII sep

/-- `FindStringSubmatch` of the expression for a key, as far as it is used: the first group. -/
def fsxKeyValueRegex (key sep line : Text) : Option Text :=
  leadingGroup key (soughtSeparator sep) line

/-- The decoder takes an empty separator for a missing one, and the builder refuses an empty map. -/
structure FileKeyValue where
  path : String
  separator : Text
  entries : AList fun _ : Text => Text
  separated : separator ≠ []
  some_entry : entries.entries ≠ []

/-- The union of the parameters: `entries` wins over `key_values`, and the single pair over both. -/
def mergeEntries (keyValues entriesInput : AList fun _ : Text => Text)
    (single : Option (Text × Text)) : AList fun _ : Text => Text :=
  let union := entriesInput ∪ keyValues
  match single with
  | none => union
  | some pair => union.insert pair.1 pair.2

/-- The tail of the builder, on decoded parameters; a value may be missing. -/
def newFileKeyValue (path : String) (separator : Text) (separated : separator ≠ [])
    (keyValues entriesInput : AList fun _ : Text => Text) (key : Text) (value : Option Text) :
    Except String FileKeyValue :=
  let finish (entries : AList fun _ : Text => Text) : Except String FileKeyValue :=
    if some_entry : entries.entries ≠ [] then .ok ⟨path, separator, entries, separated, some_entry⟩
    else .error "file.keyvalue: no entries (use key/value, key_values, or entries)"
  if key = [] then finish (mergeEntries keyValues entriesInput none)
  else
    match value with
    | none => .error ("file.keyvalue: key " ++ (String.ofList key).quote ++ " requires a value")
    | some value => finish (mergeEntries keyValues entriesInput (some (key, value)))

namespace FileKeyValue
variable (f : FileKeyValue)

def sortedKeys : List Text := f.entries.keys.insertionSort (· ≤ ·)

def value (key : Text) : Text := (f.entries.lookup key).getD []

def newLine (leading key : Text) : Text := leading ++ key ++ f.separator ++ f.value key

def matchKey (key line : Text) : Option Text := fsxKeyValueRegex key f.separator line

/-- The search for the first line of a key: its place and the whitespace that it begins with. -/
def findKey (key : Text) : List Text → Option (Nat × Text)
  | [] => none
  | line :: lines =>
    match f.matchKey key line with
    | some leading => some (0, leading)
    | none => (findKey key lines).map fun found => (found.1 + 1, found.2)

def computeKey (done : List Text × Bool) (key : Text) : List Text × Bool :=
  match f.findKey key done.1 with
  | some found =>
    if done.1[found.1]? = some (f.newLine found.2 key) then done
    else (done.1.set found.1 (f.newLine found.2 key), true)
  | none => (done.1 ++ [f.newLine [] key], true)

def compute (lines : List Text) : List Text × Bool := f.sortedKeys.foldl f.computeKey (lines, false)

def count : String := toString f.entries.entries.length

def assess : Option Text → CheckResult
  | none => ⟨true, "file " ++ f.path ++ " does not exist"⟩
  | some data =>
    if (f.compute (fsxSplitLines data).1).2 then
      ⟨true, f.count ++ " key/value entries pending in " ++ f.path⟩
    else ⟨false, ""⟩

/-- A missing file has no lines, and gets a newline at its end. -/
def plan (content : Option Text) : Option Plan :=
  let lines := (content.map fsxSplitLines).getD ([], true)
  let computed := f.compute lines.1
  if computed.2 then
    some ⟨fsxJoinLines computed.1 lines.2, "ensured " ++ f.count ++
      " key/value entries in " ++ f.path, [("path", f.path), ("entries", f.count)]⟩
  else none

def edit : Edit := ⟨"file.keyvalue", f.path, f.assess, f.plan⟩

end FileKeyValue

end Zester.Modules.File
