import Zester.Modules.File.Surgery

/-! The state `file.line`: one line of a file. -/
namespace Zester.Modules.File
open States

/-- The operations that a mode selects; every text that names no other one stands for `ensure`. -/
inductive LineAction where
  | ensure
  | replace
  | insert
  | delete
  deriving DecidableEq, Repr

structure FileLine where
  path : String
  content : Text
  /-- In lower case. -/
  action : String
  match_ : Text
  before : Text
  after : Text
  deriving DecidableEq, Repr

namespace FileLine

def operation (f : FileLine) : LineAction :=
  if f.action = "delete" ∨ f.action = "absent" then .delete
  else if f.action = "replace" then .replace
  else if f.action = "insert" then .insert
  else .ensure

def createsOnMissing (f : FileLine) : Bool :=
  match f.operation with
  | .delete | .replace => false
  | .ensure | .insert => true

variable (compile : Text → Option Regexp) (f : FileLine)

/-- Whether a line is the target of the state; `matches` in the source. -/
def selects (line : Text) : Bool :=
  if f.match_ ≠ [] then fsxLineMatches compile line f.match_ else line = f.content

def computeDelete (lines : List Text) : List Text × Bool :=
  (lines.filter (!f.selects compile ·), lines.any (f.selects compile))

/-- The lines that `replace` rewrites. -/
def outdated (line : Text) : Bool := f.selects compile line && line ≠ f.content

def computeReplace (lines : List Text) : List Text × Bool :=
  (lines.map fun l => if f.outdated compile l then f.content else l, lines.any (f.outdated compile))

/-- The place for a new line that stands after or before another. -/
def anchor (lines : List Text) : Option Nat :=
  ((lines.findIdx? (fsxLineMatches compile · f.after)).map (· + 1)).or
    (lines.findIdx? (fsxLineMatches compile · f.before))

def insert (lines : List Text) : List Text :=
  match f.anchor compile lines with
  | some idx => fsxInsertAt lines idx f.content
  | none => lines ++ [f.content]

def computeEnsure (lines : List Text) : List Text × Bool :=
  match lines.findIdx? (f.selects compile) with
  | some i =>
    if lines[i]? = some f.content then (lines, false) else (lines.set i f.content, true)
  | none => (f.insert compile lines, true)

def computeInsert (lines : List Text) : List Text × Bool :=
  if lines.contains f.content then (lines, false) else (f.insert compile lines, true)

def compute (lines : List Text) : List Text × Bool :=
  match f.operation with
  | .delete => f.computeDelete compile lines
  | .replace => f.computeReplace compile lines
  | .insert => f.computeInsert compile lines
  | .ensure => f.computeEnsure compile lines

def quoted : String := (String.ofList f.content).quote

def assess : Option Text → CheckResult
  | none =>
    if f.createsOnMissing then ⟨true, "file " ++ f.path ++ " does not exist"⟩ else ⟨false, ""⟩
  | some data =>
    if (f.compute compile (fsxSplitLines data).1).2 then
      ⟨true, "line " ++ f.quoted ++ " (" ++ f.action ++ ") differs in " ++ f.path⟩
    else ⟨false, ""⟩

def plan : Option Text → Option Plan
  | none =>
    if f.createsOnMissing then
      some ⟨f.content ++ ['\n'], "created " ++ f.path ++ " with line " ++ f.quoted,
        [("path", f.path), ("action", "created")]⟩
    else none
  | some data =>
    let lines := fsxSplitLines data
    let computed := f.compute compile lines.1
    if computed.2 then
      some ⟨fsxJoinLines computed.1 lines.2, f.action ++ " line " ++ f.quoted ++ " in " ++ f.path,
        [("path", f.path), ("action", f.action)]⟩
    else none

def edit : Edit := ⟨"file.line", f.path, f.assess compile, f.plan compile⟩

end FileLine

end Zester.Modules.File
