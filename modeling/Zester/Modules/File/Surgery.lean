import Zester.Lib.Files
import Zester.States.Runner
import Zester.Text

/-! What the states share that edit a file in place: the lines of its content, the expressions that
select lines, and the course of `Check`, `Apply` and `Revert` around the edit itself. -/
namespace Zester.Modules.File
open States

/-- A match and the groups in it, by their bounds in the text. -/
structure Submatches where
  start : Nat
  stop : Nat
  groups : List (Option (Nat × Nat))

/-- A compiled expression of Go's `regexp`, by what its methods answer. -/
structure Regexp where
  matchString : Text → Bool
  findAllSubmatches : Text → List Submatches
  expandString : Text → Text → Submatches → Text

/-- The lines of a content, and whether it ends in a newline. -/
def fsxSplitLines (s : Text) : List Text × Bool :=
  if s = [] then ([], false)
  else if s.getLast? = some '\n' then (s.dropLast.splitOn '\n', true)
  else (s.splitOn '\n', false)

def fsxJoinLines (lines : List Text) (trailingNL : Bool) : Text :=
  if lines = [] then []
  else ['\n'].intercalate lines ++ if trailingNL then ['\n'] else []

def fsxInsertAt (lines : List Text) (idx : Nat) (val : Text) : List Text :=
  lines.take idx ++ val :: lines.drop idx

/-- `compile` is `regexp.Compile`; an expression that it refuses is looked for as it stands. -/
def fsxLineMatches (compile : Text → Option Regexp) (line expr : Text) : Bool :=
  if expr = [] then false
  else
    match compile expr with
    | some re => re.matchString line
    | none => decide (expr <:+: line)

/-- What an instance remembers of the file for `Revert`. -/
structure Memo where
  backup : Text := []
  backupSet : Bool := false
  created : Bool := false
  deriving DecidableEq, Repr

def Memo.keep (memo : Memo) (data : Text) : Memo :=
  if memo.backupSet then memo else { memo with backup := data, backupSet := true }

/-- The content that `Apply` writes, with what it then reports. -/
structure Plan where
  content : Text
  diff : String
  details : List (String × String)

/-- A state that edits one file: what `Check` makes of the content, and what `Apply` writes, if it
writes at all. There is no content where the file does not exist. -/
structure Edit where
  module : String
  path : String
  assess : Option Text → CheckResult
  plan : Option Text → Option Plan

namespace Edit
variable (e : Edit)

def readError (text : String) : String := e.module ++ ": read " ++ e.path ++ ": " ++ text

def check : FileProgram Text (Except String CheckResult) := do
  match ← .op (.read e.path) with
  | .ok data => return .ok (e.assess (some data))
  | .error (.notExist _) => return .ok (e.assess none)
  | .error (.failed text) => return .error (e.readError text)

def install (content : Option Text) (memo : Memo) :
    FileProgram Text (Except String ApplyResult × Memo) :=
  match e.plan content with
  | none => return (.ok ⟨false, "", []⟩, memo)
  | some plan => do
    match ← .op (.write e.path plan.content 0o644) with
    | .error err => return (.error (e.module ++ ": write " ++ e.path ++ ": " ++ err.text), memo)
    | .ok () =>
      return (.ok ⟨true, plan.diff, plan.details⟩,
        if content.isNone then { memo with created := true } else memo)

def apply (memo : Memo) : FileProgram Text (Except String ApplyResult × Memo) := do
  match ← .op (.read e.path) with
  | .ok data => e.install (some data) (memo.keep data)
  | .error (.notExist _) => e.install none memo
  | .error (.failed text) => return (.error (e.readError text), memo)

end Edit

def fsxNothingToRevert : String := "nothing to revert (no apply recorded in this run)"

def fsxRevert (path : String) (backup : Text) (backupSet : Bool) (module : String) :
    FileProgram Text (Except String ApplyResult) :=
  if backupSet then do
    match ← .op (.write path backup 0o644) with
    | .error err => return .error (module ++ ": revert " ++ path ++ ": " ++ err.text)
    | .ok () => return .ok ⟨true, "reverted " ++ path ++ " to previous content", []⟩
  else return .ok ⟨false, fsxNothingToRevert, []⟩

def fsxRevertWithCreate (path : String) (backup : Text) (backupSet created : Bool)
    (module : String) : FileProgram Text (Except String ApplyResult) :=
  if !backupSet && created then do
    match ← .op (.remove path) with
    | .error (.failed text) => return .error (module ++ ": revert remove " ++ path ++ ": " ++ text)
    | .ok () | .error (.notExist _) =>
      return .ok ⟨true, "removed " ++ path ++ " (revert to nonexistent)", []⟩
  else fsxRevert path backup backupSet module

def Edit.revert (e : Edit) (memo : Memo) : FileProgram Text (Except String ApplyResult) :=
  fsxRevertWithCreate e.path memo.backup memo.backupSet memo.created e.module

end Zester.Modules.File
