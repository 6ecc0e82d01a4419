import Zester.Modules.File.Surgery

/-! The state `file.blockreplace`: what stands between two marker lines of a file. -/
namespace Zester.Modules.File
open States

def defaultMarkerStart : Text := "# START managed zone".toList

def defaultMarkerEnd : Text := "# END managed zone".toList

structure FileBlockReplace where
  path : String
  content : Text
  markerStart : Text := defaultMarkerStart
  markerEnd : Text := defaultMarkerEnd
  appendIfNotFound : Bool
  appendNewline : Bool
  deriving DecidableEq, Repr

/-- `strings.TrimRight` of carriage returns. -/
def trimCR (line : Text) : Text := (line.reverse.dropWhile (· = '\r')).reverse

/-- The loop of `findBlock` from line `i` on, with the last start marker before it. -/
def findMarkers (markerStart markerEnd : Text) (startIdx : Option Nat) (i : Nat) :
    List Text → Option (Nat × Nat)
  | [] => none
  | line :: lines =>
    if trimCR line = markerStart then findMarkers markerStart markerEnd (some i) (i + 1) lines
    else
      match startIdx with
      | some start =>
        if trimCR line = markerEnd then some (start, i)
        else findMarkers markerStart markerEnd startIdx (i + 1) lines
      | none => findMarkers markerStart markerEnd none (i + 1) lines

def blockText (between : List Text) : Text :=
  ['\n'].intercalate between ++ if between = [] then [] else ['\n']

/-- The markers of the block, by their lines, and its content. -/
def findBlock (lines : List Text) (markerStart markerEnd : Text) : Option (Nat × Nat × Text) :=
  match findMarkers markerStart markerEnd none 0 lines with
  | some found =>
    some (found.1, found.2, blockText ((lines.take found.2).drop (found.1 + 1)))
  | none => none

namespace FileBlockReplace
variable (f : FileBlockReplace)

def desiredContent : Text :=
  if f.content.getLast? = some '\n' then f.content else f.content ++ ['\n']

def block : Text := f.markerStart ++ '\n' :: f.desiredContent ++ f.markerEnd ++ ['\n']

def contentLines : List Text := f.desiredContent.dropLast.splitOn '\n'

def assess : Option Text → CheckResult
  | none =>
    if f.appendIfNotFound then ⟨true, "file " ++ f.path ++ " does not exist"⟩
    else ⟨false, "file " ++ f.path ++ " does not exist and append_if_not_found is false"⟩
  | some data =>
    match findBlock (data.splitOn '\n') f.markerStart f.markerEnd with
    | none =>
      if f.appendIfNotFound then ⟨true, "managed block not found in " ++ f.path⟩ else ⟨false, ""⟩
    | some found =>
      if found.2.2 = f.desiredContent then ⟨false, ""⟩
      else ⟨true, "managed block content differs in " ++ f.path⟩

def report (action diff : String) (content : Text) : Plan :=
  ⟨content, diff, [("path", f.path), ("action", action)]⟩

/-- A block that is there is written again, whatever stands in it. -/
def plan : Option Text → Option Plan
  | none =>
    if f.appendIfNotFound then
      some (f.report "created" ("created " ++ f.path ++ " with managed block") f.block)
    else none
  | some data =>
    let lines := data.splitOn '\n'
    match findBlock lines f.markerStart f.markerEnd with
    | none =>
      if f.appendIfNotFound then
        let content := if data ≠ [] ∧ data.getLast? ≠ some '\n' then data ++ ['\n'] else data
        some (f.report "appended" ("appended managed block to " ++ f.path)
          (content ++ f.block ++ if f.appendNewline then ['\n'] else []))
      else none
    | some found =>
      let newLines := lines.take (found.1 + 1) ++ f.contentLines ++ lines.drop found.2.1
      some (f.report "replaced" ("replaced managed block content in " ++ f.path)
        (['\n'].intercalate newLines))

def edit : Edit := ⟨"file.blockreplace", f.path, f.assess, f.plan⟩

end FileBlockReplace

end Zester.Modules.File
