import Zester.Modules.File.Block
import Zester.Modules.File.KeyValue
import Zester.Modules.File.Line

/-! The states that edit a file in place, as one type, with `file.append`, `file.replace`,
`file.comment` and `file.uncomment`. -/
namespace Zester.Modules.File
open States

structure FileAppend where
  path : String
  text : List Text
  deriving DecidableEq, Repr

namespace FileAppend
variable (f : FileAppend)

def missing (content : Text) : List Text := f.text.filter fun line => !decide (line <:+: content)

/-- The loop body of `Apply`, on the content and the number of the lines that were appended. -/
def appendLine (done : Text × Nat) (line : Text) : Text × Nat :=
  if line <:+: done.1 then done
  else
    let content := if done.1 ≠ [] ∧ done.1.getLast? ≠ some '\n' then done.1 ++ ['\n'] else done.1
    (content ++ line ++ ['\n'], done.2 + 1)

def assess : Option Text → CheckResult
  | none => ⟨true, "file " ++ f.path ++ " does not exist"⟩
  | some data =>
    if 0 < (f.missing data).length then
      ⟨true, toString (f.missing data).length ++ " lines missing from " ++ f.path⟩
    else ⟨false, ""⟩

def plan (content : Option Text) : Option Plan :=
  let appended := f.text.foldl appendLine (content.getD [], 0)
  if appended.2 = 0 then none
  else
    some ⟨appended.1, "appended " ++ toString appended.2 ++ " lines to " ++ f.path,
      [("path", f.path), ("lines", toString appended.2)]⟩

def edit : Edit := ⟨"file.append", f.path, f.assess, f.plan⟩

end FileAppend

/-- The loop of `fsxRegexpReplace`, with the end of the last match and the number of
replacements. -/
def replaceMatches (re : Regexp) (src repl : Text) (count : Int) (last : Nat) (n : Int) :
    List Submatches → Text
  | [] => src.drop last
  | m :: rest =>
    if 0 < count ∧ count ≤ n then src.drop last
    else
      (src.take m.start).drop last ++ re.expandString repl src m ++
        replaceMatches re src repl count m.stop (n + 1) rest

def fsxRegexpReplace (re : Regexp) (src repl : Text) (count : Int) : Text :=
  replaceMatches re src repl count 0 0 (re.findAllSubmatches src)

/-- The pattern stands beside its compiled form. -/
structure FileReplace where
  path : String
  pattern : Text
  re : Regexp
  repl : Text
  count : Int
  appendIfNotFound : Bool
  prependIfNotFound : Bool
  notFoundContent : Text

namespace FileReplace
variable (f : FileReplace)

def notFound : Text := if f.notFoundContent ≠ [] then f.notFoundContent else f.repl

def ended (s : Text) : Text := if s.getLast? = some '\n' then s else s ++ ['\n']

def transform : Option Text → Text × Bool
  | none =>
    if f.appendIfNotFound || f.prependIfNotFound then (ended f.notFound, true) else ([], false)
  | some content =>
    if f.re.matchString content then
      let out := fsxRegexpReplace f.re content f.repl f.count
      (out, out ≠ content)
    else if f.notFound = [] then (content, false)
    else if f.appendIfNotFound then
      if f.notFound <:+: content then (content, false)
      else (ended ((if content ≠ [] then ended content else content) ++ f.notFound), true)
    else if f.prependIfNotFound then
      if f.notFound <:+: content then (content, false) else (ended f.notFound ++ content, true)
    else (content, false)

def quoted : String := (String.ofList f.pattern).quote

def assess (content : Option Text) : CheckResult :=
  if (f.transform content).2 then
    ⟨true, "pattern " ++ f.quoted ++ " replacement pending in " ++ f.path⟩
  else ⟨false, ""⟩

def plan (content : Option Text) : Option Plan :=
  let out := f.transform content
  if out.2 then
    some ⟨out.1, "applied replacement of " ++ f.quoted ++ " in " ++ f.path,
      [("path", f.path), ("pattern", String.ofList f.pattern)]⟩
  else none

def edit : Edit := ⟨"file.replace", f.path, f.assess, f.plan⟩

end FileReplace

/-- One type for both states; the decoder takes an empty comment prefix for a missing one. -/
structure FileComment where
  path : String
  char : Text
  regex : Text
  re : Regexp
  uncomment : Bool
  marked : char ≠ []

/-- The line without its comment prefix, if it has one behind its blanks. -/
def fsxUncommentLine (line char : Text) : Option Text :=
  let blanks := line.takeWhile fun c => c = ' ' || c = '\t'
  let rest := line.dropWhile fun c => c = ' ' || c = '\t'
  if char.isPrefixOf rest then some (blanks ++ rest.drop char.length) else none

namespace FileComment
variable (f : FileComment)

def module : String := if f.uncomment then "file.uncomment" else "file.comment"

def computeLine (l : Text) : Option Text :=
  if f.uncomment then (fsxUncommentLine l f.char).filter fun unc => f.re.matchString unc
  else if (fsxUncommentLine l f.char).isSome then none
  else if f.re.matchString l then some (f.char ++ l)
  else none

def compute (lines : List Text) : List Text × Bool :=
  (lines.map fun l => (f.computeLine l).getD l, lines.any fun l => (f.computeLine l).isSome)

def quoted : String := (String.ofList f.regex).quote

def assess : Option Text → CheckResult
  | none => ⟨false, ""⟩
  | some data =>
    if (f.compute (fsxSplitLines data).1).2 then
      ⟨true, f.module ++ " lines matching " ++ f.quoted ++ " in " ++ f.path⟩
    else ⟨false, ""⟩

def action : String := if f.uncomment then "uncommented" else "commented"

def plan : Option Text → Option Plan
  | none => none
  | some data =>
    let lines := fsxSplitLines data
    let computed := f.compute lines.1
    if computed.2 then
      some ⟨fsxJoinLines computed.1 lines.2, f.action ++ " lines matching " ++ f.quoted ++
        " in " ++ f.path, [("path", f.path), ("action", f.action)]⟩
    else none

/-- `Revert` of these two states is `fsxRevert`. -/
def edit : Edit := ⟨f.module, f.path, f.assess, f.plan⟩

end FileComment

/-- A state with its configuration as the builder accepts it. -/
inductive FileState where
  | line (compile : Text → Option Regexp) (f : FileLine)
  | blockreplace (f : FileBlockReplace)
  | keyvalue (f : FileKeyValue)
  | append (f : FileAppend)
  | replace (f : FileReplace)
  | comment (f : FileComment)

namespace FileState

def edit : FileState → Edit
  | .line compile f => f.edit compile
  | .blockreplace f => f.edit
  | .keyvalue f => f.edit
  | .append f => f.edit
  | .replace f => f.edit
  | .comment f => f.edit

def revert (s : FileState) (memo : Memo) : FileProgram Text (Except String ApplyResult) :=
  match s with
  | .comment f => fsxRevert f.path memo.backup memo.backupSet f.module
  | _ => s.edit.revert memo

/-- Whether the state makes a file where there is none. -/
def creates : FileState → Bool
  | .line _ f => f.createsOnMissing
  | .blockreplace f => f.appendIfNotFound
  | .keyvalue _ => true
  | .append f => f.text.any (· ≠ [])
  | .replace f => f.appendIfNotFound || f.prependIfNotFound
  | .comment _ => false

end FileState

end Zester.Modules.File
