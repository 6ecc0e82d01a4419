import Zester.Lib.Files
import Zester.States.Runner
import Zester.Text

/-! What the modules share that manage lines of a system file: the checks of their values, the
reading of the file, its lines, and the way back. -/
namespace Zester.Modules
open States FileProgram

/-- The hexadecimal digits of a number, with leading zeros. -/
def hex (upper : Bool) (width n : Nat) : String :=
  let digits := (Nat.toDigits 16 n).map fun c => if upper then c.toUpper else c
  String.ofList (List.replicate (width - digits.length) '0' ++ digits)

/-- `strconv.QuoteRune`, for the characters that the checks reject. -/
def quoteRune (r : Char) : String :=
  let escaped :=
    match r.toNat with
    | 0x07 => "\\a"
    | 0x08 => "\\b"
    | 0x09 => "\\t"
    | 0x0a => "\\n"
    | 0x0b => "\\v"
    | 0x0c => "\\f"
    | 0x0d => "\\r"
    | 0x20 => " "
    | n => if n < 0x20 ∨ n = 0x7f then "\\x" ++ hex false 2 n else "\\u" ++ hex false 4 n
  "'" ++ escaped ++ "'"

def describeRune (r : Char) : String := quoteRune r ++ " (U+" ++ hex true 4 r.toNat ++ ")"

/-- The error for the first character that is not allowed. -/
def reject (what : String) (bad : Char → Bool) (field : String) (value : Text) : Option String :=
  (value.find? bad).map fun r =>
    let i := (value.takeWhile (!bad ·)).foldl (fun i c => i + c.utf8Size) 0
    field ++ ": " ++ what ++ " " ++ describeRune r ++ " at byte " ++ toString i ++ " is not allowed"

def noControlChars : String → Text → Option String := reject "control character" isControl

def noWhitespace : String → Text → Option String :=
  reject "whitespace or control character" fun r => isControl r || isSpace r

def readManagedFile (path : String) : FileProgram Text (Except FileError (Text × Bool)) := do
  match ← .op (.read path) with
  | .ok data => return .ok (data, true)
  | .error (.notExist _) => return .ok ([], false)
  | .error err => return .error err

def revertHostsFile (path : String) (backup : Text) (backupSet created : Bool) (perm : Nat)
    (mod : String) : FileProgram Text (Except String ApplyResult) :=
  if created then do
    match ← .op (.remove path) with
    | .error (.failed text) => return .error (mod ++ ": revert remove " ++ path ++ ": " ++ text)
    | .ok () | .error (.notExist _) =>
      return .ok ⟨true, "removed " ++ path ++ " (revert; created by this apply)", []⟩
  else if backupSet then do
    match ← .op (.write path backup perm) with
    | .error err => return .error (mod ++ ": revert " ++ path ++ ": " ++ err.text)
    | .ok () => return .ok ⟨true, "reverted " ++ path ++ " to previous content", []⟩
  else return .ok ⟨false, mod ++ ": nothing to revert (no apply recorded in this run)", []⟩

def trimNewline (content : Text) : Text :=
  if content.getLast? = some '\n' then content.dropLast else content

def splitHostLines (content : Text) : List Text :=
  if content = [] then [] else (trimNewline content).splitOn '\n'

def joinHostLines (lines : List Text) : Text :=
  if lines = [] then [] else ['\n'].intercalate lines ++ ['\n']

theorem newline_not_mem_splitHostLines (member : line ∈ splitHostLines content) : '\n' ∉ line := by
  unfold splitHostLines at member
  split at member
  · cases member
  · exact not_mem_of_mem_splitOn member

theorem splitHostLines_joinHostLines (single : ∀ line ∈ lines, '\n' ∉ line) :
    splitHostLines (joinHostLines lines) = lines := by
  unfold joinHostLines
  split
  · rename_i empty
    rw [empty]
    rfl
  · rename_i some_line
    simp [splitHostLines, trimNewline, List.splitOn_intercalate '\n' single some_line]

theorem reject_eq_none : reject what bad field value = none ↔ ∀ r ∈ value, bad r = false := by
  simp [reject]

theorem runs_readManagedFile {result : α} {f : Except FileError (Text × Bool) → FileProgram Text α}
    (runs : (readManagedFile path >>= f).Runs disk result disk')
    (stops : ∀ err, ¬(f (.error err)).Runs disk result disk') :
    (f (.ok ((disk path).getD [], (disk path).isSome))).Runs disk result disk' := by
  obtain ⟨data, held, rest⟩ | ⟨text, held, rest⟩ := runs_read runs fun _ => stops _
  all_goals rwa [held]

theorem runs_write_changed
    {same written result : α} {failed : FileError → α}
    (runs : (if desired = current then pure same
      else do
        match ← .op (.write path desired perm) with
        | .error err => pure (failed err)
        | .ok () => pure written : FileProgram Text α).Runs disk result disk')
    (succeeds : ∀ err, result ≠ failed err) :
    result = same ∧ desired = current ∧ disk' = disk ∨
      result = written ∧ disk' = Function.update disk path (some desired) := by
  split at runs
  · rename_i unchanged
    obtain ⟨rfl, rfl⟩ := runs_done runs
    exact .inl ⟨rfl, unchanged, rfl⟩
  · exact .inr (runs_done (runs_write runs fun err _ failed => succeeds err (runs_done failed).1))

/-- The way back: the file is removed, or gets its content back, or is left alone. -/
theorem revertHostsFile_ok
    (runs : (revertHostsFile path backup backupSet created perm mod).Runs disk (.ok result) disk') :
    disk' path = if created then none else if backupSet then some backup else disk path := by
  unfold revertHostsFile at runs
  cases created with
  | true =>
    obtain ⟨reply, after, gone, rest⟩ := runs_remove runs fun _ _ failed => by
      cases (runs_done failed).1
    obtain (_ | _) | _ := reply <;> rwa [(runs_done rest).2]
  | false =>
    cases backupSet with
    | true =>
      have rest := runs_write runs fun _ _ failed => by cases (runs_done failed).1
      simp [(runs_done rest).2]
    | false =>
      obtain ⟨-, rfl⟩ := runs_done runs
      rfl

end Zester.Modules
