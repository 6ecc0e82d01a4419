import Mathlib.Algebra.Group.Nat.Defs
import Zester.Lib.Program
import Zester.Text

/-! The revision counter that a publisher bumps after each batch. -/
namespace Zester

abbrev BusM := Program String String

namespace Bus

def keyRevision : String := "_revision"

/-- `fmt.Sscanf(s, "%d", &n)` on 64 bits: the number at the front, behind blanks, or 0. -/
def scanUint (s : String) : Nat :=
  let digits := (s.toList.dropWhile fun c => isSpace c && c != '\n').takeWhile Char.isDigit
  let n := digits.foldl (fun n c => 10 * n + (c.toNat - '0'.toNat)) 0
  if n < 2 ^ 64 then n else 0

/-- Any error reads as revision 0. -/
def getRevision : BusM Nat := do
  match ← Program.get keyRevision with
  | .error _ => return 0
  | .ok entry => return scanUint entry.value

def bumpRevisionMaxAttempts : Nat := 10

/-- `strconv.FormatUint(current+1, 10)` on 64 bits. -/
def nextRevision (current : String) : String := toString ((scanUint current + 1) % 2 ^ 64)

/-- The loop of `BumpRevision`, with the attempts left and the last error. A cancelled
context shows in the operations that fail after it. -/
def bumpAttempts (describe : Refusal → String) :
    Nat → String → BusM (Except String Unit)
  | 0, lastErr =>
    return .error ("bus: bump revision: gave up after " ++ toString bumpRevisionMaxAttempts ++
      " attempts: " ++ lastErr)
  | attempts + 1, _ => do
    match ← Program.get keyRevision with
    | .error .notFound =>
      match ← Program.create keyRevision "1" with
      | .ok _ => return .ok ()
      | .error refused => bumpAttempts describe attempts (describe refused)
    | .error refused =>
      return .error ("bus: bump revision: read \"_revision\": " ++ describe refused)
    | .ok entry =>
      match ← Program.update keyRevision (nextRevision entry.value) entry.revision with
      | .ok _ => return .ok ()
      | .error refused => bumpAttempts describe attempts (describe refused)

def bumpRevision (describe : Refusal → String) : BusM (Except String Unit) :=
  bumpAttempts describe bumpRevisionMaxAttempts ""

end Bus

end Zester
