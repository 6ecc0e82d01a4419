import Mathlib.Data.Option.Basic

/-! The three files of a binary that is updated in place: the current one, the previous one and
the one that is staged. File operations fail only where a file is missing. -/
namespace Zester.Update

structure SlotManager (β : Type) where
  basePath : String
  current : Option β
  previous : Option β
  staging : Option β
  deriving DecidableEq

namespace SlotManager
variable (s : SlotManager β)

def currentPath : String := s.basePath
def previousPath : String := s.basePath ++ ".prev"
def stagingPath : String := s.basePath ++ ".staging"

/-- The error of `os.Rename` for a file that is not there. -/
def missing (source destination : String) : String :=
  "rename " ++ source ++ " " ++ destination ++ ": no such file or directory"

def stage (sha256 : β → String) (data : β) (expectedHash : String) :
    Except String Unit × SlotManager β :=
  let got := sha256 data
  if got ≠ expectedHash then
    (.error ("update: stage: hash mismatch: got " ++ got ++ ", want " ++ expectedHash),
      { s with staging := none })
  else (.ok (), { s with staging := some data })

def apply : Except String Unit × SlotManager β :=
  match s.current, s.staging with
  | none, _ =>
    (.error ("update: apply: current to previous: " ++ missing s.currentPath s.previousPath),
      { s with previous := none })
  | some running, none =>
    -- the current binary has been moved away and is put back
    (.error ("update: apply: staging to current: " ++ missing s.stagingPath s.currentPath),
      { s with current := some running, previous := none })
  | some running, some staged =>
    (.ok (), { s with current := some staged, previous := some running, staging := none })

def rollback : Except String Unit × SlotManager β :=
  match s.previous with
  | none => (.error "update: rollback: no previous binary", s)
  | some binary => (.ok (), { s with current := some binary, previous := none, staging := none })

def confirm : SlotManager β := { s with staging := none }

end SlotManager

end Zester.Update
