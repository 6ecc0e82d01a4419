import Mathlib.Algebra.Group.Int.Defs
import Zester.Value

/-! Jobs, the requests that are sent for them, and the answers of the peels. Times and
durations are numbers; a time that was never set is 0. -/
namespace Zester.Jobs

inductive Status where
  | pending
  | claimed
  | running
  | canceled
  | complete
  | partial_
  | timeout
  | failed
  /-- The empty text that a record without a status decodes to. -/
  | unset
  deriving DecidableEq, Repr

def Status.isTerminal : Status → Bool
  | .complete | .partial_ | .timeout | .failed | .canceled => true
  | .pending | .claimed | .running | .unset => false

abbrev Metadata := List (String × String)

/-- The assignment `metadata[key] = value`. -/
def Metadata.set (metadata : Metadata) (key value : String) : Metadata :=
  (key, value) :: metadata.filter (·.1 ≠ key)

structure Job where
  jid : String := ""
  function : String := ""
  args : Value := .null
  targets : List String := []
  timeout : Int := 0
  status : Status := .unset
  created : Int := 0
  updated : Int := 0
  user : String := ""
  owner : String := ""
  /-- The revision of the record that the owner wrote last. -/
  epoch : Nat := 0
  deadline : Int := 0
  reclaimCount : Nat := 0
  offlineAtDispatch : List String := []
  stateID : String := ""
  returnCount : Nat := 0
  successCount : Nat := 0
  metadata : Metadata := []

/-- In nanoseconds. -/
def defaultJobTimeout : Int := 60 * 1000000000

def effectiveTimeout (timeout : Int) : Int := if timeout ≤ 0 then defaultJobTimeout else timeout

/-- A deadline for a record that has none. -/
def normalizeDeadline (now : Int) (j : Job) : Job :=
  if j.deadline ≠ 0 then j
  else
    let base := if j.created = 0 then now else j.created
    { j with deadline := base + effectiveTimeout j.timeout }

def Job.targetCount (j : Job) : Nat := j.targets.length

structure ExecRequest where
  jid : String
  module : String
  id : String
  args : Value
  epoch : Nat
  v : Nat
  reactorDepth : Nat

/-- `strconv.Atoi` on 64 bits. -/
def atoi (text : String) : Option Int :=
  let (negative, digits) :=
    match text.toList with
    | '-' :: digits => (true, digits)
    | '+' :: digits => (false, digits)
    | digits => (false, digits)
  if digits = [] ∨ digits.all Char.isDigit = false then none
  else
    let n : Nat := digits.foldl (fun n c => 10 * n + (c.toNat - '0'.toNat)) 0
    let value : Int := if negative then -n else n
    if -2 ^ 63 ≤ value ∧ value < 2 ^ 63 then some value else none

def metadataReactorDepth : String := "reactor_depth"

/-- A depth that is missing or malformed reads as 0. -/
def reactorDepth (j : Job) : Nat :=
  match (j.metadata.lookup metadataReactorDepth).bind atoi with
  | some depth => depth.toNat
  | none => 0

def protocolVersion : Nat := 1

def execRequestForJob (j : Job) : ExecRequest where
  jid := j.jid
  module := j.function
  id := j.stateID
  args := j.args
  epoch := j.epoch
  v := protocolVersion
  reactorDepth := reactorDepth j

/-- How two jobs are compared by the JSON of their arguments and metadata. -/
structure Json where
  sameArgs : Value → Value → Bool
  sameMetadata : Metadata → Metadata → Bool

/-- The first part of the intent that differs. -/
def sameDispatchIntent (json : Json) (existing requested : Job) : Option String :=
  if existing.jid ≠ requested.jid then some "jid"
  else if existing.function ≠ requested.function then some "function"
  else if existing.timeout ≠ requested.timeout then some "timeout"
  else if existing.user ≠ requested.user then some "user"
  else if existing.targets.insertionSort (· ≤ ·) ≠ requested.targets.insertionSort (· ≤ ·) then
    some "targets"
  else if !json.sameArgs existing.args requested.args then some "args"
  else if !json.sameMetadata existing.metadata requested.metadata then some "metadata"
  else none

end Zester.Jobs
