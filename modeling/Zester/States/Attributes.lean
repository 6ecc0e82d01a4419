import Zester.States.Dag

/-! The generic attributes that any state may declare, and the wrapper that carries them. -/
namespace Zester.States

/-- What the language says of a float, known by its printed text: its integer part, and whether it
is other than zero. A scalar that is no float has none. -/
structure Floats where
  truncate : String → Option Int
  nonzero : String → Bool

/-- The number that a scalar is read as: an int, or the integer part of a float. -/
def scalarInt (floats : Floats) : Value → Option Int
  | .int n => some n
  | .other text => floats.truncate text
  | _ => none

def toInt (floats : Floats) (v : Value) : Int := (scalarInt floats v).getD 0

def truthy (floats : Floats) : Value → Bool
  | .bool b => b
  | .str s => s ∈ ["true", "True", "yes", "Yes", "1", "on", "On"]
  | .int n => n ≠ 0
  | .other text => floats.nonzero text
  | _ => false

/-- A string or a list, whose items are printed as they are. -/
def toStringList : Value → List String
  | .str s => [s]
  | .list items => items.map Value.sprint
  | _ => []

def parseNameList (v : Value) : List String := toStringList v

structure StateAttributes where
  onlyifCmds : List String := []
  unlessCmds : List String := []
  order : Int := 0
  hasOrder : Bool := false
  retryAttempts : Int := 0
  /-- In seconds. -/
  retryInterval : Int := 0
  failHard : Bool := false
  prereq : List String := []
  deriving DecidableEq, Repr

namespace StateAttributes

def isZero (a : StateAttributes) : Bool :=
  a.onlyifCmds = [] ∧ a.unlessCmds = [] ∧ a.hasOrder = false ∧ a.retryAttempts = 0 ∧
    a.failHard = false ∧ a.prereq = []

end StateAttributes

/-- The order and whether one is set: any word but `first` and `last` sets none. -/
def parseOrder (floats : Floats) : Value → Int × Bool
  | .str "first" => (-1000000, true)
  | .str "last" => (1000000, true)
  | v =>
    match scalarInt floats v with
    | some n => (n, true)
    | none => (0, false)

/-- A bare count, or a map with the count and the interval in seconds; ten seconds otherwise. -/
def parseRetry (floats : Floats) (v : Value) : Int × Int :=
  let attempts :=
    match v with
    | .map entries => ((entries.lookup "attempts").map (toInt floats)).getD 0
    | v => toInt floats v
  let interval :=
    match v with
    | .map entries => ((entries.lookup "interval").map (toInt floats)).getD 10
    | _ => 10
  (if attempts < 0 then 0 else attempts, interval)

def parseStateAttributes (floats : Floats) (config : Config) : StateAttributes :=
  let order := ((config.lookup "order").map (parseOrder floats)).getD (0, false)
  let retry := ((config.lookup "retry").map (parseRetry floats)).getD (0, 0)
  { onlyifCmds := toStringList (config.read "onlyif")
    unlessCmds := toStringList (config.read "unless")
    order := order.1
    hasOrder := order.2
    retryAttempts := retry.1
    retryInterval := retry.2
    failHard := ((config.lookup "failhard").map (truthy floats)).getD false
    prereq := parseReqEntries (config.read "prereq") }

/-- The wrapper answers for the optional interfaces. Its guards decide on Check and Apply, which
belong to a run. -/
def wrapAttributes (inner : State) (attrs : StateAttributes) : State :=
  if attrs.isZero then
    inner
  else
    { inner with
      order := attrs.order
      retryAttempts := attrs.retryAttempts
      failHard := attrs.failHard
      prereqTargets := attrs.prereq }

end Zester.States
