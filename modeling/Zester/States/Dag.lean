import Zester.Lib.Ranging
import Zester.Lib.Tally
import Zester.States.Requisites

/-! The dependency graph of a state set and its resolution into levels. -/
namespace Zester.States

/-- What the engine reads off a state: its name and requisites, and the generic
attributes of the optional interfaces (`Ordered`, `Retryable`, `FailHarder`,
`Prereqer`) with the values a state without the interface counts as having.
What Check, Apply and Revert do is not part of the state but of a run. -/
structure State where
  name : String
  reqs : Requisites := {}
  order : Int := 0
  retryAttempts : Int := 0
  failHard : Bool := false
  prereqTargets : List String := []
  deriving DecidableEq, Repr, Inhabited

structure DAG where
  nodes : Table State
  edges : Table (List String)

inductive DagError where
  | duplicate (name : String)
  | unknown (name dep : String)
  | cycle (processed total : Nat)
  deriving DecidableEq, Repr

namespace DagError

def message : DagError → String
  | .duplicate name => "dag: duplicate state " ++ name.quote
  | .unknown name dep => "dag: state " ++ name.quote ++ " requires unknown state " ++ dep.quote
  | .cycle processed total =>
    "dag: cycle detected, resolved " ++ toString processed ++ " of " ++ toString total ++ " states"

end DagError

namespace DAG

def addState (d : DAG) (s : State) : Except DagError DAG :=
  if s.name ∈ d.nodes then
    .error (.duplicate s.name)
  else
    .ok ⟨d.nodes.insert s.name s, d.edges.insert s.name s.reqs.allDeps⟩

def addStates (d : DAG) : List State → Except DagError DAG
  | [] => .ok d
  | s :: states => do addStates (← d.addState s) states

/-- The first dependency, in the order of the loops, that names no state. -/
def unknownDep (d : DAG) : List (String × List String) → Option (String × String)
  | [] => none
  | (name, deps) :: rest =>
    match deps.find? (fun dep => dep ∉ d.nodes) with
    | some dep => some (name, dep)
    | none => unknownDep d rest

def edgeList (d : DAG) : List (String × List String) :=
  d.edges.entries.map fun entry => (entry.1, entry.2)

end DAG

def newDAG (it : Ranging) (states : List State) : Except DagError DAG := do
  let d ← DAG.addStates ⟨∅, ∅⟩ states
  match d.unknownDep (it.order [0] d.edgeList) with
  | some (name, dep) => .error (.unknown name dep)
  | none => .ok d

namespace DAG

def get (d : DAG) (name : String) : Option State := d.nodes.lookup name

def len (d : DAG) : Nat := d.nodes.keys.length

abbrev Level := List State

/-- In-degrees and reverse edges, as the loop over the edges builds them. -/
def degrees (edges : List (String × List String)) : String → Int :=
  edges.foldl (fun inDegree edge => Function.update inDegree edge.1 edge.2.length) fun _ => 0

def dependents (edges : List (String × List String)) : String → List String :=
  (edges.flatMap fun edge => edge.2.map fun dep => (dep, edge.1)).foldl Tally.group fun _ => []

/-- The state of the loop: remaining in-degrees, the queue and the levels so far. -/
structure Progress where
  inDegree : String → Int
  queue : List String
  levels : List (List String)
  processed : Nat

/-- One turn: the queue becomes a level, and the nodes whose last dependency it
held become the next queue. -/
def advance (dependents : String → List String) (p : Progress) : Progress :=
  let (inDegree, next) := Tally.countdown p.inDegree (p.queue.flatMap dependents)
  { inDegree
    queue := next.insertionSort (· ≤ ·)
    levels := p.levels ++ [p.queue]
    processed := p.processed + p.queue.length }

/-- `for len(queue) > 0`. Every turn takes at least one node out, so as many
turns as there are nodes suffice (`drain_queue`). -/
def drain (dependents : String → List String) : Nat → Progress → Progress
  | 0, p => p
  | fuel + 1, p => if p.queue = [] then p else drain dependents fuel (advance dependents p)

def start (it : Ranging) (d : DAG) : Progress :=
  let inDegree := degrees (it.order [1] d.edgeList)
  { inDegree
    queue := ((it.order [2] d.nodes.keys).filter (fun name => inDegree name = 0)).insertionSort
      (· ≤ ·)
    levels := []
    processed := 0 }

def resolve (it : Ranging) (d : DAG) : Except DagError (List Level) :=
  let p := drain (dependents (it.order [1] d.edgeList)) d.len (start it d)
  if p.processed ≠ d.len then
    .error (.cycle p.processed d.len)
  else
    .ok (p.levels.map fun level => level.filterMap d.get)

end DAG
end Zester.States
