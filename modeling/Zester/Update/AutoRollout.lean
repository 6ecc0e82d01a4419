import Zester.Jobs.Record
import Zester.Lib.Comparing

/-! The order of versions, and the decision whether a promoted version is rolled out. -/
namespace Zester.Update
open Jobs (atoi)

/-- Two segments, as numbers if both are numbers. -/
def compareSegment (av bv : String) : Int :=
  match atoi av, atoi bv with
  | some an, some bn => if an ≠ bn then (if an < bn then -1 else 1) else 0
  | _, _ => if av ≠ bv then (if av < bv then -1 else 1) else 0

/-- `strings.Split` at the dots, behind a leading `v`. -/
def segments (version : String) : List String :=
  let text := match version.toList with
    | 'v' :: text => text
    | text => text
  (text.splitOn '.').map String.ofList

def compareVersions (a b : String) : Int :=
  let as := segments a
  let bs := segments b
  lexicographic compareSegment "" (max as.length bs.length) as bs

structure Manifest where
  version : String
  component : String
  promoted : Bool
  deriving DecidableEq

structure NodeStatus where
  id : String
  version : String
  degraded : Bool

inductive RolloutPhase where
  | created
  | preparing
  | rolling
  | soaking
  | completed
  | aborting
  | aborted
  deriving DecidableEq, Repr

structure RolloutState where
  id : String
  state : RolloutPhase
  component : String
  dryRun : Bool

structure AutoRolloutPlan where
  component : String
  version : String
  generation : Nat
  nodeIDs : List String
  deriving DecidableEq

def rolloutTerminal (state : RolloutPhase) : Bool := state = .completed || state = .aborted

/-- `rolloutIDSanitize`. -/
def rolloutIDSanitize (version : String) : String :=
  String.ofList (version.toList.map fun c => if c.isAlphanum || c = '-' then c else '-')

def autoRolloutBase (component version : String) : String :=
  "rol-auto-" ++ component ++ "-" ++ rolloutIDSanitize version

def autoRolloutID (component version : String) (generation : Nat) : String :=
  autoRolloutBase component version ++ "-r" ++ toString generation

/-- One manifest in the first loop of `PickAutoRollout`. -/
def considerManifest (component : String) (target : Option Manifest) :
    Option Manifest → Option Manifest
  | none => target
  | some m =>
    if !m.promoted || m.component ≠ component then target
    else
      match target with
      | none => some m
      | some t => if compareVersions m.version t.version > 0 then some m else some t

/-- The first loop: the promoted version that is rolled out. -/
def pickTarget (component : String) (manifests : List (Option Manifest)) : Option Manifest :=
  manifests.foldl (considerManifest component) none

/-- The second loop: the number of the next run, or nothing if there is to be none. -/
def nextGeneration (component base : String) (generation : Nat) :
    List (Option RolloutState) → Option Nat
  | [] => some generation
  | none :: rollouts => nextGeneration component base generation rollouts
  | some r :: rollouts =>
    if r.component = component && !rolloutTerminal r.state && !r.dryRun then none
    else if (base ++ "-r").toList.isPrefixOf r.id.toList || r.id = base then
      if r.state = .aborted then none
      else nextGeneration component base (generation + 1) rollouts
    else nextGeneration component base generation rollouts

/-- The third loop: the nodes below the version. -/
def laggingNodes (version : String) (statuses : List (Option NodeStatus)) : List String :=
  statuses.filterMap fun s => s.bind fun s =>
    if s.degraded then none
    else if s.version ≠ "" ∧ compareVersions s.version version ≥ 0 then none
    else some s.id

def pickAutoRollout (component : String) (manifests : List (Option Manifest))
    (statuses : List (Option NodeStatus)) (rollouts : List (Option RolloutState)) :
    Option AutoRolloutPlan := do
  let target ← pickTarget component manifests
  let generation ← nextGeneration component (autoRolloutBase component target.version) 1 rollouts
  let nodes := laggingNodes target.version statuses
  if nodes = [] then none
  else return ⟨component, target.version, generation, nodes⟩

end Zester.Update
