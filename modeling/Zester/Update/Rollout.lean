import Zester.Text
import Zester.Update.AutoRollout

/-! Published binaries and the record of a rollout, as `StartRollout` creates it. -/
namespace Zester.Update

/-- In nanoseconds, like all times here. -/
def secondNanos : Int := 1000000000

/-- A manifest with what concerns its binary. -/
structure BinaryManifest extends Manifest where
  goos : String
  goarch : String
  sha256 : String
  objectKey : String
  published : Int
  minProtocol : Int
  /-- In seconds, with 0 for a manifest that has no expiry of its own and -1 for never. -/
  expiresAtUnix : Int
  deriving DecidableEq

namespace BinaryManifest

def defaultBinaryTTL : Int := 30 * 24 * 3600 * secondNanos

def ttlNever : Int := -1

/-- Nothing for a version that never expires. -/
def expiry (m : BinaryManifest) : Option Int :=
  if m.promoted || m.expiresAtUnix = ttlNever then none
  else if m.expiresAtUnix = 0 then some (m.published + defaultBinaryTTL)
  else some (m.expiresAtUnix * secondNanos)

def expired (m : BinaryManifest) (now : Int) : Bool := m.expiry.any fun exp => exp < now

def manifestKey (m : BinaryManifest) : String :=
  m.component ++ "." ++ m.goos ++ "." ++ m.goarch ++ "." ++ m.version

end BinaryManifest

def objectKeyFor (component goos goarch version : String) : String :=
  component ++ "/" ++ goos ++ "/" ++ goarch ++ "/" ++ version

/-- A status with the platform and the protocol that the node reports. -/
structure NodeReport extends NodeStatus where
  goos : String
  goarch : String
  protocol : Int

structure RolloutConfig where
  version : String
  component : String
  target : String
  batchSize : Int
  batchPercent : Int
  soakTime : Int
  batchPause : Int
  maxFailed : Int
  dryRun : Bool
  rolloutID : String
  deriving DecidableEq

def RolloutConfig.withDefaults (c : RolloutConfig) : RolloutConfig :=
  { c with
    target := if c.target = "" then "*" else c.target
    batchSize := if c.batchSize = 0 ∧ c.batchPercent = 0 then 1 else c.batchSize
    soakTime := if c.soakTime = 0 then 60 * secondNanos else c.soakTime
    batchPause := if c.batchPause = 0 then 30 * secondNanos else c.batchPause
    maxFailed := if c.maxFailed = 0 then 1 else c.maxFailed }

structure NodeResult where
  id : String
  status : String := ""
  error : String := ""
  updated : Int := 0
  note : String := ""
  deriving DecidableEq

/-- `RolloutState`. -/
structure Rollout where
  id : String
  config : RolloutConfig
  state : RolloutPhase
  batches : List (List String)
  nodeResults : List NodeResult
  currentBatch : Nat
  startedAt : Int
  finishedAt : Option Int
  failedCount : Int
  error : String
  driverID : String
  driverHeartbeat : Int
  revision : Nat
  deriving DecidableEq

/-- Another driver may still act for the rollout. -/
def Rollout.live (r : Rollout) : Bool := !rolloutTerminal r.state

/-- `computeBatches` from some point on; every step takes at least one node. -/
def chunks (size : Nat) : Nat → List String → List (List String)
  | 0, _ => []
  | _ + 1, [] => []
  | fuel + 1, ids => ids.take size :: chunks size fuel (ids.drop size)

def computeBatches (nodeIDs : List String) (batchSize batchPercent : Int) : List (List String) :=
  let size := if 0 < batchPercent then max (nodeIDs.length * batchPercent / 100) 1 else batchSize
  chunks (if size ≤ 0 then 1 else size.toNat) nodeIDs.length nodeIDs

/-- What `StartRollout` reads: the status of each node, and the manifests of the version. -/
structure Lookups where
  /-- Nothing without a status bucket. -/
  status : Option (String → Option NodeReport)
  manifest : String → String → Option BinaryManifest

/-- What becomes of one node. -/
inductive Eligibility where
  | eligible
  | degraded
  | incompatible (text : String)

def eligibility (manifest : String → String → Option BinaryManifest) (report : Option NodeReport)
    (nodeID : String) : Eligibility :=
  if report.any (·.degraded) then .degraded
  else
    let goos := (report.map (·.goos)).getD "linux"
    let goarch := (report.map (·.goarch)).getD "amd64"
    let protocol := (report.map (·.protocol)).getD 0
    match manifest goos goarch with
    | none => .eligible
    | some m =>
      if 0 < m.minProtocol ∧ protocol < m.minProtocol then
        .incompatible (nodeID ++ " (protocol " ++ toString protocol ++ " < " ++
          toString m.minProtocol ++ ")")
      else .eligible

def filterTargets (look : Lookups) (config : RolloutConfig) (nodeIDs : List String) :
    Except String (List String) :=
  match look.status with
  | none => .ok nodeIDs
  | some status =>
    if nodeIDs = [] then .ok nodeIDs
    else
      let verdicts := nodeIDs.map fun id => (id, eligibility look.manifest (status id) id)
      let incompatible := verdicts.filterMap fun v =>
        match v.2 with
        | .incompatible text => some text
        | _ => none
      let eligible := verdicts.filterMap fun v =>
        match v.2 with
        | .eligible => some v.1
        | _ => none
      let degraded := verdicts.countP fun v =>
        match v.2 with
        | .degraded => true
        | _ => false
      if incompatible ≠ [] then
        .error ("update: start rollout: manifest " ++ config.component ++ "/" ++ config.version ++
          " requires a newer node protocol; incompatible nodes: " ++ ", ".intercalate incompatible)
      else if eligible = [] then
        .error ("update: start rollout: no eligible nodes (" ++ toString degraded ++
          " degraded excluded)")
      else .ok eligible

/-- A call of `StartRollout`, with what it meets. -/
structure StartCall where
  config : RolloutConfig
  nodeIDs : List String
  look : Lookups
  ksuid : String
  now : Int
  driverID : String
  /-- The revision of the stored record, or why it was not stored. -/
  saved : Except String Nat

/-- The record that the call stores. -/
def startRollout (call : StartCall) : Except String Rollout := do
  let config := call.config.withDefaults
  let eligible ← filterTargets call.look config call.nodeIDs
  let id := if config.rolloutID = "" then "rol-" ++ call.ksuid else config.rolloutID
  match call.saved with
  | .error text => .error ("update: start rollout: " ++ text)
  | .ok revision =>
    return {
      id := id
      config := config
      state := .created
      batches :=
        computeBatches (eligible.insertionSort (· ≤ ·)) config.batchSize config.batchPercent
      nodeResults := []
      currentBatch := 0
      startedAt := call.now
      finishedAt := none
      failedCount := 0
      error := ""
      driverID := call.driverID
      driverHeartbeat := call.now
      revision := revision }

theorem startRollout_live (started : startRollout call = .ok r) :
    r.live = true ∧ r.config.component = call.config.component ∧
      r.config.version = call.config.version := by
  unfold startRollout at started
  dsimp only at started
  cases filtered : filterTargets call.look call.config.withDefaults call.nodeIDs with
  | error text => rw [filtered] at started; cases started
  | ok eligible =>
    rw [filtered] at started
    cases saved : call.saved with
    | error text => rw [saved] at started; cases started
    | ok revision =>
      rw [saved] at started
      cases started
      exact ⟨rfl, rfl, rfl⟩

end Zester.Update
