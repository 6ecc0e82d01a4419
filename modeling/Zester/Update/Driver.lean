import Zester.Lib.Script
import Zester.Update.Handler
import Zester.Update.Rollout

/-! The driver of a rollout: batch after batch, the nodes are probed, prepared, applied and
confirmed. The commands of a phase go to all its nodes at once. -/
namespace Zester.Update

/-- Why a wait came to an end. A wait that does not look out for one of these takes it for its
end. -/
inductive Wake where
  | aborted
  | cancelled (text : String)
  | elapsed
  /-- Only for the wait that looks at the record from time to time. -/
  | poll

/-- What the driver and its goroutines ask for. -/
inductive RolloutOp : Type → Type where
  /-- Whether the abort channel is closed. -/
  | aborted : RolloutOp Bool
  /-- Whether the context is cancelled. -/
  | cancelled : RolloutOp Bool
  | now : RolloutOp Int
  | wait (duration : Int) : RolloutOp Wake
  | request (subject : String) (cmd : UpdateCommand) : RolloutOp (Except String UpdateResponse)
  /-- Nothing if there is no status bucket, or no status. -/
  | getNodeStatus (component nodeID : String) : RolloutOp (Option NodeReport)
  /-- From the cache of the phase or from the bucket. -/
  | getManifest (component goos goarch version : String) : RolloutOp (Except String BinaryManifest)
  | save (r : Rollout) : RolloutOp (Except String Nat)
  | get (id : String) : RolloutOp (Except String Rollout)

inductive NodeAction where
  | skip
  | prepare
  | apply
  | confirm
  deriving DecidableEq, Repr

/-- What a goroutine sends to the channel of its phase: `nodeErr`, `probeResult` or `outcome`. -/
structure NodeMessage where
  nodeID : String
  err : Option String := none
  action : NodeAction := .skip
  note : String := ""
  soakDone : Bool := false
  status : String := ""

abbrev Errand := Script RolloutOp NodeMessage
abbrev Drive := Driver RolloutOp NodeMessage

def updateCmdSubject (id : String) : String := "zester.update.cmd." ++ id

/-- `TrimPrefix` of a `v` after `TrimSpace`. -/
def versionLabel (version : String) : String :=
  trimPrefix (String.ofList (trimSpace version.toList)) "v"

def sameVersion (a b : String) : Bool := versionLabel a ≠ "" && versionLabel a = versionLabel b

def labelOr (s fallback : String) : String := if s = "" then fallback else s

def probeBusyRetries : Nat := 12
def probeBusyWait : Int := 5 * secondNanos

section
variable (config : RolloutConfig) (nodeID : String)

/-- The answer to a command, or why there is none that counts. -/
def answered (mark : String) : Except String UpdateResponse → Except String UpdateResponse
  | .error text => .error (mark ++ text)
  | .ok resp =>
    if resp.status = "error" then .error (mark ++ "node error: " ++ resp.error) else .ok resp

def resetNode (probe : UpdateResponse) (state : HandlerState) :
    Script RolloutOp (Except String UpdateResponse) := do
  let reply ← Script.ask (.request (updateCmdSubject nodeID)
    { command := .rollback, component := config.component })
  return answered ("reset " ++ state.text ++ " " ++ labelOr probe.version "binary" ++ ": ") reply

/-- A node that holds something else is rolled back before it is prepared. -/
def resetThenPrepare (probe : UpdateResponse) (state : HandlerState) (note : String) : Errand := do
  match ← resetNode config nodeID probe state with
  | .error text => return { nodeID := nodeID, err := some text }
  | .ok _ =>
    return { nodeID := nodeID, action := .prepare, note := note ++ labelOr probe.version "binary" }

/-- A node in the middle of a step is asked again after a while. -/
def probeLater (again : Errand) : Errand := do
  match ← Script.ask (.wait probeBusyWait) with
  | .aborted => return { nodeID := nodeID, err := some "aborted" }
  | .cancelled text => return { nodeID := nodeID, err := some text }
  | .elapsed | .poll => again

/-- What a status comes to. -/
def decideProbe (resp : UpdateResponse) (again : Errand) : Errand :=
  match resp.state with
  | some .idle | some .confirmed =>
    if sameVersion resp.runningVersion config.version then
      return { nodeID := nodeID, note := "already running " ++ resp.runningVersion }
    else return { nodeID := nodeID, action := .prepare }
  | some .staged =>
    if sameVersion resp.version config.version then
      return { nodeID := nodeID, action := .apply, note := "resumed from staged" }
    else resetThenPrepare config nodeID resp .staged "discarded staged "
  | some .soaking =>
    if sameVersion resp.version config.version then
      return {
        nodeID := nodeID
        action := .confirm
        note := if resp.soakPassed then
          "resumed from soaking (soak already passed)" else "resumed from soaking"
        soakDone := resp.soakPassed }
    else resetThenPrepare config nodeID resp .soaking "rolled back soaking "
  | some .preparing | some .applying | some .rollingBack => probeLater nodeID again
  | none => return { nodeID := nodeID, err := some "status probe: unknown node state" }

def probeNode : Nat → Errand
  | 0 => return { nodeID := nodeID, err := some "node still busy after 1m0s" }
  | attempts + 1 => do
    if ← Script.ask .aborted then return { nodeID := nodeID, err := some "aborted" }
    else
      let reply ← Script.ask (.request (updateCmdSubject nodeID)
        { command := .status, component := config.component })
      match answered "status probe: " reply with
      | .error text => return { nodeID := nodeID, err := some text }
      | .ok resp => decideProbe config nodeID resp (probeNode attempts)

/-- The goroutine of `runBatchCommand`. -/
def commandNode (cmd : CommandName) : Errand := do
  if ← Script.ask .aborted then return { nodeID := nodeID, err := some "aborted" }
  else
    let report ← Script.ask (.getNodeStatus config.component nodeID)
    let goos := (report.map (·.goos)).getD "linux"
    let goarch := (report.map (·.goarch)).getD "amd64"
    match ← Script.ask (.getManifest config.component goos goarch config.version) with
    | .error text => return { nodeID := nodeID, err := some ("manifest: " ++ text) }
    | .ok m =>
      match ← Script.ask (.request (updateCmdSubject nodeID) {
          command := cmd
          version := config.version
          component := config.component
          sha256 := m.sha256
          objectKey := m.objectKey }) with
      | .error text => return { nodeID := nodeID, err := some ("request: " ++ text) }
      | .ok resp =>
        if resp.status = "error" then
          return { nodeID := nodeID, err := some ("node error: " ++ resp.error) }
        else return { nodeID := nodeID }

/-- A node that holds the version of the rollout is rolled back. -/
def revertHeld (probe : UpdateResponse) (held : String) : Errand :=
  if probe.version ≠ "" ∧ !sameVersion probe.version config.version then
    return {
      nodeID := nodeID
      note :=
        "abort: left " ++ held ++ " " ++ probe.version ++ " alone (not this rollout's version)" }
  else do
    match answered "" (← Script.ask (.request (updateCmdSubject nodeID)
        { command := .rollback, component := config.component })) with
    | .error text =>
      return { nodeID := nodeID, note := "abort: rollback from " ++ held ++ " failed: " ++ text }
    | .ok _ =>
      return {
        nodeID := nodeID, status := "rolled_back", note := "rolled back on abort from " ++ held }

/-- The goroutine of `revertBatch`. -/
def revertNode : Errand := do
  let reply ← Script.ask (.request (updateCmdSubject nodeID)
    { command := .status, component := config.component })
  match answered "" reply with
  | .error text => return { nodeID := nodeID, note := "abort: status probe failed: " ++ text }
  | .ok probe =>
    match probe.state with
    | some .preparing | some .staged | some .applying | some .soaking =>
      revertHeld config nodeID probe ((probe.state.map HandlerState.text).getD "")
    | some .idle | some .confirmed | some .rollingBack | none => return { nodeID := nodeID }

end

/-- The entry of a node, which is added if there is none. -/
def Rollout.withResult (r : Rollout) (nodeID : String) (change : NodeResult → NodeResult) :
    Rollout :=
  if r.nodeResults.any (·.id = nodeID) then
    { r with nodeResults := r.nodeResults.map fun nr => if nr.id = nodeID then change nr else nr }
  else { r with nodeResults := r.nodeResults ++ [change { id := nodeID }] }

inductive SaveError where
  | abortedExternally
  | superseded
  | failed (text : String)

def rolloutSaveRetries : Nat := 3
def rolloutSaveRetryBackoff : Int := 200 * 1000000

section
variable (driverID : String)

/-- How an attempt to save came out. -/
inductive SaveAttempt where
  | ended (r : Rollout) (failure : Option SaveError)
  | again (r : Rollout) (text : String)

/-- One attempt; a failed save is looked into by reading the record. -/
def trySave (r : Rollout) : Drive SaveAttempt := do
  let stamped := { r with driverHeartbeat := ← Driver.ask .now }
  match ← Driver.ask (.save stamped) with
  | .ok revision => return .ended { stamped with revision := revision } none
  | .error text =>
    match ← Driver.ask (.get r.id) with
    | .error _ => return .again stamped text
    | .ok persisted =>
      if persisted.state = .aborted then return .ended stamped (some .abortedExternally)
      else if persisted.driverID ≠ "" ∧ persisted.driverID ≠ driverID then
        return .ended stamped (some .superseded)
      else return .again { stamped with revision := persisted.revision } text

/-- Before every attempt but the first. -/
def backoff (lastErr : Option String) : Drive Wake :=
  if lastErr.isSome then Driver.ask (.wait rolloutSaveRetryBackoff) else pure .elapsed

/-- `saveStateLocked` with some attempts left. -/
def saveStateFrom (lastErr : Option String) (r : Rollout) : Nat → Drive (Rollout × Option SaveError)
  | 0 => return (r, some (.failed (lastErr.getD "")))
  | attempts + 1 => do
    match ← backoff lastErr with
    | .cancelled text =>
      return (r, some (.failed ("update: rollout save " ++ r.id ++ ": " ++ text)))
    | .aborted | .elapsed | .poll =>
      match ← trySave driverID r with
      | .ended r failure => return (r, failure)
      | .again r text => saveStateFrom (some text) r attempts

def saveStateLocked (r : Rollout) : Drive (Rollout × Option SaveError) :=
  saveStateFrom driverID none { r with driverID := driverID } rolloutSaveRetries

/-- The results of so many goroutines, in the order of their arrival. -/
def receiveAll : Nat → Drive (List NodeMessage)
  | 0 => return []
  | n + 1 => do
    let first ← Driver.receive
    return first :: (← receiveAll n)

def recordRevert (now : Int) (r : Rollout) (o : NodeMessage) : Rollout :=
  if o.status = "" ∧ o.note = "" then r
  else r.withResult o.nodeID fun nr =>
    let nr' := if o.status ≠ "" then { nr with status := o.status, error := "" } else nr
    { nr' with note := o.note, updated := now }

def revertBatch (r : Rollout) : Drive Rollout := do
  let batch := r.batches.getD r.currentBatch []
  if batch = [] then return r
  else
    Driver.gather (batch.map (revertNode r.config))
    let now ← Driver.ask .now
    let outcomes ← receiveAll batch.length
    return outcomes.foldl (recordRevert now) r

def finishAborted (r : Rollout) : Drive Unit := do
  let r ← revertBatch r
  let (r, _) ← saveStateLocked driverID { r with state := .aborting }
  let now ← Driver.ask .now
  let _ ← saveStateLocked driverID { r with state := .aborted, finishedAt := some now }
  return ()

def abortForPersistFailure (r : Rollout) (cause : String) : Drive Unit := do
  let now ← Driver.ask .now
  let _ ← saveStateLocked driverID { r with
    state := .aborted
    finishedAt := some now
    error := "aborted: rollout state persistence failed: " ++ cause }
  return ()

def handlePersistError (r : Rollout) : SaveError → Drive Unit
  | .abortedExternally => do
    let _ ← revertBatch r
    return ()
  | .superseded => return ()
  | .failed text => do
    if ← Driver.ask .cancelled then return ()
    else abortForPersistFailure driverID r text

/-- How the driver goes on after a phase. -/
inductive BatchOutcome where
  | ok
  | abort
  | stop
  deriving DecidableEq, Repr

/-- The end of both loops over results: the record is saved, and the limit looked at. -/
def settle (recorded : Rollout) : Drive (Rollout × BatchOutcome) := do
  let (r, failure) ← saveStateLocked driverID recorded
  match failure with
  | some e =>
    handlePersistError driverID r e
    return (r, .stop)
  | none => return (r, if r.config.maxFailed ≤ r.failedCount then .abort else .ok)

/-- What one result of a phase does to the record. -/
def recordResult (success : String) (now : Int) (r : Rollout) (res : NodeMessage) : Rollout :=
  match res.err with
  | some text =>
    { r.withResult res.nodeID fun nr => { nr with
      status := "failed", error := text, updated := now } with failedCount := r.failedCount + 1 }
  | none =>
    r.withResult res.nodeID fun nr => { nr with status := success, error := "", updated := now }

/-- The loop of `runBatchCommand` over the results. -/
def collectResults (success : String) : Nat → Rollout → Drive (Rollout × BatchOutcome)
  | 0, r => return (r, .ok)
  | n + 1, r => do
    let res ← Driver.receive
    let now ← Driver.ask .now
    let settled ← settle driverID (recordResult success now r res)
    if settled.2 = .ok then collectResults success n settled.1 else return settled

def runBatchCommand (r : Rollout) (batch : List String) (cmd : CommandName) (success : String) :
    Drive (Rollout × BatchOutcome) := do
  Driver.gather (batch.map fun nodeID => commandNode r.config nodeID cmd)
  collectResults driverID success batch.length r

structure BatchPlan where
  prepare : List String := []
  apply : List String := []
  confirm : List String := []
  needSoak : Bool := false

/-- What one probe does to the record. -/
def recordProbe (now : Int) (r : Rollout) (res : NodeMessage) : Rollout :=
  match res.err with
  | some text =>
    { r.withResult res.nodeID fun nr => { nr with
      status := "failed", error := text, note := "", updated := now } with
      failedCount := r.failedCount + 1 }
  | none =>
    r.withResult res.nodeID fun nr =>
      let nr' := if res.action = .skip then { nr with status := "skipped" } else nr
      { nr' with error := "", note := res.note, updated := now }

/-- What one probe adds to the plan. -/
def BatchPlan.add (plan : BatchPlan) (res : NodeMessage) : BatchPlan :=
  if res.err.isSome then plan
  else
    match res.action with
    | .skip => plan
    | .prepare => { plan with prepare := plan.prepare ++ [res.nodeID], needSoak := true }
    | .apply => { plan with apply := plan.apply ++ [res.nodeID], needSoak := true }
    | .confirm =>
      { plan with
        confirm := plan.confirm ++ [res.nodeID], needSoak := plan.needSoak || !res.soakDone }

/-- The loop of `planBatch` over the sorted results. -/
def considerProbes :
    List NodeMessage → Rollout → BatchPlan → Drive (Rollout × BatchPlan × BatchOutcome)
  | [], r, plan => return (r, plan, .ok)
  | res :: rest, r, plan => do
    let now ← Driver.ask .now
    match ← settle driverID (recordProbe now r res) with
    | (r, .ok) => considerProbes rest r (plan.add res)
    | (r, .abort) => return (r, plan.add res, .abort)
    | (r, .stop) => return (r, plan, .stop)

def planBatch (r : Rollout) (batch : List String) : Drive (Rollout × BatchPlan × BatchOutcome) := do
  Driver.gather (batch.map fun nodeID => probeNode r.config nodeID probeBusyRetries)
  let collected ← receiveAll batch.length
  considerProbes driverID (collected.insertionSort fun a b => a.nodeID ≤ b.nodeID) r {}

def isAbortedInKV (id : String) : Drive Bool := do
  match ← Driver.ask (.get id) with
  | .error _ => return false
  | .ok persisted => return persisted.state = .aborted

def pollInterval : Int := 5 * secondNanos

/-- `waitOrAbort` with so many polls before the deadline; true if the driver has to stop. -/
def waitFrom (r : Rollout) (duration : Int) : Nat → Drive Bool
  | 0 => return false
  | polls + 1 => do
    match ← Driver.ask (.wait duration) with
    | .aborted =>
      finishAborted driverID r
      return true
    | .elapsed | .cancelled _ => return false
    | .poll =>
      if ← isAbortedInKV r.id then
        let _ ← revertBatch r
        return true
      else waitFrom r duration polls

def waitOrAbort (r : Rollout) (duration : Int) : Drive Bool :=
  waitFrom driverID r duration ((duration / pollInterval).toNat + 1)

/-- A phase of a batch, which is left out without nodes. Nothing where the driver has to stop. -/
def phase (r : Rollout) (nodes : List String) (cmd : CommandName) (success : String) :
    Drive (Option Rollout) :=
  if nodes = [] then return some r
  else do
    match ← runBatchCommand driverID r nodes cmd success with
    | (r, .ok) => return some r
    | (r, .abort) =>
      finishAborted driverID r
      return none
    | (_, .stop) => return none

/-- The phases that follow the plan of a batch. -/
def runPlan (r : Rollout) (plan : BatchPlan) : Drive (Option Rollout) := do
  match ← phase driverID r plan.prepare .prepare "prepared" with
  | none => return none
  | some r =>
    let applyNodes := plan.prepare ++ plan.apply
    match ← phase driverID r applyNodes .apply "applied" with
    | none => return none
    | some r =>
      if ← (if plan.needSoak then waitOrAbort driverID r r.config.soakTime else pure false) then
        return none
      else phase driverID r (applyNodes ++ plan.confirm) .confirm "confirmed"

/-- One batch, from its start to its last confirm. -/
def runBatch (r : Rollout) (index : Nat) (batch : List String) : Drive (Option Rollout) := do
  if ← Driver.ask .aborted then
    finishAborted driverID r
    return none
  else if ← isAbortedInKV r.id then
    let _ ← revertBatch r
    return none
  else
    match ← saveStateLocked driverID { r with state := .rolling, currentBatch := index } with
    | (r, some e) =>
      handlePersistError driverID r e
      return none
    | (r, none) =>
      match ← planBatch driverID r batch with
      | (r, _, .abort) =>
        finishAborted driverID r
        return none
      | (_, _, .stop) => return none
      | (r, plan, .ok) => runPlan driverID r plan

/-- The batches that are left; all but the last are followed by a pause. -/
def runBatches : Rollout → Nat → List (List String) → Drive (Option Rollout)
  | r, _, [] => return some r
  | r, index, batch :: rest => do
    match ← runBatch driverID r index batch with
    | none => return none
    | some r =>
      if ← (if rest = [] then pure false else waitOrAbort driverID r r.config.batchPause) then
        return none
      else runBatches r (index + 1) rest

def executeRollout (r : Rollout) : Drive Unit := do
  if r.state = .aborting then finishAborted driverID r
  else
    match ← runBatches driverID r r.currentBatch (r.batches.drop r.currentBatch) with
    | none => return ()
    | some r =>
      let now ← Driver.ask .now
      let _ ← saveStateLocked driverID { r with state := .completed, finishedAt := some now }
      return ()

end
end Zester.Update
