import Zester.Jobs.Manager

/-! The watcher of a job. Each critical section is one function on what the watcher has
collected; `Watch.step` interleaves them with the main loop and the end of the watch. -/
namespace Zester.Jobs

structure Return where
  jid : String := ""
  peelID : String := ""
  success : Bool := false
  error : String := ""
  /-- A synthetic return, written for a peel that did not answer. -/
  unreachable : Bool := false
  timestamp : Int := 0
  deriving DecidableEq, Repr

def Return.succeeded (r : Return) : Bool := r.success && r.error == ""

def unreachableError : String :=
  "UNREACHABLE: no heartbeat at dispatch and no ack after republish"

abbrev Returns := Table Return

/-- The peel of a subject `zester.job.<jid>.<ack|return>.<peel-id>`. -/
def subjectPeelID (subject : String) : Option String :=
  let parts := subject.toList.splitOn '.'
  let peelID := ['.'].intercalate (parts.drop 4)
  if parts.length < 5 || peelID.isEmpty then none else some (String.ofList peelID)

structure Watcher where
  job : Job
  redispatch : Bool := false
  ackWindow : Int := 0
  unreachableGrace : Int := 0
  acks : List String := []
  returns : Returns := ∅
  newReturns : List String := []
  canceled : Bool := false
  detached : Bool := false

def newWatcher (now : Int) (j : Job) : Watcher := { job := normalizeDeadline now j }

/-- `supersedesReturn`: whether a return takes the place of what is recorded for its peel. -/
def supersedesReturn (existing : Option Return) (incoming : Return) : Bool :=
  match existing with
  | none => true
  | some recorded => recorded.unreachable && !incoming.unreachable

namespace Watcher

def isTarget (w : Watcher) (peelID : String) : Bool := w.job.targets.contains peelID

def complete (w : Watcher) : Bool := w.job.targetCount ≤ w.returns.entries.length

def record (w : Watcher) (r : Return) : Watcher :=
  { w with returns := w.returns.insert r.peelID r, newReturns := w.newReturns ++ [r.peelID] }

def targetReturns (w : Watcher) (returns : List Return) : List Return :=
  returns.filter fun r => r.peelID ≠ "" && w.isTarget r.peelID

def seedReturns (w : Watcher) (returns : List Return) : Watcher :=
  { w with
    returns := (w.targetReturns returns).foldl (fun all r => all.insert r.peelID r) w.returns }

def mergeReturn (w : Watcher) (r : Return) : Watcher :=
  if supersedesReturn (w.returns.lookup r.peelID) r then w.record r else w

def seedReturnsPersist (w : Watcher) (returns : List Return) : Watcher :=
  (w.targetReturns returns).foldl mergeReturn w

/-- The watcher after the merge, and whether the watch may stop. -/
def mergeReturns (w : Watcher) (returns : List Return) : Watcher × Bool :=
  let merged := (w.targetReturns returns).foldl mergeReturn w
  let added := w.returns.entries.length < merged.returns.entries.length
  (merged, added && merged.complete)

/-- An ack on a subject, with the peel that its payload names. -/
def receiveAck (w : Watcher) (subject : String) (payload : Option String) : Watcher :=
  match subjectPeelID subject, payload with
  | some peelID, some claimed =>
    if claimed = peelID ∧ w.isTarget peelID then { w with acks := peelID :: w.acks } else w
  | _, _ => w

/-- A return on a subject: the watcher after it, and whether the watch may stop. -/
def receiveReturn (w : Watcher) (subject : String) (payload : Option Return) : Watcher × Bool :=
  match subjectPeelID subject, payload with
  | some peelID, some ret =>
    if ret.peelID ≠ peelID then (w, false)
    else if !w.isTarget peelID then (w, false)
    -- the echo of a synthetic return must not take the place of a real one
    else if ret.unreachable then (w, false)
    else
      match w.returns.lookup peelID with
      | some existing =>
        if existing.unreachable then (w.record ret, (w.record ret).complete) else (w, false)
      | none => (w.record ret, (w.record ret).complete)
  | _, _ => (w, false)

/-- The targets that were heard, unless the watch is over anyway. -/
def heardTargets (w : Watcher) : Option (List String) :=
  if w.canceled || w.detached then none else some (w.acks ++ w.returns.keys)

def unreachableReturn (w : Watcher) (now : Int) (target : String) : Return :=
  { jid := w.job.jid, peelID := target, success := false, error := unreachableError,
    unreachable := true, timestamp := now }

def markTarget (now : Int) (w : Watcher) (target : String) : Watcher :=
  if target ∈ w.acks || (w.returns.lookup target).isSome then w
  else w.record (w.unreachableReturn now target)

/-- The silent targets get a synthetic return; the watch stops if that completes it. -/
def markUnreachable (w : Watcher) (now : Int) : Watcher × Bool :=
  if w.canceled || w.detached then (w, false)
  else
    let marked := w.job.targets.foldl (markTarget now) w
    let any := w.newReturns.length < marked.newReturns.length
    (marked, any && marked.complete)

def persistReturns (w : Watcher) (fails : String → Bool) : Watcher × List Return :=
  let queued := w.newReturns.dedup.filter fun peelID => (w.returns.lookup peelID).isSome
  ({ w with newReturns := queued.filter fails },
    (queued.filter fun peelID => !fails peelID).filterMap w.returns.lookup)

def returnCount (w : Watcher) : Nat := w.returns.entries.length

def successCount (w : Watcher) : Nat := w.returns.entries.countP fun entry => entry.2.succeeded

def failedCount (w : Watcher) : Nat :=
  w.returns.entries.countP fun entry => !entry.2.success || entry.2.error != ""

def terminalStatus (w : Watcher) : Terminal :=
  if w.canceled && w.returnCount < w.job.targetCount then ⟨.canceled, rfl⟩
  else if w.job.targetCount ≤ w.returnCount && 0 < w.failedCount then ⟨.failed, rfl⟩
  else if w.job.targetCount ≤ w.returnCount then ⟨.complete, rfl⟩
  else if 0 < w.returnCount then ⟨.partial_, rfl⟩
  else ⟨.timeout, rfl⟩

end Watcher

/-- In nanoseconds. -/
def defaultAckWindow : Int := 5 * 1000000000

/-- In nanoseconds. -/
def defaultUnreachableGrace : Int := 5 * 1000000000

/-- Whether the ack window is watched, and whether the silent targets are marked after it. -/
def Watcher.timers (w : Watcher) : Bool × Bool :=
  let window := if w.ackWindow = 0 then defaultAckWindow else w.ackWindow
  let grace := if w.unreachableGrace = 0 then defaultUnreachableGrace else w.unreachableGrace
  let armed := w.redispatch && 0 < window
  (armed, armed && 0 < grace)

/-- Where `Watch` stands. -/
inductive Phase where
  | created
  | subscribing
  | subscribed
  | waiting (ack unreachable : Bool)
  | finishing
  | deciding
  | finalizing (status : Terminal)
  | flushed (status : Terminal)
  /-- The counts were read, with what the cancel flag was then; the record is written. -/
  | counted (final : Final) (canceled : Bool)
  /-- A detached watcher leaves the job to others. -/
  | left

structure Watch where
  watcher : Watcher
  phase : Phase := .created
  /-- Both subscriptions are active. -/
  live : Bool := false
  /-- The context of the watch is done. -/
  stopped : Bool := false
  heard : Option (List String) := none
  /-- The returns that were written to their keys, oldest first. -/
  written : List Return := []

inductive Event where
  /-- `Watch` is called, with the deadline passed or not. -/
  | start (expired : Bool)
  | subscribe
  | subscribeFails
  | checkSeeds
  | ack (subject : String) (payload : Option String)
  | returned (subject : String) (payload : Option Return)
  | merge (returns : List Return)
  | cancel
  | detach
  | ackWindow
  | markUnreachable (now : Int)
  | persist (fails : String → Bool)
  | timer
  /-- The main loop finds the context done. -/
  | stop
  | finish
  | decide
  | flush (fails : String → Bool)
  | count (now : Int)

namespace Watch

def stopIf (w : Watch) (result : Watcher × Bool) : Watch :=
  { w with watcher := result.1, stopped := w.stopped || result.2 }

def persist (w : Watch) (fails : String → Bool) : Watch :=
  let result := w.watcher.persistReturns fails
  { w with watcher := result.1, written := w.written ++ result.2 }

def step (w : Watch) (event : Event) : Option Watch :=
  match event, w.phase with
  | .start expired, .created =>
    some { w with
      stopped := w.watcher.canceled || w.watcher.detached
      phase := if expired then .finishing else .subscribing }
  | .subscribe, .subscribing => some { w with live := true, phase := .subscribed }
  | .subscribeFails, .subscribing => some { w with phase := .finalizing ⟨.failed, rfl⟩ }
  | .checkSeeds, .subscribed =>
    some { w with
      stopped := w.stopped || (0 < w.watcher.job.targetCount && w.watcher.complete)
      phase := .waiting w.watcher.timers.1 w.watcher.timers.2 }
  | .ack subject payload, _ =>
    if w.live then some { w with watcher := w.watcher.receiveAck subject payload } else none
  | .returned subject payload, _ =>
    if w.live then some (w.stopIf (w.watcher.receiveReturn subject payload)) else none
  | .merge returns, _ =>
    if w.live then some (w.stopIf (w.watcher.mergeReturns returns)) else none
  | .cancel, _ => some { w with watcher := { w.watcher with canceled := true }, stopped := true }
  | .detach, _ => some { w with watcher := { w.watcher with detached := true }, stopped := true }
  | .persist fails, _ => some (w.persist fails)
  | .ackWindow, .waiting true unreachable =>
    some { w with heard := w.watcher.heardTargets, phase := .waiting false unreachable }
  | .markUnreachable now, .waiting ack true =>
    let marked := w.watcher.markUnreachable now
    some { w.stopIf marked with phase := if marked.2 then .finishing else .waiting ack false }
  | .timer, .waiting _ _ => some { w with phase := .finishing }
  | .stop, .waiting _ _ => if w.stopped then some { w with phase := .finishing } else none
  | .finish, .finishing =>
    some { w with
      phase := if w.watcher.detached && !w.watcher.complete then .left else .deciding }
  | .decide, .deciding => some { w with phase := .finalizing w.watcher.terminalStatus }
  | .flush fails, .finalizing status => some { w.persist fails with phase := .flushed status }
  | .count now, .flushed status =>
    some { w with
      phase := .counted ⟨status, w.watcher.returnCount, w.watcher.successCount, now⟩
        w.watcher.canceled }
  | _, _ => none

def run (w : Watch) : List Event → Option Watch
  | [] => some w
  | event :: events => (w.step event).bind fun w' => w'.run events

def course (w : Watch) : Course where
  heard := w.heard
  final := match w.phase with
    | .counted final _ => some final
    | _ => none

end Watch
end Zester.Jobs
