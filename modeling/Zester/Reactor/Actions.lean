import Zester.Jobs.Manager
import Zester.Reactor.Event

/-! The actions of a reaction: a job for some peels, an enrollment transition, a further event
or a line in the log. -/
namespace Zester.Reactor
open Jobs (Job DispatchError)

/-- What a block of a reaction file asks for. -/
inductive Deed where
  | dispatch (function target : String) (args : Value) (stateID : String) (timeout maxTargets : Int)
  | enroll (op enrollID requirePeel reason : String)
  | eventSend (tag : String) (data : Entries)
  | log (message : String)

structure Action where
  blockID : String
  deed : Deed

inductive Result where
  | dispatched
  | duplicate
  | refused
  | aborted
  | noTargets
  | error
  deriving DecidableEq, Repr

/-- A call that the executor makes to the outside. -/
inductive Effect where
  | dispatch (j : Job)
  | enroll (op enrollID requirePeel reason : String)
  | emit (subject : String) (ev : Event) (msgID : String)

inductive EnrollError where
  | duplicate
  | refused (text : String)
  | failed (text : String)

/-- What the executor is given to act with; what is missing is refused. -/
structure Seams where
  dispatch : Option (Job → Except DispatchError Unit)
  resolve : Option (String → Except String (List String))
  enroll : Option (String → String → String → String → Except EnrollError Unit)
  emit : Option (String → Event → String → Except String Unit)

def joined (parts : List String) : String := (String.singleton (Char.ofNat 0)).intercalate parts

section
variable (sha256Hex : String → String)

def deriveHex (parts : List String) : String := sha256Hex (joined parts)

def deriveJID (origin eventID ruleRef blockID : String) : String :=
  "rxn-" ++ String.ofList ((deriveHex sha256Hex [origin, eventID, ruleRef, blockID]).toList.take 32)

def deriveChainID (parentID ruleRef blockID : String) : String :=
  deriveHex sha256Hex [parentID, ruleRef, blockID]

end

structure Executor where
  sha256Hex : String → String
  seams : Seams
  maxChainDepth : Int
  now : Int

/-- In nanoseconds. -/
def second : Int := 1000000000

def defaultTimeout (function : String) : Int :=
  if function = "state.apply" then 5 * 60 * second
  else if function = "state.highstate" then 10 * 60 * second
  else 60 * second

/-- The job of a dispatch action. -/
def Executor.reactionJob (x : Executor) (ev : Event) (origin ruleRef blockID function : String)
    (args : Value) (targets : List String) (stateID : String) (timeout : Int) : Job where
  jid := deriveJID x.sha256Hex origin ev.id ruleRef blockID
  function := function
  args := args
  targets := targets
  timeout := timeout
  status := .pending
  created := x.now
  updated := x.now
  deadline := x.now + Jobs.effectiveTimeout timeout
  user := "reactor:" ++ ruleRef
  stateID := stateID
  metadata := [("source", "reactor"), ("rule", ruleRef), ("event_id", ev.id), ("event_tag", ev.tag),
    (Jobs.metadataReactorDepth, toString (ev.depth + 1))]

def Executor.executeDispatch (x : Executor) (ev : Event)
    (origin ruleRef blockID function target : String)
    (args : Value) (stateID : String) (timeout maxTargets : Int) :
    List Effect × Result × Option String :=
  match x.seams.dispatch, x.seams.resolve with
  | some dispatch, some resolve =>
    match resolve target with
    | .error text =>
      ([], .error, some ("reactor: resolve targets " ++ target.quote ++ ": " ++ text))
    | .ok targets =>
      if targets = [] then ([], .noTargets, none)
      else if 0 < maxTargets ∧ maxTargets < targets.length then ([], .aborted, none)
      else
        let j := x.reactionJob ev origin ruleRef blockID function args targets stateID
          (if timeout = 0 then defaultTimeout function else timeout)
        match dispatch j with
        | .ok () => ([.dispatch j], .dispatched, none)
        | .error (.jidConflict _) => ([.dispatch j], .duplicate, none)
        | .error (.claimPending text) | .error (.failed text) =>
          ([.dispatch j], .error, some ("reactor: dispatch reaction job " ++ j.jid ++ ": " ++ text))
  | _, _ => ([], .refused, none)

/-- Only events of the masters themselves may decide about enrollments. -/
def Executor.executeEnroll (x : Executor) (origin op enrollID requirePeel reason : String) :
    List Effect × Result × Option String :=
  if origin ≠ originMaster then ([], .refused, none)
  else if requirePeel = "" then ([], .refused, none)
  else
    match x.seams.enroll with
    | none => ([], .refused, none)
    | some enroll =>
      let call := Effect.enroll op enrollID requirePeel reason
      match enroll op enrollID requirePeel reason with
      | .ok () => ([call], .dispatched, none)
      | .error .duplicate => ([call], .duplicate, none)
      | .error (.refused _) => ([call], .refused, none)
      | .error (.failed text) =>
        ([call], .error, some ("reactor: enroll " ++ op ++ " " ++ enrollID ++ ": " ++ text))

/-- The event that an `event.send` action derives from another one. -/
def Executor.derivedEvent (x : Executor) (ev : Event) (ruleRef blockID tag : String)
    (data : Entries) : Event where
  id := deriveChainID x.sha256Hex ev.id ruleRef blockID
  tag := "reaction/" ++ tag
  data := data
  ts := some x.now
  v := Jobs.protocolVersion
  origin := "reaction:" ++ ruleRef
  depth := ev.depth + 1

def Executor.executeEventSend (x : Executor) (ev : Event) (ruleRef blockID tag : String)
    (data : Entries) : List Effect × Result × Option String :=
  match x.seams.emit with
  | none => ([], .refused, none)
  | some emit =>
    let derived := x.derivedEvent ev ruleRef blockID tag data
    if 0 < x.maxChainDepth ∧ x.maxChainDepth ≤ derived.depth then ([], .refused, none)
    else
      let subject := masterEventSubject ("reaction." ++ dottedTag tag)
      match emit subject derived derived.id with
      | .ok () => ([.emit subject derived derived.id], .dispatched, none)
      | .error text =>
        ([.emit subject derived derived.id], .error,
          some ("reactor: emit derived event " ++ tag ++ ": " ++ text))

/-- One action, with the calls that it makes, its label and the error of a failure that may pass. -/
def Executor.execute (x : Executor) (ev : Event) (origin ruleRef : String) (act : Action) :
    List Effect × Result × Option String :=
  match act.deed with
  | .dispatch function target args stateID timeout maxTargets =>
    x.executeDispatch ev origin ruleRef act.blockID function target args stateID timeout maxTargets
  | .enroll op enrollID requirePeel reason => x.executeEnroll origin op enrollID requirePeel reason
  | .eventSend tag data => x.executeEventSend ev ruleRef act.blockID tag data
  | .log _ => ([], .dispatched, none)

end Zester.Reactor
