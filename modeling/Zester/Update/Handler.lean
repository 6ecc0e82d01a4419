import Mathlib.Data.List.Basic
import Zester.Update.Slots

/-! The update handler of a watchdog: the commands of the rollout controller, which are handled
one after the other, and the goroutines that watch over new binaries. -/
namespace Zester.Update

inductive HandlerState where
  | idle
  | preparing
  | staged
  | applying
  | soaking
  | confirmed
  | rollingBack
  deriving DecidableEq, Repr

def HandlerState.text : HandlerState → String
  | .idle => "idle"
  | .preparing => "preparing"
  | .staged => "staged"
  | .applying => "applying"
  | .soaking => "soaking"
  | .confirmed => "confirmed"
  | .rollingBack => "rolling_back"

inductive CommandName where
  | prepare
  | apply
  | confirm
  | rollback
  | status
  | unknown (name : String)
  deriving DecidableEq, Repr

structure UpdateCommand where
  command : CommandName
  version : String := ""
  component : String := ""
  sha256 : String := ""
  objectKey : String := ""

structure UpdateResponse where
  status : String
  version : String := ""
  hash : String := ""
  error : String := ""
  state : Option HandlerState := none
  uptime : String := ""
  soakPassed : Bool := false
  runningVersion : String := ""

/-- A run of `soakPeriod`, from the start of a new binary to its end. -/
structure Soak where
  /-- The child has not been seen healthy yet. -/
  waiting : Bool := true
  soakFails : Nat := 0
  soakPassed : Bool := false
  /-- The context was cancelled, by a confirm or a rollback. -/
  cancelled : Bool := false
  ended : Bool := false
  deriving DecidableEq

structure HandlerConfig (β : Type) where
  component : String
  healthRetries : Nat
  sha256 : β → String

structure Handler (β : Type) where
  state : HandlerState
  pendingVersion : String
  pendingHash : String
  soakPassed : Bool
  /-- The goroutine that `soakCancel` stops. -/
  soakCancel : Option Nat
  slots : SlotManager β
  /-- The goroutines so far. -/
  soaks : List Soak

def newHandler {β : Type} (slots : SlotManager β) : Handler β where
  state := .idle
  pendingVersion := ""
  pendingHash := ""
  soakPassed := false
  soakCancel := none
  slots := slots
  soaks := []

/-- What the object store and the supervisor answer while a command is handled. -/
structure Answers (β : Type) where
  object : Except String β := .error "no object"
  started : Except String Unit := .ok ()
  uptime : String := "0s"
  healthVersion : String := ""

section
variable (config : HandlerConfig β) (answers : Answers β)

/-- `BinaryStore.Download`. -/
def download (key expectedHash : String) : Except String β :=
  match answers.object with
  | .error text => .error ("update: download binary " ++ key.quote ++ ": " ++ text)
  | .ok data =>
    let digest := config.sha256 data
    if digest ≠ expectedHash then
      .error ("update: binary " ++ key.quote ++ " hash mismatch: got " ++ digest ++ ", want " ++
        expectedHash)
    else .ok data

/-- The answer to a command that does not fit the state. -/
def refusal (command : String) (state : HandlerState) : UpdateResponse :=
  { status := "error", state := some state,
    error := "cannot " ++ command ++ " in state " ++ state.text }

def failure (step text : String) : UpdateResponse :=
  { status := "error", error := step ++ ": " ++ text }

def handlePrepare (cmd : UpdateCommand) (h : Handler β) : Handler β × UpdateResponse :=
  if h.state ≠ .idle ∧ h.state ≠ .confirmed then (h, refusal "prepare" h.state)
  else
    match download config answers cmd.objectKey cmd.sha256 with
    | .error text => ({ h with state := .idle }, failure "download" text)
    | .ok data =>
      match h.slots.stage config.sha256 data cmd.sha256 with
      | (.error text, slots) => ({ h with state := .idle, slots := slots }, failure "stage" text)
      | (.ok (), slots) =>
        ({ h with
            state := .staged, slots := slots, pendingVersion := cmd.version,
            pendingHash := cmd.sha256, soakPassed := false },
          { status := "staged", hash := cmd.sha256, version := cmd.version })

def handleApply (h : Handler β) : Handler β × UpdateResponse :=
  if h.state ≠ .staged then (h, refusal "apply" h.state)
  else
    match h.slots.apply with
    | (.error text, slots) => ({ h with slots := slots }, failure "apply" text)
    | (.ok (), slots) =>
      match answers.started with
      | .error text =>
        ({ h with state := .idle, slots := slots.rollback.2 }, failure "start after apply" text)
      | .ok () =>
        ({ h with
            state := .soaking, slots := slots, soakCancel := some h.soaks.length,
            soakPassed := false, soaks := h.soaks ++ [{}] },
          { status := "applying", version := h.pendingVersion })

def cancelSoak (h : Handler β) : Handler β :=
  match h.soakCancel with
  | none => h
  | some id =>
    { h with
      soakCancel := none
      soaks := h.soaks.modify id fun soak => { soak with cancelled := true } }

def handleConfirm (h : Handler β) : Handler β × UpdateResponse :=
  if h.state ≠ .soaking then (h, refusal "confirm" h.state)
  else
    let h := cancelSoak { h with state := .confirmed, soakPassed := false }
    ({ h with slots := h.slots.confirm }, { status := "confirmed", version := h.pendingVersion })

/-- An error of `Slots.Rollback` is logged and nothing more. -/
def rollback (h : Handler β) : Handler β :=
  if h.state = .confirmed ∨ h.state = .idle then h
  else
    { h with
      state := .idle, slots := h.slots.rollback.2, pendingVersion := "", pendingHash := "",
      soakPassed := false }

def handleRollback (h : Handler β) : Handler β × UpdateResponse :=
  if h.state ≠ .soaking ∧ h.state ≠ .staged ∧ h.state ≠ .applying then
    (h, refusal "rollback" h.state)
  else (rollback (cancelSoak { h with state := .rollingBack }), { status := "rolled_back" })

def handleStatus (h : Handler β) : UpdateResponse :=
  { status := "ok", state := some h.state, version := h.pendingVersion, soakPassed := h.soakPassed,
    uptime := answers.uptime, runningVersion := answers.healthVersion }

/-- A command for another component is dropped without a reply. -/
def handleMessage (cmd : UpdateCommand) (h : Handler β) : Handler β × Option UpdateResponse :=
  if cmd.component ≠ "" ∧ config.component ≠ "" ∧ cmd.component ≠ config.component then (h, none)
  else
    match cmd.command with
    | .prepare => (handlePrepare config answers cmd h).map id some
    | .apply => (handleApply answers h).map id some
    | .confirm => (handleConfirm h).map id some
    | .rollback => (handleRollback h).map id some
    | .status => (h, some (handleStatus answers h))
    | .unknown name => (h, some { status := "error", error := "unknown command: " ++ name })

end

/-- What `soakPeriod` waits for. -/
inductive SoakEvent where
  | healthy
  | unhealthy
  | done
  | deadline
  | timer
  | ready (ok : Bool)
  deriving DecidableEq, Repr

/-- What the goroutine does next: it goes on, ends, or calls `rollback` and ends. -/
inductive SoakStep where
  | on (soak : Soak)
  | stop
  | rollBack

/-- One event of `soakPeriod`; nothing for one that cannot occur. -/
def Soak.next (healthRetries : Nat) (soak : Soak) : SoakEvent → Option SoakStep
  | .healthy => if soak.waiting then some (.on { soak with waiting := false }) else none
  | .unhealthy =>
    if soak.waiting then some (if soak.cancelled then .stop else .rollBack) else none
  | .done => if ¬ soak.waiting ∧ soak.cancelled then some .stop else none
  | .deadline => if soak.waiting then none else some .rollBack
  | .timer =>
    if soak.waiting ∨ soak.soakPassed then none else some (.on { soak with soakPassed := true })
  | .ready ok =>
    if soak.waiting then none
    else if soak.soakPassed then some (.on soak)
    else if ok then some (.on { soak with soakFails := 0 })
    else if soak.cancelled then some .stop
    else if soak.soakFails + 1 ≥ healthRetries then some .rollBack
    else some (.on { soak with soakFails := soak.soakFails + 1 })

/-- A goroutine takes the event, if it is running and waits for it. -/
def soakPeriod {β : Type} (healthRetries : Nat) (id : Nat) (event : SoakEvent) (h : Handler β) :
    Handler β :=
  match (h.soaks[id]?).filter fun soak => !soak.ended with
  | none => h
  | some soak =>
    match soak.next healthRetries event with
    | none => h
    | some (.on soak') =>
      { h with
        soaks := h.soaks.set id soak'
        soakPassed := h.soakPassed || (event = .timer && h.state = .soaking) }
    | some .stop => { h with soaks := h.soaks.set id { soak with ended := true } }
    | some .rollBack => rollback { h with soaks := h.soaks.set id { soak with ended := true } }

inductive Event (β : Type) where
  | command (cmd : UpdateCommand) (answers : Answers β)
  | soak (id : Nat) (event : SoakEvent)

def Handler.step {β : Type} (config : HandlerConfig β) (h : Handler β) : Event β → Handler β
  | .command cmd answers => (handleMessage config answers cmd h).1
  | .soak id event => soakPeriod config.healthRetries id event h

end Zester.Update
