import Zester.Lib.Subject
import Zester.Jobs.Replay

/-! The results of the schedules that run on the peels. The masters share one consumer for
them; each result becomes a job record of its own and the return of one peel. -/
namespace Zester.Jobs

structure ScheduledResult where
  jid : String
  entry : String
  module : String
  args : Value
  success : Bool
  error : String
  timestamp : Int

/-- A key of the jobs bucket or of the job-returns bucket. -/
inductive Shelf where
  | jobs (key : String)
  | returns (key : String)
  deriving DecidableEq, Repr

inductive Paper where
  | job (j : Job)
  | answer (r : Return)

inductive ScheduledError where
  /-- `ErrInvalidScheduledResult`. -/
  | invalid (text : String)
  | failed (text : String)
  deriving DecidableEq, Repr

/-- The clock, whether the buckets can be opened, and the texts for what they refuse. -/
structure Desk where
  now : Int
  jobs : Except String Unit
  returns : Except String Unit
  describe : Refusal → String

section
variable (res : ScheduledResult) (peelID : String) (ts : Int)

def ScheduledResult.toJob : Job where
  jid := res.jid
  function := res.module
  args := res.args
  targets := [peelID]
  status := if res.success then .complete else .failed
  created := ts
  updated := ts
  returnCount := 1
  successCount := if res.success && res.error == "" then 1 else 0
  metadata := [("source", "schedule"), ("schedule", res.entry)]

def ScheduledResult.toReturn : Return where
  jid := res.jid
  peelID := peelID
  success := res.success
  error := res.error
  timestamp := ts

end

/-- The second half of `HandleScheduledResult`, for a result that is in order. -/
def persistScheduledResult (desk : Desk) (peelID : String) (res : ScheduledResult) :
    Program Shelf Paper (Except ScheduledError Unit) :=
  let ts := if res.timestamp = 0 then desk.now else res.timestamp
  match desk.jobs with
  | .error text => return .error (.failed ("job: scheduled result: get jobs bucket: " ++ text))
  | .ok () => do
    -- a record that exists is taken for one of a redelivery
    let _ ← Program.create (.jobs res.jid) (.job (res.toJob peelID ts))
    match desk.returns with
    | .error text => return .error (.failed ("job: scheduled result: get returns bucket: " ++ text))
    | .ok () =>
      match ← Program.put (.returns (res.jid ++ "." ++ peelID))
          (.answer (res.toReturn peelID ts)) with
      | .error refused =>
        return .error (.failed ("job: scheduled result: persist per-peel return: " ++
          desk.describe refused))
      | .ok _ => return .ok ()

def handleScheduledResult (desk : Desk) (peelID : String) (res : ScheduledResult) :
    Program Shelf Paper (Except ScheduledError Unit) :=
  if !replayable res.jid then
    return .error (.invalid ("job: invalid scheduled result: invalid jid " ++ res.jid.quote))
  else if res.module = "" then
    return .error (.invalid "job: invalid scheduled result: module is required")
  else persistScheduledResult desk peelID res

/-- A message of the stream; nothing stands for a payload that cannot be decoded. -/
structure Delivery where
  subject : String
  payload : Option ScheduledResult

inductive Verdict where
  | ack
  | nak
  deriving DecidableEq, Repr

def Verdict.of : Except ScheduledError Unit → Verdict
  | .error (.failed _) => .nak
  | .error (.invalid _) | .ok () => .ack

def jobScheduleWildcard : String := "zester.job.*.schedule.*"

/-- The callback of `StartScheduledResultConsumer`. -/
def consumeScheduledResult (desk : Desk) (msg : Delivery) : Program Shelf Paper Verdict :=
  match Subject.tokens msg.subject with
  | [_, _, subjectJID, _, peelID] =>
    match msg.payload with
    | none => return .ack
    | some res =>
      if res.jid.toList ≠ subjectJID then return .ack
      else do return .of (← handleScheduledResult desk (String.ofList peelID) res)
  | _ => return .ack

end Zester.Jobs
