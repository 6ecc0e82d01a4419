import Zester.Lib.Crew
import Zester.Jobs.Record

/-! Dispatch, the orphan scan and the recovery of jobs, for any number of masters. The jobs
bucket, the commands to the peels and the job events share one log, in the order in which
they were written; a watcher is a task of its own. -/
namespace Zester.Jobs

/-- A key of the jobs bucket, or a subject that is published on. -/
inductive Place where
  | jobs (key : String)
  | cmd (target : String)
  | event (subject : String)
  deriving DecidableEq, Repr

inductive Item where
  | job (j : Job)
  | index (owner : String) (updated : Int)
  /-- `again` tells the one re-send of a watcher from the first request. -/
  | request (req : ExecRequest) (again : Bool)
  | event (type : String)

/-- What `bus.Decode` makes of a value as a job; an index entry has an owner only. -/
def Item.asJob : Item → Option Job
  | .job j => some j
  | .index owner updated => some { owner := owner, updated := updated }
  | .request _ _ | .event _ => none

def activeJobKeyPrefix : String := "active."

def activeJobKey (jid : String) : String := activeJobKeyPrefix ++ jid

def jobSubject (jid leaf : String) : String := "zester.job." ++ jid ++ "." ++ leaf

abbrev Terminal := { status : Status // status.isTerminal = true }

/-- How a watch ends: what the watcher counted and made of it. -/
structure Final where
  status : Terminal
  returnCount : Nat
  successCount : Nat
  now : Int

/-- How a watch goes, as far as the jobs bucket and the commands see it. -/
structure Course where
  /-- The peels that were heard when the ack window closed, if it did. -/
  heard : Option (List String)
  /-- Nothing for a watcher that is detached. -/
  final : Option Final

/-- What a dispatch leaves to the outside: the clock, the presence of the peels and the
course of the watch. -/
structure Dispatching where
  master : String
  offline : List String
  claimedAt : Int
  now : Int
  runningAt : Int
  course : Course

structure Reclaiming where
  now : Int
  checkedAt : Int
  runningAt : Int
  offline : List String
  course : Course

/-- A scan that found out which masters are alive. -/
structure Scanning where
  master : String
  live : List String
  missThreshold : Int
  now : Int
  reclaim : String → Reclaiming

/-- How many misses in a row make an orphan of a job. -/
def Scanning.threshold (s : Scanning) : Int := if s.missThreshold ≤ 0 then 2 else s.missThreshold

/-- How often a master was missing in a row, and which ones were counted in this cycle. -/
structure Misses where
  counts : String → Nat
  thisCycle : List String

def Misses.count (misses : Misses) (owner : String) : Misses :=
  if owner ∈ misses.thisCycle then misses
  else ⟨Function.update misses.counts owner (misses.counts owner + 1), owner :: misses.thisCycle⟩

inductive Task where
  | dispatch (d : Dispatching) (j : Job)
  | scan (s : Scanning) (counts : String → Nat)
  /-- The rest of a scan: the index keys still to be visited. -/
  | visit (s : Scanning) (misses : Misses) (keys : List String)
  | watch (j : Job) (redispatch : Bool) (course : Course)

inductive DispatchError where
  | failed (text : String)
  | claimPending (text : String)
  | jidConflict (text : String)
  deriving DecidableEq, Repr

structure Env where
  describe : Refusal → String
  undecodable : String
  json : Json

/-- The index is written on a best effort. -/
def writeActiveKey (jid owner : String) (now : Int) (create : Bool) : Program Place Item Unit :=
  if create then do
    let _ ← Program.create (.jobs (activeJobKey jid)) (.index owner now)
    return ()
  else do
    let _ ← Program.put (.jobs (activeJobKey jid)) (.index owner now)
    return ()

def clearActiveKey (jid : String) : Program Place Item Unit := do
  let _ ← Program.delete (.jobs (activeJobKey jid))
  return ()

/-- The request of a job to each of the targets; one that cannot be published is logged. -/
def publishAll (j : Job) (again : Bool) : List String → Program Place Item Unit
  | [] => return ()
  | target :: targets => do
    let _ ← Program.put (.cmd target) (.request (execRequestForJob j) again)
    publishAll j again targets

/-- The second half of `Dispatch`, from the revision of the claim on: the running status is
stored before anything is published. -/
def publishRunning (env : Env) (d : Dispatching) (j : Job) (rev : Nat) :
    Program Place Item (Except DispatchError Unit × List Task) := do
  match ← Program.put (.event (jobSubject j.jid "dispatch")) (.event "dispatched") with
  | .error refused =>
    return (.error (.failed ("job: publish dispatch event: " ++ env.describe refused)), [])
  | .ok _ =>
    let running := { j with epoch := rev, status := .running, updated := d.runningAt }
    match ← Program.update (.jobs j.jid) (.job running) rev with
    | .error refused =>
      return (.error (.failed ("job: update job " ++ j.jid ++ " to running: " ++
        env.describe refused)), [])
    | .ok newRev =>
      let owned := { running with epoch := newRev }
      publishAll owned false owned.targets
      return (.ok (), [.watch owned true d.course])

def Dispatching.claim (d : Dispatching) (j : Job) : Job :=
  { j with
    owner := d.master, status := .claimed, updated := d.claimedAt, offlineAtDispatch := d.offline,
    deadline := d.now + effectiveTimeout j.timeout }

def dispatch (env : Env) (d : Dispatching) (requested : Job) :
    Program Place Item (Except DispatchError Unit × List Task) := do
  let j := d.claim requested
  match ← Program.create (.jobs j.jid) (.job j) with
  | .ok rev =>
    writeActiveKey j.jid d.master d.claimedAt true
    publishRunning env d j rev
  | .error refused =>
    match ← Program.get (.jobs j.jid) with
    | .error _ =>
      return (.error (.failed ("job: claim job " ++ j.jid ++ ": " ++ env.describe refused)), [])
    | .ok existing =>
      match existing.value.asJob with
      | none =>
        return (.error (.failed ("job: decode existing job " ++ j.jid ++ ": " ++
          env.undecodable)), [])
      | some existingJob =>
        if existingJob.status = .claimed then
          if existingJob.owner = d.master then
            -- the claim of an earlier attempt of this master was never published
            writeActiveKey j.jid d.master d.claimedAt false
            publishRunning env d j existing.revision
          else
            return (.error (.claimPending ("job: jid " ++ j.jid ++ " claimed by " ++
              existingJob.owner ++ " but not yet published: job: claim pending")), [])
        else
          match sameDispatchIntent env.json existingJob j with
          | some reason =>
            return (.error (.jidConflict ("job: jid " ++ j.jid ++
              " conflict: existing job differs (" ++ reason ++ "): job: jid conflict")), [])
          | none => return (.ok (), [])

/-- The event of a job that ended. -/
def announce (jid type : String) : Program Place Item Unit := do
  let _ ← Program.put (.event (jobSubject jid "status")) (.event type)
  return ()

def Job.ended (j : Job) (final : Final) : Job :=
  { j with
    status := final.status.1, returnCount := final.returnCount,
    successCount := final.successCount, updated := final.now }

/-- The terminal record is fenced by the epoch of the job if it has one. -/
def finalizeJob (j : Job) (final : Final) : Program Place Item Unit := do
  let ended := j.ended final
  if 0 < ended.epoch then
    match ← Program.update (.jobs ended.jid) (.job ended) ended.epoch with
    | .error _ => return ()
    | .ok _ =>
      clearActiveKey ended.jid
      announce ended.jid "completed"
  else
    match ← Program.put (.jobs ended.jid) (.job ended) with
    | .error _ => announce ended.jid "completed"
    | .ok _ =>
      clearActiveKey ended.jid
      announce ended.jid "completed"

/-- The one re-send, to the targets that were not heard. -/
def redispatchSilent (j : Job) (heard : Option (List String)) : Program Place Item Unit :=
  match heard with
  | none => return ()
  | some heard => publishAll j true (j.targets.filter (· ∉ heard))

/-- A watcher, from its start to the terminal record. -/
def watch (j : Job) (redispatch : Bool) (course : Course) : Program Place Item Unit := do
  redispatchSilent j (if redispatch then course.heard else none)
  match course.final with
  | none => return ()
  | some final => finalizeJob j final

def maxReclaims : Nat := 3

def failReclaimLimitExceeded (now : Int) (j : Job) : Program Place Item Unit := do
  let failed := { j with
    status := .failed, updated := now,
    metadata := j.metadata.set "failed_reason" ("reclaim limit exceeded: job reclaimed " ++
      toString j.reclaimCount ++ " times (max " ++ toString maxReclaims ++ ")") }
  match ← (if 0 < failed.epoch then Program.update (.jobs failed.jid) (.job failed) failed.epoch
    else Program.put (.jobs failed.jid) (.job failed)) with
  | .error _ => return ()
  | .ok _ =>
    clearActiveKey failed.jid
    announce failed.jid "failed"

def reclaimJob (r : Reclaiming) (orphan : Job) : Program Place Item (List Task) := do
  let j := normalizeDeadline r.now orphan
  if j.reclaimCount > maxReclaims then
    failReclaimLimitExceeded r.runningAt j
    return []
  else
    match j.status with
    | .claimed =>
      if r.checkedAt < j.deadline then
        let running := { j with
          status := .running, updated := r.runningAt, offlineAtDispatch := r.offline }
        match ← Program.update (.jobs j.jid) (.job running) j.epoch with
        | .error _ => return []
        | .ok newRev =>
          let owned := { running with epoch := newRev }
          publishAll owned false owned.targets
          return [.watch owned true r.course]
      else return [.watch j false r.course]
    | .running => return [.watch j false r.course]
    | _ => return []

/-- One index key of a scan, up to the reclaim of its job. -/
def visitKey (s : Scanning) (misses : Misses) (activeKey : String) :
    Program Place Item (Misses × List Task) := do
  let jid := String.ofList (activeKey.toList.drop activeJobKeyPrefix.length)
  match ← Program.get (.jobs jid) with
  | .error .notFound =>
    -- an index key without a record is taken for a stale one
    clearActiveKey jid
    return (misses, [])
  | .error _ => return (misses, [])
  | .ok entry =>
    match entry.value.asJob with
    | none => return (misses, [])
    | some j =>
      if j.status.isTerminal then
        clearActiveKey jid
        return (misses, [])
      else if j.owner = "" ∨ j.owner = s.master ∨ j.owner ∈ s.live then return (misses, [])
      else
        let missed := misses.count j.owner
        if missed.counts j.owner < s.threshold then return (missed, [])
        else
          let orphan := { j with
            owner := s.master, epoch := 0, updated := s.now, reclaimCount := j.reclaimCount + 1 }
          match ← Program.update (.jobs jid) (.job orphan) entry.revision with
          | .error _ => return (missed, [])
          | .ok rev =>
            writeActiveKey jid s.master s.now false
            return (missed, ← reclaimJob (s.reclaim jid) { orphan with epoch := rev })

def activeKeys (places : List Place) : List String :=
  (places.filterMap fun
    | .jobs key =>
      if activeJobKeyPrefix.toList.isPrefixOf key.toList &&
          activeJobKeyPrefix.length < key.length then some key
      else none
    | _ => none).insertionSort (· ≤ ·)

def scan (s : Scanning) (counts : String → Nat) : Program Place Item (List Task) := do
  match ← Program.keys with
  | .error _ => return []
  | .ok places => return [.visit s ⟨counts, []⟩ (activeKeys places)]

/-- What carries out a task, and the tasks that it leaves behind. -/
def Task.program (env : Env) : Task → Program Place Item (List Task)
  | .dispatch d j => do return (← Jobs.dispatch env d j).2
  | .scan s counts => Jobs.scan s counts
  | .visit _ _ [] => return []
  | .visit s misses (key :: keys) => do
    let (misses, watchers) ← visitKey s misses key
    return watchers ++ [.visit s misses keys]
  | .watch j redispatch course => do
    Jobs.watch j redispatch course
    return []

/-- Only dispatches and scans come from outside. -/
def Task.isCall : Task → Bool
  | .dispatch _ _ | .scan _ _ => true
  | .visit _ _ _ | .watch _ _ _ => false

/-- The dispatches, scans and crashes of any number of masters, from an empty bucket. -/
def Reaches (env : Env) (crew : Crew Task Place Item) : Prop :=
  Crew.Reaches .anything (Task.program env) (fun task => task.isCall = true) ⟨.empty, []⟩ crew

end Zester.Jobs
