import Zester.Jobs.Record

/-! What a peel does with the requests of jobs: the table of the epochs that it has seen, the queue
for what it will execute, and the worker. Executions that were begun are kept in a list.

The table is kept on disk. A flush takes its snapshot under the lock and replaces the file without
it, so several flushes can be on their way at once: those of accepted deliveries, that of the timer
and the one of the shutdown. -/
namespace Zester.Peeld
open Function
open Jobs (ExecRequest)

/-- The highest epoch for each job, and the jobs in the order in which they came. -/
structure DedupTracker where
  capacity : Nat
  m : String → Option Nat
  order : List String

def dedupCapacity : Nat := 4096

def newDedupTracker (capacity : Nat) : DedupTracker := ⟨capacity, fun _ => none, []⟩

namespace DedupTracker

/-- The entries of the snapshot come in any order. -/
def load (d : DedupTracker) : List (String × Nat) → DedupTracker
  | [] => d
  | (jid, epoch) :: entries =>
    if d.capacity ≤ d.order.length then d
    else
      load { d with
        order := if (d.m jid).isSome then d.order else d.order ++ [jid]
        m := update d.m jid (some epoch) } entries

def evict (d : DedupTracker) : DedupTracker :=
  match d.order with
  | [] => d
  | oldest :: order => { d with order := order, m := update d.m oldest none }

/-- Room for one job more. -/
def makeRoom (d : DedupTracker) : DedupTracker :=
  if d.capacity ≤ d.order.length ∧ 0 < d.capacity then d.evict else d

/-- The table afterwards, the epoch that was stored before, and whether the request is rejected. -/
def observe (d : DedupTracker) (jid : String) (epoch : Nat) : DedupTracker × Nat × Bool :=
  match d.m jid with
  | some prev =>
    if epoch ≤ prev then (d, prev, true)
    else ({ d with m := update d.m jid (some epoch) }, prev, false)
  | none =>
    let d := d.makeRoom
    ({ d with order := d.order ++ [jid], m := update d.m jid (some epoch) }, 0, false)

end DedupTracker

/-- A message on the exec subject; nothing stands for a payload that cannot be decoded. -/
structure Msg where
  reply : String
  data : Option ExecRequest

structure ExecTask where
  req : ExecRequest
  isJob : Bool

structure Agent where
  dedup : DedupTracker
  execQueue : List ExecTask
  started : List ExecTask

def execQueueSize : Nat := 64

namespace Agent
variable (readOnlyModule : String → Bool)

/-- The end of `handleExecRequest`: a read-only module runs at once, everything else is queued if
there is room. -/
def admitTask (a : Agent) (task : ExecTask) : Agent :=
  if readOnlyModule task.req.module then { a with started := task :: a.started }
  else if a.execQueue.length < execQueueSize then { a with execQueue := a.execQueue ++ [task] }
  else a

def handleExecRequest (a : Agent) (msg : Msg) : Agent :=
  match msg.data with
  | none => a
  | some req =>
    let isJob := msg.reply == "" && req.jid != ""
    if isJob && decide (0 < req.epoch) then
      let observed := a.dedup.observe req.jid req.epoch
      if observed.2.2 then a
      else admitTask readOnlyModule { a with dedup := observed.1 } ⟨req, isJob⟩
    else admitTask readOnlyModule a ⟨req, isJob⟩

def work (a : Agent) : Agent :=
  match a.execQueue with
  | [] => a
  | task :: tasks => { a with execQueue := tasks, started := task :: a.started }

end Agent

inductive Event where
  | exec (msg : Msg)
  | work
  /-- The worker ends and drops what is queued. -/
  | stop

def Agent.step (readOnlyModule : String → Bool) (a : Agent) : Event → Agent
  | .exec msg => a.handleExecRequest readOnlyModule msg
  | .work => a.work
  | .stop => { a with execQueue := [] }

def Agent.run (readOnlyModule : String → Bool) (a : Agent) (events : List Event) : Agent :=
  events.foldl (Agent.step readOnlyModule) a

/-- What a flush writes, with its number in the order in which the snapshots were taken. -/
structure Snapshot where
  m : String → Option Nat
  number : Nat

/-- A call of `Flush`; without a snapshot it still waits for the lock. -/
structure Flush where
  /-- It was called by `ObserveDurable`. -/
  durable : Bool
  snapshot : Option Snapshot

/-- The debounced save: armed, or its function was started. -/
inductive Timer where
  | armed
  | expired
  deriving DecidableEq, Repr

structure DedupStore where
  tracker : DedupTracker
  timer : Option Timer
  /-- The flushes on their way, by their number. -/
  flushes : Nat → Option Flush
  begun : Nat
  taken : Nat
  /-- Nothing before the first flush of all. -/
  file : Option Snapshot

inductive DedupEvent where
  /-- A delivery, with the call of `Flush` if it is accepted. -/
  | observe (jid : String) (epoch : Nat)
  | expires
  | shutdown
  /-- The flush has the lock. -/
  | takes (id : Nat)
  | replaces (id : Nat)
  | fails (id : Nat)
  /-- A crash and a start that loads the entries of the file in some order. -/
  | restarts (entries : List (String × Nat))
  deriving DecidableEq, Repr

namespace DedupStore

def scheduleSaveLocked (s : DedupStore) : DedupStore :=
  match s.timer with
  | some _ => s
  | none => { s with timer := some .armed }

def begin (s : DedupStore) (durable : Bool) : DedupStore :=
  { s with flushes := update s.flushes s.begun (some ⟨durable, none⟩), begun := s.begun + 1 }

/-- `ObserveDurable` up to its flush. -/
def observeDurable (s : DedupStore) (jid : String) (epoch : Nat) : DedupStore :=
  let observed := s.tracker.observe jid epoch
  if observed.2.2 then s
  else ({ s with tracker := observed.1 }.scheduleSaveLocked).begin true

/-- `Flush` up to the unlock. -/
def take (s : DedupStore) (id : Nat) (durable : Bool) : DedupStore :=
  { s with
    timer := none
    flushes := update s.flushes id (some ⟨durable, some ⟨s.tracker.m, s.taken⟩⟩)
    taken := s.taken + 1 }

def replace (s : DedupStore) (id : Nat) (snapshot : Snapshot) : DedupStore :=
  { s with flushes := update s.flushes id none, file := some snapshot }

/-- Only `ObserveDurable` tries again. -/
def fail (s : DedupStore) (id : Nat) (durable : Bool) : DedupStore :=
  let s := { s with flushes := update s.flushes id none }
  if durable then s.scheduleSaveLocked else s

def restart (s : DedupStore) (entries : List (String × Nat)) : DedupStore :=
  { s with
    tracker := (newDedupTracker s.tracker.capacity).load entries
    timer := none
    flushes := fun _ => none }

end DedupStore

/-- The entries are those of the file, each once. -/
structure Enumerates (entries : List (String × Nat)) (file : Option Snapshot) : Prop where
  nodup : (entries.map Prod.fst).Nodup
  mem_iff : ∀ jid epoch, (jid, epoch) ∈ entries ↔ ∃ snapshot ∈ file, snapshot.m jid = some epoch

def DedupStore.start (capacity : Nat) (file : Option (String → Option Nat))
    (entries : List (String × Nat)) : DedupStore :=
  ⟨(newDedupTracker capacity).load entries, none, fun _ => none, 0, 1, file.map (⟨·, 0⟩)⟩

namespace DedupStore

inductive Steps (s : DedupStore) : DedupEvent → DedupStore → Prop where
  | observe (jid : String) (epoch : Nat) : Steps s (.observe jid epoch) (s.observeDurable jid epoch)
  | expires (armed : s.timer = some .armed) :
      Steps s .expires ({ s with timer := some .expired }.begin false)
  | shutdown : Steps s .shutdown (s.begin false)
  | takes (id : Nat) (durable : Bool) (waits : s.flushes id = some ⟨durable, none⟩) :
      Steps s (.takes id) (s.take id durable)
  | replaces (id : Nat) (durable : Bool) (snapshot : Snapshot)
      (ready : s.flushes id = some ⟨durable, some snapshot⟩) :
        Steps s (.replaces id) (s.replace id snapshot)
  | fails (id : Nat) (durable : Bool) (snapshot : Snapshot)
      (ready : s.flushes id = some ⟨durable, some snapshot⟩) :
        Steps s (.fails id) (s.fail id durable)
  | restarts (entries : List (String × Nat)) (loaded : Enumerates entries s.file) :
      Steps s (.restarts entries) (s.restart entries)

/-- Events one after the other, all of them allowed. -/
inductive Runs (allowed : DedupStore → DedupEvent → Prop) :
    DedupStore → List DedupEvent → DedupStore → Prop where
  | nil (s : DedupStore) : Runs allowed s [] s
  | cons {s s' s'' : DedupStore} {event : DedupEvent} {events : List DedupEvent}
      (fine : allowed s event)
      (first : s.Steps event s') (rest : Runs allowed s' events s'') :
        Runs allowed s (event :: events) s''

/-- No older snapshot replaces the file of a newer one. -/
def InOrder (s : DedupStore) : DedupEvent → Prop
  | .replaces id => ∀ flush ∈ s.flushes id, ∀ snapshot ∈ flush.snapshot, ∀ old ∈ s.file,
    old.number ≤ snapshot.number
  | _ => True

end DedupStore

/-- The jobs that an event brings to the table. -/
def DedupEvent.jobs : DedupEvent → List String
  | .observe jid _ => [jid]
  | .restarts entries => entries.map Prod.fst
  | _ => []

/-- The jobs that came into the table after this one; nothing for one that is not in it. -/
def DedupTracker.after (d : DedupTracker) (jid : String) : List String :=
  (d.order.dropWhile (· ≠ jid)).tail

end Zester.Peeld
