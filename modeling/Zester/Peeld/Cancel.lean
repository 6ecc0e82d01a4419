import Zester.Jobs.Manager
import Zester.Lib.Registry
import Zester.Peeld.Exec

/-! The cancel functions of the executions on a peel, each known by the number of its context. The
callback of the exec subject, the worker and the callback of the cancel subjects take turns. A
cancel message finds the execution of its job as long as no job is accepted while an execution of
the same job goes on. -/
namespace Zester.Peeld
open Option
open Jobs (ExecRequest jobSubject)

/-- A request with its context, which has a cancel function for a job only. -/
structure Execution where
  req : ExecRequest
  cancel : Option Nat

structure Executor where
  dedup : DedupTracker
  cancelFuncs : String → Option Nat
  contexts : Nat
  /-- What the callback has accepted, and whether it runs there. -/
  callback : Option (Execution × Bool)
  execQueue : List Execution
  worker : Option Execution
  stopped : Bool
  canceled : List Nat

def newExecutor (dedup : DedupTracker) : Executor :=
  ⟨dedup, fun _ => none, 0, none, [], none, false, []⟩

namespace Executor
variable (readOnlyModule : String → Bool) (x : Executor)

def handleJobCancel (subject : String) : Executor :=
  -- the third of four parts is the third of all
  match subject.toList.splitOn '.' with
  | _ :: _ :: jid :: _ :: _ =>
    match x.cancelFuncs (String.ofList jid) with
    | some fn => { x with canceled := fn :: x.canceled }
    | none => x
  | _ => x

/-- The request of a message that passes the fence, whether it is a job, and the epochs
afterwards. -/
def accepted (msg : Msg) : Option (ExecRequest × Bool × DedupTracker) := do
  let req ← msg.data
  let isJob := msg.reply == "" && req.jid != ""
  if isJob && decide (0 < req.epoch) then
    let observed := x.dedup.observe req.jid req.epoch
    if observed.2.2 then none else some (req, isJob, observed.1)
  else some (req, isJob, x.dedup)

/-- `handleExecRequest` as far as the registration of the cancel function. -/
def register (msg : Msg) : Executor :=
  match x.accepted msg with
  | none => x
  | some (req, false, dedup) => { x with dedup := dedup, callback := some (⟨req, none⟩, false) }
  | some (req, true, dedup) =>
    { x with
      dedup := dedup
      contexts := x.contexts + 1
      cancelFuncs := Function.update x.cancelFuncs req.jid (some x.contexts)
      callback := some (⟨req, some x.contexts⟩, false) }

def releaseExecCancel (task : Execution) : Executor :=
  match task.cancel with
  | none => x
  | some cancel =>
    { x with
      cancelFuncs := Function.update x.cancelFuncs task.req.jid none
      canceled := cancel :: x.canceled }

/-- The end of `handleExecRequest`. -/
def place (task : Execution) : Executor :=
  if readOnlyModule task.req.module then { x with callback := some (task, true) }
  else if x.execQueue.length < execQueueSize then
    { x with callback := none, execQueue := x.execQueue ++ [task] }
  else releaseExecCancel { x with callback := none } task

/-- A step of one of the three; `permitted` tells which messages may come. -/
inductive Step (permitted : Executor → Msg → Prop) (x : Executor) : Executor → Prop where
  | deliver (idle : x.callback = none) (msg : Msg) (may : permitted x msg) :
      Step permitted x (x.register msg)
  | place (held : x.callback = some (task, false)) : Step permitted x (x.place readOnlyModule task)
  | finish (held : x.callback = some (task, true)) :
      Step permitted x (releaseExecCancel { x with callback := none } task)
  | take (idle : x.worker = none) (queued : x.execQueue = task :: tasks) :
      Step permitted x { x with worker := some task, execQueue := tasks }
  | complete (held : x.worker = some task) :
      Step permitted x (releaseExecCancel { x with worker := none } task)
  | stop : Step permitted x { x with stopped := true }
  | drain (ends : x.stopped) (idle : x.worker = none) (queued : x.execQueue = task :: tasks) :
      Step permitted x (releaseExecCancel { x with execQueue := tasks } task)
  | cancel (subject : String) : Step permitted x (x.handleJobCancel subject)

def Reached (permitted : Executor → Msg → Prop) : Executor → Prop :=
  Relation.ReflTransGen (Step readOnlyModule permitted)
    (newExecutor (newDedupTracker dedupCapacity))

/-- What is queued or executing. -/
def current : List Execution :=
  (x.callback.filter (·.2)).toList.map (·.1) ++ (x.worker.toList ++ x.execQueue)

end Executor

open List

namespace Executor
variable (x : Executor)

/-- A job is accepted only if its ID is one token and no execution of it is queued or executing. -/
def Careful (msg : Msg) : Prop :=
  ∀ req dedup, x.accepted msg = some (req, true, dedup) → '.' ∉ req.jid.toList ∧
    ∀ task ∈ x.current, task.cancel.isSome → task.req.jid ≠ req.jid

/-- What holds a context, also while it is not queued yet. -/
def live : List Execution := x.callback.toList.map (·.1) ++ (x.worker.toList ++ x.execQueue)

def jobs (live : List Execution) : List (String × Nat) :=
  live.filterMap fun task => task.cancel.map (task.req.jid, ·)

theorem handleJobCancel_jobSubject (token : '.' ∉ jid.toList)
    (found : x.cancelFuncs jid = some fn) :
    (x.handleJobCancel (jobSubject jid "cancel")).canceled = fn :: x.canceled := by
  have parts : (['.'].intercalate
      ["zester".toList, "job".toList, jid.toList, "cancel".toList]).splitOn '.' =
      ["zester".toList, "job".toList, jid.toList, "cancel".toList] :=
    splitOn_intercalate '.' (by simp [token]) (by simp)
  have subject : (jobSubject jid "cancel").toList =
      ['.'].intercalate ["zester".toList, "job".toList, jid.toList, "cancel".toList] := by
    simp [jobSubject, intercalate]
  simp only [handleJobCancel, subject, parts, String.ofList_toList, found]

/-- The cancel functions of these executions are filed, under IDs that are tokens. -/
structure Filed (live : List Execution) (table : String → Option Nat) : Prop where
  registered : Registered (jobs live) [] table
  token : ∀ entry ∈ jobs live, '.' ∉ entry.1.toList

variable {x}

theorem Filed.perm (filed : Filed live' table) (moved : live'.Perm live'') :
    Filed live'' table := by
  have same : (jobs live'').Perm (jobs live') := moved.symm.filterMap _
  exact ⟨filed.registered.perm same.subset (same.append_right _),
    fun entry member => filed.token entry (same.subset member)⟩

theorem Filed.release (before : Filed live' table) (same : x.cancelFuncs = table)
    (ended : live'.Perm (task :: x.live)) :
    Filed (x.releaseExecCancel task).live (x.releaseExecCancel task).cancelFuncs := by
  obtain ⟨registered, token⟩ := before.perm ended
  subst same
  cases job : task.cancel with
  | none =>
    simp only [jobs, filterMap_cons, job, map_none] at registered token
    simp only [releaseExecCancel, job]
    exact ⟨registered, token⟩
  | some fn =>
    simp only [jobs, filterMap_cons, job, map_some] at registered token
    simp only [releaseExecCancel, job]
    have ends : Registered (jobs x.live) [(task.req.jid, fn)] x.cancelFuncs :=
      registered.perm (subset_cons_self ..) (by rw [append_nil]; exact perm_append_singleton _ _)
    exact ⟨ends.remove, fun entry member => token entry (.tail _ member)⟩

theorem Filed.register (filed : Filed x.live x.cancelFuncs) (idle : x.callback = none)
    (careful : x.Careful msg) : Filed (x.register msg).live (x.register msg).cancelFuncs := by
  have same : x.live = x.worker.toList ++ x.execQueue := by simp [Executor.live, idle]
  have current : x.current = x.live := by simp [Executor.current, idle, same]
  simp only [Executor.register]
  split
  · exact filed
  · exact ⟨(same ▸ filed).registered, (same ▸ filed).token⟩
  · rename_i req dedup accepted
    obtain ⟨token, others⟩ := careful req dedup accepted
    rw [current, same] at others
    obtain ⟨registered, tokens⟩ := same ▸ filed
    refine ⟨registered.file fun entry member => ?_, forall_mem_cons.mpr ⟨token, tokens⟩⟩
    rw [append_nil] at member
    obtain ⟨task, waits, job⟩ := mem_filterMap.mp member
    obtain ⟨fn, holds, rfl⟩ := map_eq_some_iff.mp job
    exact others task waits (isSome_of_eq_some holds)

theorem filed_step (filed : Filed x.live x.cancelFuncs) (step : Step readOnlyModule Careful x x') :
    Filed x'.live x'.cancelFuncs := by
  cases step with
  | deliver idle msg careful => exact filed.register idle careful
  | place held =>
    rename_i task
    simp only [place]
    split
    · exact filed.perm (by simp [live, held])
    split
    · refine filed.perm ?_
      simpa [live, held] using (perm_append_singleton task (x.worker.toList ++ x.execQueue)).symm
    · exact filed.release rfl (by simp [live, held])
  | finish held | complete held => exact filed.release rfl (by simp [live, held])
  | take idle queued => exact filed.perm (by simp [live, idle, queued])
  | stop => exact filed
  | drain _ idle queued => exact filed.release rfl (by simp [live, idle, queued])
  | cancel subject =>
    simp only [handleJobCancel]
    split
    · split <;> exact filed
    · exact filed

theorem filed_reached (reached : Reached readOnlyModule Careful x) :
    Filed x.live x.cancelFuncs := by
  induction reached with
  | refl => refine ⟨⟨?_, ?_⟩, ?_⟩ <;> simp [jobs, live, newExecutor]
  | tail _ step filed => exact filed_step filed step

/-- A cancel message for a job that is queued or executing calls the cancel function of that
execution, if no job was accepted while the same job was queued or executing. -/
theorem current_job_cancelable (readOnlyModule : String → Bool) (x : Executor)
    (reached : Reached readOnlyModule Careful x) (task : Execution) (current : task ∈ x.current)
    (fn : Nat) (job : task.cancel = some fn) :
    (x.handleJobCancel (jobSubject task.req.jid "cancel")).canceled = fn :: x.canceled := by
  have live : task ∈ x.live := by
    obtain runs | waits := mem_append.mp current
    · obtain ⟨held, member, rfl⟩ := mem_map.mp runs
      refine mem_append_left _ (mem_map_of_mem ?_)
      simp only [mem_toList, filter_eq_some_iff] at member ⊢
      exact member.1
    · exact mem_append_right _ waits
  have member : (task.req.jid, fn) ∈ jobs x.live := mem_filterMap.mpr ⟨task, live, by rw [job]; rfl⟩
  obtain ⟨registered, token⟩ := filed_reached reached
  exact x.handleJobCancel_jobSubject (token _ member) (registered.filed _ member)

def request (jid : String) (epoch : Nat) : ExecRequest := ⟨jid, "cmd.run", "", .null, epoch, 0, 0⟩

/-- The first of two jobs has ended, and the second is canceled. -/
theorem current_job_cancelable_second : ∃ x task, Reached (fun _ => false) Careful x ∧
    x.current = [task] ∧ task.req.jid = "k" ∧
      (x.handleJobCancel (jobSubject task.req.jid "cancel")).canceled = [1, 0] := by
  have reached : Reached (fun _ => false) Careful _ :=
    ((((((Relation.ReflTransGen.single
        (.deliver rfl ⟨"", request "j" 1⟩ fun req dedup accepted => by
      cases accepted
      exact ⟨by decide, fun _ member => (by cases member)⟩)).tail (.place rfl)).tail
      (.take rfl rfl)).tail (.deliver rfl ⟨"", request "k" 1⟩ fun req dedup accepted => by
      cases accepted
      exact ⟨by decide, by decide⟩)).tail (.place rfl)).tail
      (.complete rfl)).tail (.take rfl rfl)
  exact ⟨_, _, reached, rfl, rfl,
    current_job_cancelable _ _ reached _ (mem_singleton.mpr rfl) 1 rfl⟩

/-- The job comes again with a higher epoch, the first execution ends, and the cancel function of
the second goes with it. -/
theorem redelivered_job_not_cancelable : ∃ x task, Reached (fun _ => false) (fun _ _ => True) x ∧
    x.current = [task] ∧ task.cancel = some 1 ∧
      (x.handleJobCancel (jobSubject task.req.jid "cancel")).canceled = [0] := by
  have reached : Reached (fun _ => false) (fun _ _ => True) _ :=
    ((((((Relation.ReflTransGen.single (.deliver rfl ⟨"", request "j" 1⟩ trivial)).tail
      (.place rfl)).tail
      (.take rfl rfl)).tail (.deliver rfl ⟨"", request "j" 2⟩ trivial)).tail (.place rfl)).tail
      (.complete rfl)).tail (.take rfl rfl)
  exact ⟨_, _, reached, rfl, rfl, by decide⟩

end Executor
end Zester.Peeld
