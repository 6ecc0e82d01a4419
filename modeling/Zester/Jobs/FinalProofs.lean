import Zester.Jobs.ManagerProofs

/-! A job record that has a terminal status keeps it, and a watcher that lost its job to another
master writes nothing. -/
namespace Zester.Jobs
open Bucket

/-- The record of the job was stored by another owner after the one that the watcher knows. -/
def Reclaimed (b : Bucket Place Item) (j : Job) : Prop :=
  ∃ (older : Bucket Place Item) (orphan : Job), older.write (.jobs j.jid) (some (.job orphan)) ≤ b ∧
    j.epoch ≤ older.revision ∧ orphan.owner ≠ j.owner

/-- The record of the job is written with the epoch as its revision only. -/
def Fenced (j : Job) : {ρ : Type} → Op Place Item ρ → Prop
  | _, .update place _ revision => place = .jobs j.jid → revision = j.epoch
  | _, .put place _ | _, .create place _ | _, .delete place => place ≠ .jobs j.jid
  | _, .get _ | _, .keys => True

theorem announce_fenced (type : String) : (announce j.jid type).Uses (Fenced j) :=
  ⟨by simp [Fenced], fun _ => trivial⟩

theorem clearActiveKey_fenced : (clearActiveKey j.jid).Uses (Fenced j) := by
  refine ⟨?_, fun _ => trivial⟩
  simp only [Fenced, ne_eq, Place.jobs.injEq]
  intro same
  have longer := congrArg String.length same
  simp [activeJobKey, activeJobKeyPrefix] at longer

theorem publishAll_fenced (again : Bool) (targets : List String) :
    (publishAll j again targets).Uses (Fenced j) := by
  induction targets with
  | nil => trivial
  | cons target targets ih => exact ⟨by simp [Fenced], fun _ => ih⟩

theorem finalizeJob_fenced (epoch : 0 < j.epoch) (final : Final) :
    (finalizeJob j final).Uses (Fenced j) := by
  unfold finalizeJob
  rw [if_pos (show 0 < (j.ended final).epoch from epoch)]
  refine ⟨fun _ => rfl, fun reply => ?_⟩
  cases reply with
  | error refused => trivial
  | ok rev => exact clearActiveKey_fenced.bind fun _ => announce_fenced "completed"

theorem watch_fenced (env : Env) (epoch : 0 < j.epoch) (redispatch : Bool) (course : Course) :
    (Task.program env (.watch j redispatch course)).Uses (Fenced j) := by
  refine Program.Uses.bind (Program.Uses.bind ?_ fun _ => ?_) fun _ => trivial
  · unfold redispatchSilent
    split
    · trivial
    · exact publishAll_fenced _ _
  · cases course.final with
    | none => trivial
    | some final => exact finalizeJob_fenced epoch final

theorem last_of_fenced (fenced : p.Uses (Fenced j))
    (passed : (b.last (.jobs j.jid)).map Entry.revision ≠ some j.epoch)
    (step : Regime.anything.Step (b, p) (b', p')) :
    b'.last (.jobs j.jid) = b.last (.jobs j.jid) := by
  cases step with
  | @call ρ op next _ _ reply _ yields =>
    have allowed := fenced.1
    cases op with
    | get place | keys => rw [yields.read rfl]
    | put place item =>
      obtain rfl | rfl := yields.put
      · rfl
      · exact last_write_ne (Ne.symm allowed)
    | create place item =>
      obtain ⟨-, rfl⟩ | ⟨-, -, rfl⟩ := yields.guarded (Op.guarded_create _ _)
      · rfl
      · exact last_write_ne (Ne.symm allowed)
    | delete place =>
      obtain rfl | rfl := yields.delete
      · rfl
      · exact last_write_ne (Ne.symm allowed)
    | update place item revision =>
      obtain ⟨-, rfl⟩ | ⟨-, ⟨last, found, same⟩, rfl⟩ := yields.guarded (Op.guarded_update _ _ _)
      · rfl
      · refine last_write_ne fun own => passed ?_
        subst own
        rw [found, Option.map_some, same, allowed rfl]

theorem Reclaimed.passed (reclaimed : Reclaimed b j) :
    (b.last (.jobs j.jid)).map Entry.revision ≠ some j.epoch := by
  obtain ⟨older, orphan, later, since, -⟩ := reclaimed
  obtain ⟨last, found, newer⟩ := last_of_write_le later
  rw [found, Option.map_some]
  intro same
  have epoch := Option.some.inj same
  omega

/-- Whatever the masters dispatch, scan, recover and finalize and wherever they crash, a terminal
status stays if the job's ID is no index key; and no watcher writes a record that another master
took over. -/
theorem terminal_records_final (env : Env) (jid : String) :
    ((∀ other, jid ≠ activeJobKey other) → ∀ crew crew' status, Reaches env crew →
      Crew.Reaches .anything (Task.program env) (fun task => task.isCall = true) crew crew' →
      storedStatus crew.bucket jid = some status → status.isTerminal = true →
      storedStatus crew'.bucket jid = some status) ∧
    ∀ crew j redispatch course p, Reaches env crew → p ∈ crew.running →
      Program.LeftOf (Task.program env (.watch j redispatch course)) p → j.jid = jid → 0 < j.epoch →
      Reclaimed crew.bucket j → ∀ b' p', Regime.anything.Step (crew.bucket, p) (b', p') →
      b'.last (.jobs jid) = crew.bucket.last (.jobs jid) := by
  constructor
  · intro plain crew crew' status run run' stored terminal
    have plain' : ∀ other, activeJobKey other ≠ jid := fun other same => plain other same.symm
    obtain ⟨_, fanned⟩ := fanned_of_reaches plain' run
    obtain ⟨_, fanned'⟩ := fanned_of_reaches plain' (run.trans run')
    exact fanned.terminal_stays fanned' run'.le stored terminal
  · rintro crew j redispatch course p - - left rfl epoch reclaimed b' p' step
    exact last_of_fenced ((watch_fenced env epoch redispatch course).left left)
      reclaimed.passed step

theorem timeout_isTerminal : Status.timeout.isTerminal = true := rfl

def finishing (jid : String) : Task :=
  .dispatch ⟨"m1", [], 1, 1, 1, ⟨none, some ⟨⟨.timeout, timeout_isTerminal⟩, 0, 0, 2⟩⟩⟩
    { jid := jid, function := "cmd.run", targets := ["web1"] }

def finished (jid : String) : Crew Task Place Item :=
  Crew.serve (Task.program quietEnv) ⟨.empty, []⟩ [(finishing jid, 12)]

def finishedAndScanned (jid : String) : Crew Task Place Item :=
  Crew.serve (Task.program quietEnv) (finished jid) [(scanBy "m1", 12)]

theorem finished_reaches (jid : String) : Reaches quietEnv (finished jid) := by
  refine Crew.serve_reaches (fun _ _ => trivial) _ ?_ _
  simp [Task.isCall, finishing]

theorem scanned_reaches (jid : String) :
    Crew.Reaches .anything (Task.program quietEnv) (fun task => task.isCall = true)
    (finished jid) (finishedAndScanned jid) := by
  refine Crew.serve_reaches (fun _ _ => trivial) _ ?_ _
  simp [Task.isCall, scanBy]

theorem terminal_records_final_scanned :
    storedStatus (finished "j1").bucket "j1" = some .timeout ∧
      storedStatus (finishedAndScanned "j1").bucket "j1" = some .timeout := by
  have stored : storedStatus (finished "j1").bucket "j1" = some .timeout := by decide +kernel
  refine ⟨stored, (terminal_records_final quietEnv "j1").1 ?_ _ _ _ (finished_reaches "j1")
    (scanned_reaches "j1") stored rfl⟩
  intro other same
  have heads := congrArg (fun key => key.toList.head?) same
  simp [activeJobKey, activeJobKeyPrefix] at heads

/-- The scan takes the record of the finished job for a stale index entry and deletes it. -/
theorem terminal_record_lost :
    Reaches quietEnv (finished "active.x") ∧
      Crew.Reaches .anything (Task.program quietEnv) (fun task => task.isCall = true)
        (finished "active.x") (finishedAndScanned "active.x") ∧
      storedStatus (finished "active.x").bucket "active.x" = some .timeout ∧
      storedStatus (finishedAndScanned "active.x").bucket "active.x" = none :=
  ⟨finished_reaches _, scanned_reaches _, by decide +kernel, by decide +kernel⟩

end Zester.Jobs
