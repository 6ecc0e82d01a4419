import Zester.Jobs.Watcher

/-! The status that a watcher reports and the counts beside it. Both are read in critical
sections of their own, so they agree where nothing is recorded in between. -/
namespace Zester.Jobs
open Watch

def statusFor (canceled : Bool) (returnCount successCount targetCount : Nat) : Status :=
  if canceled = true ∧ returnCount < targetCount then .canceled
  else if targetCount ≤ returnCount then
    if successCount < returnCount then .failed else .complete
  else if 0 < returnCount then .partial_
  else .timeout

namespace Watcher
variable (w : Watcher)

theorem returnCount_eq : w.returnCount = w.successCount + w.failedCount := by
  have split := w.returns.entries.length_eq_countP_add_countP fun entry => entry.2.succeeded
  have failed : (fun entry : Sigma fun _ : String => Return => decide ¬(entry.2.succeeded = true)) =
      fun entry => !entry.2.success || entry.2.error != "" := by
    funext entry
    rw [Bool.eq_iff_iff]
    simp [Return.succeeded, imp_iff_not_or]
  rw [failed] at split
  exact split

theorem terminalStatus_eq : w.terminalStatus.1 =
    statusFor w.canceled w.returnCount w.successCount w.job.targetCount := by
  have counts := w.returnCount_eq
  have someFailed : 0 < w.failedCount ↔ w.successCount < w.returnCount := by omega
  unfold terminalStatus statusFor
  simp only [Bool.and_eq_true, decide_eq_true_eq, someFailed]
  split
  · rfl
  by_cases all : w.job.targetCount ≤ w.returnCount
  · simp only [all, true_and, if_true]
    split <;> rfl
  · simp only [all, false_and, if_false]
    split <;> rfl

theorem job_mergeReturn (r : Return) : (w.mergeReturn r).job = w.job := by
  unfold mergeReturn
  split <;> rfl

theorem job_foldl {f : Watcher → α → Watcher} (keeps : ∀ w a, (f w a).job = w.job)
    (as : List α) : (as.foldl f w).job = w.job := by
  induction as generalizing w with
  | nil => rfl
  | cons a as ih => exact (ih (f w a)).trans (keeps w a)

theorem job_mergeReturns (returns : List Return) : (w.mergeReturns returns).1.job = w.job :=
  w.job_foldl job_mergeReturn _

theorem job_receiveAck (subject : String) (payload : Option String) :
    (w.receiveAck subject payload).job = w.job := by
  unfold receiveAck
  split
  · split <;> rfl
  · rfl

theorem receiveAck_keeps (subject : String) (payload : Option String) :
    (w.receiveAck subject payload).canceled = w.canceled ∧
      (w.receiveAck subject payload).returns = w.returns := by
  unfold receiveAck
  split
  · split <;> exact ⟨rfl, rfl⟩
  · exact ⟨rfl, rfl⟩

theorem job_receiveReturn (subject : String) (payload : Option Return) :
    (w.receiveReturn subject payload).1.job = w.job := by
  unfold receiveReturn
  repeat' split
  all_goals rfl

end Watcher

/-- The status is decided and the counts are not read yet. -/
def Phase.isDecided : Phase → Bool
  | .finalizing _ | .flushed _ => true
  | _ => false

/-- No status is decided. -/
def Phase.isOpen : Phase → Bool
  | .finalizing _ | .flushed _ | .counted _ _ => false
  | _ => true

/-- An event that records a return or cancels the job. -/
def Event.disturbs : Event → Bool
  | .returned _ _ | .merge _ | .cancel => true
  | _ => false

/-- Nothing is recorded and nothing is canceled while the status is decided and the counts
are not read yet. -/
def Watch.undisturbed (w : Watch) : List Event → Bool
  | [] => true
  | event :: events =>
    !(w.phase.isDecided && event.disturbs) && (w.step event).all fun w' => w'.undisturbed events

/-- The status of the watch, as far as it is decided, is the one for the counts. -/
def Agrees (w : Watch) : Prop :=
  match w.phase with
  | .finalizing status | .flushed status => status.1 =
      statusFor w.watcher.canceled w.watcher.returnCount w.watcher.successCount
        w.watcher.job.targetCount
  | .counted final canceled => final.status.1 =
      statusFor canceled final.returnCount final.successCount w.watcher.job.targetCount
  | _ => True

namespace Agrees

theorem aside (agrees : Agrees w) (phase : w'.phase = w.phase)
    (job : w'.watcher.job = w.watcher.job)
    (kept : w.phase.isDecided = true →
      w'.watcher.canceled = w.watcher.canceled ∧ w'.watcher.returns = w.watcher.returns) :
    Agrees w' := by
  unfold Agrees Watcher.returnCount Watcher.successCount at *
  rw [phase, job]
  cases now : w.phase with
  | finalizing status | flushed status =>
    obtain ⟨canceled, returns⟩ := kept (by rw [now]; rfl)
    rw [now] at agrees
    simpa only [canceled, returns] using agrees
  | counted final canceled =>
    rw [now] at agrees
    exact agrees
  | _ => exact trivial

theorem of_open (undecided : w.phase.isOpen = true) : Agrees w := by
  unfold Agrees
  cases now : w.phase <;> rw [now] at undecided <;> first | exact trivial | cases undecided

theorem of_step (agrees : Agrees w) (subscribes : event ≠ .subscribeFails)
    (undisturbed : (w.phase.isDecided && event.disturbs) = false)
    (stepped : w.step event = some w') : Agrees w' := by
  have still : ∀ {p : Prop}, event.disturbs = true → w.phase.isDecided = true → p := by
    intro p disturbs decided
    simp [disturbs, decided] at undisturbed
  cases event with
  | subscribeFails => exact absurd rfl subscribes
  -- beside the main loop
  | ack subject payload =>
    simp only [step] at stepped
    split at stepped <;> cases stepped
    exact agrees.aside rfl (w.watcher.job_receiveAck subject payload)
      fun _ => w.watcher.receiveAck_keeps subject payload
  | returned subject payload =>
    simp only [step] at stepped
    split at stepped <;> cases stepped
    exact agrees.aside rfl (w.watcher.job_receiveReturn subject payload) (still rfl)
  | merge returns =>
    simp only [step] at stepped
    split at stepped <;> cases stepped
    exact agrees.aside rfl (w.watcher.job_mergeReturns returns) (still rfl)
  | cancel =>
    cases stepped
    exact agrees.aside rfl rfl (still rfl)
  | detach | persist fails =>
    cases stepped
    exact agrees.aside rfl rfl fun _ => ⟨rfl, rfl⟩
  -- the main loop, as long as nothing is decided
  | start expired =>
    cases phase : w.phase <;> simp only [step, phase] at stepped <;> cases stepped
    cases expired <;> exact trivial
  | subscribe | checkSeeds | timer =>
    cases phase : w.phase <;> simp only [step, phase] at stepped <;> cases stepped
    exact trivial
  | ackWindow =>
    cases phase : w.phase with
    | waiting ack unreachable =>
      cases ack <;> simp only [step, phase] at stepped <;> cases stepped
      exact trivial
    | _ => simp only [step, phase] at stepped; cases stepped
  | markUnreachable now =>
    cases phase : w.phase with
    | waiting ack unreachable =>
      cases unreachable <;> simp only [step, phase] at stepped <;> cases stepped
      refine of_open ?_
      split <;> rfl
    | _ => simp only [step, phase] at stepped; cases stepped
  | stop =>
    cases phase : w.phase <;> simp only [step, phase] at stepped <;> try cases stepped
    split at stepped <;> cases stepped
    exact trivial
  | finish =>
    cases phase : w.phase <;> simp only [step, phase] at stepped <;> cases stepped
    refine of_open ?_
    split <;> rfl
  -- the end of the watch
  | decide =>
    cases phase : w.phase <;> simp only [step, phase] at stepped <;> cases stepped
    exact w.watcher.terminalStatus_eq
  | flush fails | count now =>
    cases phase : w.phase <;> simp only [step, phase] at stepped <;> cases stepped
    simp only [Agrees, phase] at agrees
    exact agrees

theorem of_run (agrees : Agrees w) (subscribes : .subscribeFails ∉ events)
    (undisturbed : w.undisturbed events = true) (run : w.run events = some w') : Agrees w' := by
  induction events generalizing w with
  | nil =>
    cases run
    exact agrees
  | cons event events ih =>
    obtain ⟨next, stepped, rest⟩ := Option.bind_eq_some_iff.mp run
    obtain ⟨first, later⟩ := not_or.mp (mt List.mem_cons.mpr subscribes)
    simp only [Watch.undisturbed, stepped, Option.all_some, Bool.and_eq_true,
      Bool.not_eq_true'] at undisturbed
    exact ih (agrees.of_step (Ne.symm first) undisturbed.1 stepped) later undisturbed.2 rest

end Agrees

/-- Whatever happens during a watch, if nothing is recorded or canceled between the moments
at which the status is decided and the counts are read: the record that is written has the
status for its own counts. -/
theorem status_agrees_with_counts (watcher : Watcher) (events : List Event) (w : Watch)
    (run : run { watcher := watcher } events = some w)
    (subscribes : .subscribeFails ∉ events)
    (undisturbed : undisturbed { watcher := watcher } events = true)
    (final : Final) (canceled : Bool) (counted : w.phase = .counted final canceled) :
    (w.watcher.job.ended final).status = statusFor canceled
      (w.watcher.job.ended final).returnCount (w.watcher.job.ended final).successCount
      (w.watcher.job.ended final).targetCount := by
  have start : Agrees { watcher := watcher } := trivial
  have agrees := start.of_run subscribes undisturbed run
  simp only [Agrees, counted] at agrees
  exact agrees

def twoTargets : Watcher := { job := { jid := "j1", targets := ["web1", "web2"], epoch := 1 } }

def answer (peel : String) : Event :=
  .returned ("zester.job.j1.return." ++ peel)
    (some { jid := "j1", peelID := peel, success := true })

def lateAnswer : List Event :=
  [.start false, .subscribe, .checkSeeds, answer "web1", .timer, .finish, answer "web2", .decide,
    .flush fun _ => false, .count 9]

theorem status_agrees_with_counts_late :
    ∃ w final canceled, run { watcher := twoTargets } lateAnswer = some w ∧
      w.phase = .counted final canceled ∧ (w.watcher.job.ended final).status = .complete ∧
      (w.watcher.job.ended final).status = statusFor canceled
        (w.watcher.job.ended final).returnCount (w.watcher.job.ended final).successCount
        (w.watcher.job.ended final).targetCount :=
  ⟨_, _, _, rfl, rfl, rfl, status_agrees_with_counts twoTargets lateAnswer _ rfl
    (by simp [lateAnswer, answer]) (by decide) _ _ rfl⟩

def racedAnswer : List Event :=
  [.start false, .subscribe, .checkSeeds, answer "web1", .timer, .finish, .decide, answer "web2",
    .flush fun _ => false, .count 9]

/-- The record says that some of the targets answered, beside counts that say all did. -/
theorem partial_with_all_returns :
    ((run { watcher := twoTargets } racedAnswer).bind fun w => w.course.final.map fun final =>
        ((w.watcher.job.ended final).status, (w.watcher.job.ended final).returnCount,
          (w.watcher.job.ended final).successCount, (w.watcher.job.ended final).targetCount)) =
      some (.partial_, 2, 2, 2) ∧
    .subscribeFails ∉ racedAnswer ∧ ∀ canceled, statusFor canceled 2 2 2 = .complete :=
  ⟨by decide, by simp [racedAnswer, answer], by decide⟩

end Zester.Jobs
