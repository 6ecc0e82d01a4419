import Zester.Modules.File.KeyValueProofs
import Zester.Modules.File.States

/-! When `Revert` brings back the file that was there before the first `Apply` of an instance. -/
namespace Zester.Modules.File
open States FileProgram

theorem fsxRevert_runs (runs : (fsxRevert path backup backupSet module).Runs disk
      (.ok result) disk') : disk' path = if backupSet then some backup else disk path := by
  unfold fsxRevert at runs
  cases backupSet with
  | true =>
    have rest := runs_write runs fun _ _ failed => by cases (runs_done failed).1
    simp [(runs_done rest).2]
  | false =>
    obtain ⟨-, rfl⟩ := runs_done runs
    rfl

theorem fsxRevertWithCreate_runs
    (runs : (fsxRevertWithCreate path backup backupSet created module).Runs disk
      (.ok result) disk') :
    disk' path = if backupSet then some backup else if created then none else disk path := by
  unfold fsxRevertWithCreate at runs
  by_cases removes : (!backupSet && created) = true
  · rw [if_pos removes] at runs
    obtain ⟨reply, after, gone, rest⟩ := runs_remove runs fun _ _ failed => by
      cases (runs_done failed).1
    have gone : disk' path = none := by
      obtain (_ | _) | _ := reply <;> rwa [(runs_done rest).2]
    obtain ⟨unset, made⟩ : backupSet = false ∧ created = true := by simpa using removes
    simp [unset, made, gone]
  · rw [if_neg removes] at runs
    rw [fsxRevert_runs runs]
    cases backupSet <;> cases created <;> simp_all

section
variable {e : Edit}

theorem course_some (e : Edit) (data : Text) (n : Nat) :
    (e.course {} (some data) (n + 1)).2.backup = data ∧
    (e.course {} (some data) (n + 1)).2.backupSet = true := by
  induction n with
  | zero => exact ⟨rfl, rfl⟩
  | succ n ih =>
    rw [Edit.course]
    cases (e.course {} (some data) (n + 1)).1 with
    | some other => simp [Edit.remembers, Memo.keep, ih]
    | none =>
      rw [Edit.remembers]
      split <;> exact ih

theorem course_absent (idle : e.plan none = none) (n : Nat) : e.course {} none n = (none, {}) := by
  induction n with
  | zero => rfl
  | succ n ih =>
    rw [Edit.course, ih]
    simp [Edit.after_of_plan idle, Edit.remembers, idle]

/-- A file that the first call has made is there for the second, and is kept as if it had been there
before. -/
theorem course_created (makes : e.plan none = some plan) (n : Nat) :
    (e.course {} none (n + 2)).2.backupSet = true := by
  induction n with
  | zero => simp [Edit.course, Edit.after, makes, Edit.remembers, Memo.keep]
  | succ n ih =>
    rw [Edit.course]
    cases (e.course {} none (n + 2)).1 with
    | some other => simp [Edit.remembers, Memo.keep, ih]
    | none =>
      rw [Edit.remembers]
      split <;> exact ih

theorem course_once (makes : e.plan none = some plan) :
    (e.course {} none 1).2 = { created := true } := by
  simp [Edit.course, Edit.remembers, makes]

end

theorem appended_eq_zero_iff (text : List Text) (content : Text) (n : Nat) :
    (text.foldl FileAppend.appendLine (content, n)).2 = n ↔ ∀ line ∈ text, line <:+: content := by
  have grows : ∀ (text : List Text) (content : Text) (n : Nat),
      n ≤ (text.foldl FileAppend.appendLine (content, n)).2 := by
    intro text
    induction text with
    | nil => exact fun content n => Nat.le_refl n
    | cons line text ih =>
      intro content n
      rw [List.foldl_cons, FileAppend.appendLine]
      split
      · exact ih content n
      · exact (Nat.le_succ n).trans (ih _ (n + 1))
  induction text with
  | nil => simp
  | cons line text ih =>
    rw [List.foldl_cons, FileAppend.appendLine, List.forall_mem_cons]
    by_cases present : line <:+: content
    · simpa [present] using ih
    · simp only [present, if_false, false_and, iff_false]
      have more := grows text ((if content ≠ [] ∧
        content.getLast? ≠ some '\n' then content ++ ['\n'] else content) ++ line ++ ['\n']) (n + 1)
      omega

theorem FileState.plan_none (s : FileState) : (s.edit.plan none).isSome = s.creates := by
  cases s with
  | line compile f =>
    cases makes : f.createsOnMissing <;> simp [edit, creates, FileLine.edit, FileLine.plan, makes]
  | blockreplace f =>
    cases makes : f.appendIfNotFound <;>
      simp [edit, creates, FileBlockReplace.edit, FileBlockReplace.plan, makes]
  | keyvalue f =>
    simp [edit, creates, FileKeyValue.edit, FileKeyValue.plan, FileKeyValue.compute_nil_changed f]
  | append f =>
    have appended := appended_eq_zero_iff f.text [] 0
    simp only [List.infix_nil] at appended
    have makes : (f.edit.plan none).isSome = true ↔ ¬ ∀ line ∈ f.text, line = [] := by
      rw [← appended]
      by_cases zero : (f.text.foldl FileAppend.appendLine ([], 0)).2 =
        0 <;> simp [FileAppend.edit, FileAppend.plan, zero]
    rw [Bool.eq_iff_iff]
    change (f.edit.plan none).isSome = true ↔ f.text.any (· ≠ []) = true
    rw [makes]
    simp
  | replace f =>
    cases makes : f.appendIfNotFound || f.prependIfNotFound <;>
      simp [edit, creates, FileReplace.edit, FileReplace.plan, FileReplace.transform, makes]
  | comment f => rfl

namespace FileState
variable {s : FileState}

theorem revert_runs (able : memo.created = true → s.creates = true)
    (runs : (s.revert memo).Runs disk (.ok result) disk') : disk' s.edit.path =
      if memo.backupSet then some memo.backup else if memo.created then none
        else disk s.edit.path := by
  cases s with
  | comment f =>
    have unmade : memo.created = false := by
      cases made : memo.created with
      | false => rfl
      | true => cases able made
    rw [unmade]
    exact fsxRevert_runs runs
  | _ => exact fsxRevertWithCreate_runs runs

theorem revert_kept (kept : memo.backupSet = true)
    (runs : (s.revert memo).Runs disk (.ok result) disk') :
    disk' s.edit.path = some memo.backup := by
  cases s with
  | comment f => exact (fsxRevert_runs runs).trans (if_pos kept)
  | _ => exact (fsxRevertWithCreate_runs runs).trans (if_pos kept)

theorem revert_succeeds (s : FileState) (memo : Memo) (disk : Disk Text) :
    ∃ result disk', (s.revert memo).Runs disk (.ok result) disk' := by
  have plainly : ∀ path module, ∃ result,
      ((fsxRevert path memo.backup memo.backupSet module).run disk).1 = .ok result := by
    intro path module
    unfold fsxRevert
    cases memo.backupSet <;> exact ⟨_, rfl⟩
  have carried : ∃ result, ((s.revert memo).run disk).1 = .ok result := by
    have withCreate : ∀ e : Edit, ∃ result, ((e.revert memo).run disk).1 = .ok result := by
      intro e
      unfold Edit.revert fsxRevertWithCreate
      split
      · rw [run_bind, run_op]
        refine ⟨⟨true, "removed " ++ e.path ++ " (revert to nonexistent)", []⟩, ?_⟩
        cases held : disk e.path <;> simp only [FileOp.perform, held, FileOp.missing, run_pure]
      · exact plainly _ _
    cases s with
    | comment f => exact plainly _ _
    | _ => exact withCreate _
  obtain ⟨result, same⟩ := carried
  exact ⟨result, _, same ▸ run_runs (s.revert memo) disk⟩

/-- `Revert` after the given number of successful calls of `Apply` on a fresh instance brings back
the file. -/
def Restores (s : FileState) (disk : Disk Text) (n : Nat) : Prop :=
  ∀ disk' memo, s.edit.Applied n disk {} disk' memo →
    ∀ result disk'', (s.revert memo).Runs disk' (.ok result) disk'' →
      disk'' s.edit.path = disk s.edit.path

/-- After any number of successful calls of `Apply` on one instance, `Revert` brings back the
existence and the content from before the first call, if and only if the file existed, or there was
one call only, or the state makes no file where there is none. -/
theorem revert_restores_iff (s : FileState) (disk : Disk Text) (n : Nat) :
    s.Restores disk (n + 1) ↔ (disk s.edit.path).isSome = true ∨ n + 1 = 1 ∨ s.creates = false := by
  cases held : disk s.edit.path with
  | some data =>
    refine ⟨fun _ => .inl rfl, fun _ disk' memo applied result disk'' reverted => ?_⟩
    have course := congrArg Prod.snd applied.course
    rw [held] at course
    obtain ⟨backup, kept⟩ := course_some s.edit data n
    simp only at course
    rw [revert_kept (course ▸ kept) reverted, course, backup, held]
  | none =>
    cases makes : s.creates with
    | false =>
      refine ⟨fun _ => .inr (.inr rfl), fun _ disk' memo applied result disk'' reverted => ?_⟩
      have idle : s.edit.plan none = none := by
        rw [← Option.not_isSome_iff_eq_none, s.plan_none, makes]
        exact Bool.false_ne_true
      have course := applied.course
      rw [held, course_absent idle] at course
      obtain ⟨content, rfl⟩ := Prod.mk.inj course
      rw [revert_runs (by simp) reverted, held]
      exact content
    | true =>
      obtain ⟨plan, planned⟩ : ∃ plan, s.edit.plan none = some plan := by
        rw [← Option.isSome_iff_exists, s.plan_none, makes]
      simp only [Option.isSome_none, Bool.false_eq_true, false_or, or_false, reduceCtorEq]
      constructor
      · intro restores
        cases n with
        | zero => rfl
        | succ n =>
          obtain ⟨disk', memo, applied⟩ := s.edit.applied_succeeds (n + 2) disk {}
          obtain ⟨result, disk'', reverted⟩ := s.revert_succeeds memo disk'
          have restored := restores disk' memo applied result disk'' reverted
          have course := congrArg Prod.snd applied.course
          rw [held] at course
          simp only at course
          rw [revert_kept (course ▸ course_created planned n) reverted, held] at restored
          cases restored
      · intro once disk' memo applied result disk'' reverted
        have course := congrArg Prod.snd applied.course
        rw [held, once, course_once planned] at course
        simp only at course
        rw [revert_runs (fun _ => makes) reverted, course, held]
        rfl

end FileState

def mailto : FileState :=
  .line (fun _ => none) ⟨"/etc/cron.env", "MAILTO=root".toList, "ensure", [], [], []⟩

/-- The second call takes the file that the first has made for one that was there before. -/
theorem created_file_survives_revert : ¬ mailto.Restores (fun _ => none) 2 := by
  intro restores
  obtain ⟨disk', memo, applied⟩ := mailto.edit.applied_succeeds 2 (fun _ => none) {}
  obtain ⟨result, disk'', reverted⟩ := mailto.revert_succeeds memo disk'
  have restored := restores disk' memo applied result disk'' reverted
  have kept : memo.backupSet = true := by
    have course := congrArg Prod.snd applied.course
    simp only at course
    rw [course]
    decide
  rw [FileState.revert_kept kept reverted] at restored
  cases restored

end Zester.Modules.File
