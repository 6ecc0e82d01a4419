import Zester.Lib.Files
import Zester.Lib.Procedure
import Zester.Update.Slots

/-! The swaps of the slots, one file operation after the other, what a crash in the middle leaves,
and what the recovery at startup makes of it. -/
namespace Zester.Update

inductive Slot where
  | current
  | previous
  | staging
  deriving DecidableEq, Repr

namespace SlotManager

def path (s : SlotManager β) : Slot → String
  | .current => s.currentPath
  | .previous => s.previousPath
  | .staging => s.stagingPath

def get (s : SlotManager β) : Slot → Option β
  | .current => s.current
  | .previous => s.previous
  | .staging => s.staging

def set (s : SlotManager β) (binary : Option β) : Slot → SlotManager β
  | .current => { s with current := binary }
  | .previous => { s with previous := binary }
  | .staging => { s with staging := binary }

def stat (slot : Slot) (s : SlotManager β) : Except FileError (SlotManager β) :=
  match s.get slot with
  | none => .error (FileOp.missing "stat" (s.path slot))
  | some _ => .ok s

def remove (slot : Slot) (s : SlotManager β) : Except FileError (SlotManager β) :=
  match s.get slot with
  | none => .error (FileOp.missing "remove" (s.path slot))
  | some _ => .ok (s.set none slot)

def rename (source target : Slot) (s : SlotManager β) : Except FileError (SlotManager β) :=
  match s.get source with
  | none => .error (.notExist (missing (s.path source) (s.path target)))
  | some binary => .ok ((s.set none source).set (some binary) target)

abbrev Swapping (β α : Type) := Procedure (SlotManager β) FileError α

open Procedure (perform)

/-- The two renames of `Apply`. -/
def applyRenames : Swapping β (Except String Unit) := do
  match ← perform (rename .current .previous) with
  | .error err => return .error ("update: apply: current to previous: " ++ err.text)
  | .ok () =>
    match ← perform (rename .staging .current) with
    | .error err =>
      let _ ← perform (rename .previous .current)
      return .error ("update: apply: staging to current: " ++ err.text)
    | .ok () => return .ok ()

def applySteps : Swapping β (Except String Unit) := do
  match ← perform (stat .previous) with
  | .error _ => applyRenames
  | .ok () =>
    match ← perform (remove .previous) with
    | .error err => return .error ("update: apply: remove previous: " ++ err.text)
    | .ok () => applyRenames

/-- The end of `Rollback`. -/
def rollbackRename : Swapping β (Except String Unit) := do
  match ← perform (rename .previous .current) with
  | .error err => return .error ("update: rollback: previous to current: " ++ err.text)
  | .ok () =>
    let _ ← perform (remove .staging)
    return .ok ()

def rollbackSteps : Swapping β (Except String Unit) := do
  match ← perform (stat .previous) with
  | .error (.notExist _) => return .error "update: rollback: no previous binary"
  | .error (.failed _) | .ok () =>
    match ← perform (stat .current) with
    | .error _ => rollbackRename
    | .ok () =>
      match ← perform (remove .current) with
      | .error err => return .error ("update: rollback: remove current: " ++ err.text)
      | .ok () => rollbackRename

/-- Partial swaps are detected by what is there and what is not. -/
def recover : Swapping β (Except String Unit) := do
  let staging ← perform (stat .staging)
  let current ← perform (stat .current)
  let previous ← perform (stat .previous)
  if staging.isOk && !current.isOk then
    match ← perform (rename .staging .current) with
    | .error err => return .error ("update: recover: staging to current: " ++ err.text)
    | .ok () => return .ok ()
  else if previous.isOk && !current.isOk then
    match ← perform (rename .previous .current) with
    | .error err => return .error ("update: recover: previous to current: " ++ err.text)
    | .ok () => return .ok ()
  else return .ok ()

end SlotManager

/-- The operations that swap slots. -/
inductive Swap where
  | apply
  | rollback
  deriving DecidableEq, Repr

namespace Swap
variable {β : Type}

def steps : Swap → SlotManager.Swapping β (Except String Unit)
  | .apply => SlotManager.applySteps
  | .rollback => SlotManager.rollbackSteps

def source : Swap → Slot
  | .apply => .staging
  | .rollback => .previous

end Swap
open SlotManager Option

/-- Run to the end, the steps of `Apply` make its swap. -/
theorem applySteps_run (s : SlotManager β) : applySteps.run s = (s.apply.2, s.apply.1) := by
  obtain ⟨basePath, current, previous, staging⟩ := s
  cases current <;> cases previous <;> cases staging <;> rfl

theorem rollbackSteps_run (s : SlotManager β) :
    rollbackSteps.run s = (s.rollback.2, s.rollback.1) := by
  obtain ⟨basePath, current, previous, staging⟩ := s
  cases current <;> cases previous <;> cases staging <;> rfl

/-- The recovery keeps the current binary, or takes the staged one before the previous one. -/
theorem recover_run (s : SlotManager β) :
    (recover.run s).1.current = s.current.or (s.staging.or s.previous) ∧
    (recover.run s).2 = .ok () := by
  obtain ⟨basePath, current, previous, staging⟩ := s
  cases current <;> cases previous <;> cases staging <;> exact ⟨rfl, rfl⟩

theorem apply_stopped (held : s.current = some running) (staged : s.staging = some binary)
    (n : Nat) :
    (applySteps.stopped s n).current = some running ∨
    (applySteps.stopped s n).current = some binary ∨
      ((applySteps.stopped s n).current = none ∧
        (applySteps.stopped s n).staging = some binary) := by
  obtain ⟨basePath, current, previous, staging⟩ := s
  obtain rfl : current = some running := held
  obtain rfl : staging = some binary := staged
  cases previous with
  | none =>
    obtain _ | _ | _ | _ | n := n
    · exact .inl rfl
    · exact .inl rfl
    · exact .inr (.inr ⟨rfl, rfl⟩)
    · exact .inr (.inl rfl)
    · exact .inr (.inl rfl)
  | some old =>
    obtain _ | _ | _ | _ | _ | n := n
    · exact .inl rfl
    · exact .inl rfl
    · exact .inl rfl
    · exact .inr (.inr ⟨rfl, rfl⟩)
    · exact .inr (.inl rfl)
    · exact .inr (.inl rfl)

/-- The number of the operation of `Rollback` that removes the current binary. -/
def removal : Nat := 3

theorem rollback_stopped (held : s.current = some running) (kept : s.previous = some binary)
    (elsewhere : n ≠ removal) :
    (rollbackSteps.stopped s n).current = some running ∨
    (rollbackSteps.stopped s n).current = some binary := by
  obtain ⟨basePath, current, previous, staging⟩ := s
  obtain rfl : current = some running := held
  obtain rfl : previous = some binary := kept
  obtain _ | _ | _ | _ | _ | n := n
  · exact .inl rfl
  · exact .inl rfl
  · exact .inl rfl
  · exact absurd rfl elsewhere
  · exact .inr rfl
  · cases staging <;> cases n <;> exact .inr rfl

theorem rollback_stopped_removal (held : s.current = some running)
    (kept : s.previous = some binary) :
    rollbackSteps.stopped s removal = { s with current := none } := by
  obtain ⟨basePath, current, previous, staging⟩ := s
  obtain rfl : current = some running := held
  obtain rfl : previous = some binary := kept
  rfl

/-- After a crash in a swap and the recovery, the current slot holds what it held before the swap
or what the swap was to put there, if and only if the crash did not come right after a rollback
removed the current binary, with a third one staged. -/
theorem slots_survive_crash_iff (s : SlotManager β) (swap : Swap) (held : s.current.isSome)
    (ready : (s.get swap.source).isSome) (n : Nat) :
    ((∃ binary, (recover.run (swap.steps.stopped s n)).1.current = some binary ∧
        (s.current = some binary ∨ s.get swap.source = some binary)) ↔
      (swap = .rollback → n = removal → s.staging = none ∨ s.staging = s.current ∨
        s.staging = s.previous)) := by
  obtain ⟨running, held⟩ := isSome_iff_exists.mp held
  obtain ⟨binary, ready⟩ := isSome_iff_exists.mp ready
  rw [(recover_run _).1, held, ready]
  cases swap with
  | apply =>
    refine ⟨fun _ other => (by cases other), fun _ => ?_⟩
    obtain current | current | ⟨current, staging⟩ := apply_stopped held ready n
    · exact ⟨running, by rw [Swap.steps, current, some_or], .inl rfl⟩
    · exact ⟨binary, by rw [Swap.steps, current, some_or], .inr rfl⟩
    · exact ⟨binary, by rw [Swap.steps, current, staging, none_or, some_or], .inr rfl⟩
  | rollback =>
    by_cases here : n = removal
    · subst here
      have kept : s.previous = some binary := ready
      rw [Swap.steps, rollback_stopped_removal held ready, none_or, kept]
      cases staging : s.staging with
      | none => simp
      | some staged => simp [eq_comm]
    · refine ⟨fun _ _ there => absurd there here, fun _ => ?_⟩
      obtain current | current := rollback_stopped held ready here
      · exact ⟨running, by rw [Swap.steps, current, some_or], .inl rfl⟩
      · exact ⟨binary, by rw [Swap.steps, current, some_or], .inr rfl⟩

def stagedSlots : SlotManager String := ⟨"/usr/bin/zester-peel", some "v2", some "v1", some "v3"⟩

/-- An update that crashed after its first rename is completed. -/
theorem slots_survive_crash_iff_apply :
    ∃ binary, (recover.run (applySteps.stopped stagedSlots 3)).1.current = some binary ∧
      (stagedSlots.current = some binary ∨ stagedSlots.get .staging = some binary) :=
  (slots_survive_crash_iff stagedSlots .apply rfl rfl 3).mpr fun other => by cases other

/-- A rollback that crashed ends with the binary that was staged. -/
theorem crashed_rollback_runs_staged :
    (recover.run (rollbackSteps.stopped stagedSlots removal)).1.current = some "v3" ∧
      stagedSlots.current = some "v2" ∧ stagedSlots.previous = some "v1" := by
  exact ⟨rfl, rfl, rfl⟩

/-- The number of the rename with which `Apply` puts the current binary back. One operation is
left out before it if the previous binary is not found. -/
def recovery (s : SlotManager β) (failing : Nat) : Nat :=
  if s.previous = none ∨ failing = 0 then 3 else 4

/-- The previous binary outlives a failed `Apply`: there is none, its removal is what fails, it is
not found and stays or the swap succeeds, or nothing fails. -/
def Spared (s : SlotManager β) (failing : Nat) : Prop :=
  s.previous = none ∨ failing = 1 ∨ (failing = 0 ∧ (s.current = none ∨ s.staging ≠ none)) ∨
    (4 < failing ∧ s.current ≠ none ∧ s.staging ≠ none)

/-- An `Apply` that fails and can put the current binary back changes no slot, if and only if the
previous binary is spared. -/
theorem failed_apply_unchanged_iff (s : SlotManager β) (failing : Nat) (fault : FileError)
    (restores : failing ≠ recovery s failing) :
    (∀ text, (applySteps.runFailing s fault failing).2 = .error text →
      (applySteps.runFailing s fault failing).1 = s) ↔ Spared s failing := by
  obtain ⟨basePath, current, previous, staging⟩ := s
  cases previous with
  | none =>
    -- nothing is removed, and what the first rename moves away is put back
    obtain _ | _ | _ | _ | failing := failing <;> cases current <;> cases staging <;>
      simp_all [recovery, Spared, applySteps, applyRenames, Procedure.runFailing,
        Procedure.run, stat, rename, SlotManager.get, SlotManager.set]
  | some old =>
    obtain _ | _ | _ | _ | _ | failing := failing <;> cases current <;> cases staging <;>
      simp_all [recovery, Spared, applySteps, applyRenames, Procedure.runFailing, Procedure.run,
        stat, remove, rename, SlotManager.get, SlotManager.set]

/-- Nothing changes when the previous binary cannot be removed. -/
theorem failed_apply_unchanged_iff_removal :
    (applySteps.runFailing stagedSlots (.failed "permission denied") 1).1 = stagedSlots :=
  (failed_apply_unchanged_iff stagedSlots 1 (.failed "permission denied") (by decide)).mpr
    (.inr (.inl rfl)) _ rfl

/-- An `Apply` whose second rename fails puts the current binary back, and the previous one is
gone. -/
theorem failed_apply_loses_previous :
    applySteps.runFailing stagedSlots (.failed "input/output error") 3 =
      (⟨"/usr/bin/zester-peel", some "v2", none, some "v3"⟩,
        .error ("update: apply: staging to current: " ++ "input/output error")) ∧
      stagedSlots.previous = some "v1" ∧ 3 ≠ recovery stagedSlots 3 :=
  ⟨rfl, rfl, by decide⟩

end Zester.Update
