import Zester.Update.Handler

/-! What a rollback restores. The handler rolls back a staged update as it does an applied one,
so that what an earlier update left in the previous slot takes the place of the current binary. -/
namespace Zester.Update
open SlotManager

section
variable {s : SlotManager β}

theorem stage_keeps (sha256 : β → String) (data : β) (hash : String) :
    (s.stage sha256 data hash).2.current = s.current ∧
      (s.stage sha256 data hash).2.previous = s.previous := by
  unfold stage
  dsimp only
  split <;> exact ⟨rfl, rfl⟩

theorem apply_cases : (∃ text, s.apply.1 = .error text ∧ s.apply.2.current = s.current) ∨
    (s.apply.1 = .ok () ∧ s.current.isSome ∧ s.apply.2.previous = s.current) := by
  unfold apply
  split
  · exact .inl ⟨_, rfl, rfl⟩
  · exact .inl ⟨_, rfl, by simp [*]⟩
  · exact .inr ⟨rfl, by simp [*], by simp [*]⟩

theorem rollback_current (kept : s.previous = some binary) :
    s.rollback.2.current = some binary := by
  simp [SlotManager.rollback, kept]

theorem rollback_none (empty : s.previous = none) : s.rollback.2 = s := by
  simp [SlotManager.rollback, empty]

end

section
variable {β : Type} (config : HandlerConfig β)

def dropped (cmd : UpdateCommand) : Bool :=
  cmd.component ≠ "" ∧ config.component ≠ "" ∧ cmd.component ≠ config.component

def prepares (h : Handler β) : Event β → Bool
  | .command cmd _ =>
    !dropped config cmd && cmd.command = .prepare && (h.state = .idle || h.state = .confirmed)
  | .soak _ _ => false

/-- At the event the handler rolls back an update that it has. -/
def callsRollback (h : Handler β) : Event β → Bool
  | .command cmd _ =>
    !dropped config cmd && cmd.command = .rollback &&
      (h.state = .soaking || h.state = .staged || h.state = .applying)
  | .soak id event =>
    ((h.soaks[id]?).filter fun soak => !soak.ended).any (fun soak =>
      match soak.next config.healthRetries event with
      | some .rollBack => true
      | _ => false) && h.state ≠ .confirmed && h.state ≠ .idle

/-- At the event a new binary that was swapped in does not start, and is swapped out again. -/
def failsToStart (h : Handler β) : Event β → Bool
  | .command cmd answers =>
    !dropped config cmd && cmd.command = .apply && h.state = .staged && h.slots.apply.1.toBool &&
      !answers.started.toBool
  | .soak _ _ => false

def rollsBack (h : Handler β) (e : Event β) : Bool :=
  callsRollback config h e || failsToStart config h e

/-- What an event can do to the state and the slots. -/
inductive Effect (h h' : Handler β) (e : Event β) : Prop where
  | quiet (state : h'.state = h.state) (slots : h'.slots = h.slots)
      (neither : prepares config h e = false ∧ rollsBack config h e = false)
  | prepare (is : prepares config h e = true) (no : rollsBack config h e = false)
      (current : h'.slots.current = h.slots.current) (state : h'.state = .idle ∨ h'.state = .staged)
  | applyFails (before : h.state = .staged) (after : h'.state = .staged)
      (current : h'.slots.current = h.slots.current)
      (neither : prepares config h e = false ∧ rollsBack config h e = false)
  | apply (before : h.state = .staged) (after : h'.state = .soaking) (some : h.slots.current.isSome)
      (previous : h'.slots.previous = h.slots.current)
      (neither : prepares config h e = false ∧ rollsBack config h e = false)
  | undone (is : failsToStart config h e = true) (no : prepares config h e = false)
      (before : h.state = .staged) (after : h'.state = .idle)
      (current : h'.slots.current = h.slots.current)
  | confirm (after : h'.state = .confirmed)
      (neither : prepares config h e = false ∧ rollsBack config h e = false)
  | rollback (is : callsRollback config h e = true) (no : prepares config h e = false)
      (after : h'.state = .idle) (slots : h'.slots = h.slots.rollback.2)

variable {config}

@[simp] theorem cancelSoak_state : (cancelSoak h).state = h.state := by
  unfold cancelSoak
  split <;> rfl

@[simp] theorem cancelSoak_slots : (cancelSoak h).slots = h.slots := by
  unfold cancelSoak
  split <;> rfl

section
variable (here : dropped config cmd = false)
include here

theorem prepare_effect (is : cmd.command = .prepare) :
    Effect config h (handlePrepare config answers cmd h).1 (.command cmd answers) := by
  have no : rollsBack config h (.command cmd answers) = false := by
    simp [rollsBack, callsRollback, failsToStart, is]
  unfold handlePrepare
  split
  · rename_i refused
    exact .quiet rfl rfl ⟨by simp [prepares, here, is, refused], no⟩
  rename_i taken
  have starts : prepares config h (.command cmd answers) = true := by
    simpa [prepares, here, is, or_iff_not_imp_left] using taken
  split
  · exact .prepare starts no rfl (.inl rfl)
  rename_i data _
  obtain ⟨current, -⟩ := stage_keeps (s := h.slots) config.sha256 data cmd.sha256
  split <;> rename_i staged
  · exact .prepare starts no (by simpa [staged] using current) (.inl rfl)
  · exact .prepare starts no (by simpa [staged] using current) (.inr rfl)

theorem apply_effect (is : cmd.command = .apply) :
    Effect config h (handleApply answers h).1 (.command cmd answers) := by
  have no : prepares config h (.command cmd answers) = false := by simp [prepares, is]
  have calls : callsRollback config h (.command cmd answers) = false := by
    simp [callsRollback, is]
  unfold handleApply
  split
  · rename_i refused
    exact .quiet rfl rfl ⟨no, by simp [rollsBack, calls, failsToStart, refused]⟩
  rename_i taken
  have staged : h.state = .staged := by simpa using taken
  obtain ⟨text, failed, current⟩ | ⟨swapped, some, previous⟩ := apply_cases (s := h.slots)
  · have starts : failsToStart config h (.command cmd answers) = false := by
      simp [failsToStart, failed, Except.toBool]
    split <;> rename_i same
    · exact .applyFails staged staged (by simpa [same] using current)
        ⟨no, by simp [rollsBack, calls, starts]⟩
    · simp [same] at failed
  · split
    · rename_i same
      simp [same] at swapped
    rename_i slots same
    have previous : slots.previous = h.slots.current := by simpa [same] using previous
    split
    · rename_i failed
      obtain ⟨binary, held⟩ := Option.isSome_iff_exists.mp some
      refine .undone ?_ no staged rfl ?_
      · simp [failsToStart, here, is, staged, swapped, failed, Except.toBool]
      · rw [held]
        exact rollback_current (previous.trans held)
    · rename_i started
      exact .apply staged rfl some previous
        ⟨no, by simp [rollsBack, calls, failsToStart, started, Except.toBool]⟩

theorem rollback_effect (is : cmd.command = .rollback) :
    Effect config h (handleRollback h).1 (.command cmd answers) := by
  have no : prepares config h (.command cmd answers) = false := by simp [prepares, is]
  have starts : failsToStart config h (.command cmd answers) = false := by simp [failsToStart, is]
  unfold handleRollback
  split
  · rename_i refused
    exact .quiet rfl rfl ⟨no, by simp [rollsBack, callsRollback, starts, refused]⟩
  rename_i taken
  refine .rollback ?_ no ?_ ?_
  · simpa [callsRollback, here, is, or_iff_not_imp_left, and_assoc] using taken
  · simp [rollback]
  · simp [rollback]

end

theorem confirm_effect (is : cmd.command = .confirm) :
    Effect config h (handleConfirm h).1 (.command cmd answers) := by
  have neither : prepares config h (.command cmd answers) = false ∧
      rollsBack config h (.command cmd answers) = false := by
    simp [prepares, rollsBack, callsRollback, failsToStart, is]
  unfold handleConfirm
  split
  · exact .quiet rfl rfl neither
  · exact .confirm (by simp) neither

theorem soak_effect (id : Nat) (event : SoakEvent) :
    Effect config h (soakPeriod config.healthRetries id event h) (.soak id event) := by
  have no : prepares config h (.soak id event) = false := rfl
  unfold soakPeriod
  split
  · rename_i absent
    exact .quiet rfl rfl ⟨no, by simp [rollsBack, callsRollback, failsToStart, absent]⟩
  rename_i running
  split <;> rename_i next
  iterate 3
    exact .quiet rfl rfl ⟨no, by simp [rollsBack, callsRollback, failsToStart, running, next]⟩
  by_cases past : h.state = .confirmed ∨ h.state = .idle
  · refine .quiet (by simp [rollback, past]) (by simp [rollback, past]) ⟨no, ?_⟩
    obtain past | past := past <;>
      simp [rollsBack, callsRollback, failsToStart, running, next, past]
  · refine .rollback ?_ no (by simp [rollback, past]) (by simp [rollback, past])
    obtain ⟨confirmed, idle⟩ := not_or.mp past
    simp [callsRollback, running, next, confirmed, idle]

theorem step_effect (config : HandlerConfig β) (h : Handler β) (e : Event β) :
    Effect config h (h.step config e) e := by
  cases e with
  | soak id event => exact soak_effect id event
  | command cmd answers =>
    simp only [Handler.step, handleMessage]
    split
    · rename_i other
      have gone : dropped config cmd = true := by simpa [dropped] using other
      exact .quiet rfl rfl ⟨by simp [prepares, gone],
        by simp [rollsBack, callsRollback, failsToStart, gone]⟩
    · rename_i here
      have here : dropped config cmd = false := by simpa [dropped] using here
      cases is : cmd.command with
      | prepare => exact prepare_effect here is
      | apply => exact apply_effect here is
      | confirm => exact confirm_effect is
      | rollback => exact rollback_effect here is
      | status | unknown name =>
        exact .quiet rfl rfl ⟨by simp [prepares, is],
          by simp [rollsBack, callsRollback, failsToStart, is]⟩

end

section
variable (config : HandlerConfig β)

/-- The handler, with what was in the current slot when the last prepare started. -/
structure Tracked (β : Type) where
  handler : Handler β
  base : Option β

def Tracked.step (t : Tracked β) (e : Event β) : Tracked β where
  handler := t.handler.step config e
  base := if prepares config t.handler e then t.handler.slots.current else t.base

def run (slots : SlotManager β) (events : List (Event β)) : Tracked β :=
  events.foldl (Tracked.step config) ⟨newHandler slots, slots.current⟩

/-- The states between the events, with what can be restored in each of them. -/
structure Restorable (t : Tracked β) : Prop where
  between : t.handler.state ≠ .preparing ∧ t.handler.state ≠ .applying ∧
    t.handler.state ≠ .rollingBack
  staged : t.handler.state = .staged → t.handler.slots.current = t.base
  soaking : t.handler.state = .soaking → t.base.isSome ∧ t.handler.slots.previous = t.base

variable {config}

theorem Restorable.of_idle (idle : t.handler.state = .idle ∨ t.handler.state = .confirmed) :
    Restorable t := by
  obtain idle | idle := idle
  all_goals constructor <;> simp [idle]

theorem Restorable.of_staged (staged : t.handler.state = .staged)
    (current : t.handler.slots.current = t.base) : Restorable t := by
  constructor <;> simp [staged, current]

theorem Restorable.of_soaking (soaking : t.handler.state = .soaking) (some : t.base.isSome)
    (previous : t.handler.slots.previous = t.base) : Restorable t := by
  constructor <;> simp [soaking, some, previous]

theorem Restorable.active (restorable : Restorable t)
    (calls : callsRollback config t.handler e = true) :
    t.handler.state = .staged ∨ t.handler.state = .soaking := by
  obtain ⟨preparing, applying, rollingBack⟩ := restorable.between
  have past : t.handler.state ≠ .idle ∧ t.handler.state ≠ .confirmed := by
    constructor <;> intro past <;> cases e <;> simp [callsRollback, past] at calls
  cases state : t.handler.state <;> simp_all

theorem Restorable.rollback_iff (restorable : Restorable t)
    (calls : callsRollback config t.handler e = true) :
    t.handler.slots.rollback.2.current = t.base ↔ (t.handler.state = .staged →
        t.handler.slots.previous = none ∨ t.handler.slots.previous = t.handler.slots.current) := by
  obtain staged | soaking := restorable.active calls
  · have current := restorable.staged staged
    cases kept : t.handler.slots.previous with
    | none => simp [rollback_none kept, current]
    | some binary => simp [rollback_current kept, current, staged]
  · obtain ⟨some, previous⟩ := restorable.soaking soaking
    obtain ⟨binary, held⟩ := Option.isSome_iff_exists.mp some
    simp [rollback_current (previous.trans held), held, soaking]

/-- A rollback comes back to the binary of the prepare, unless a staged update finds another
one in the previous slot. -/
theorem Restorable.restores_iff (restorable : Restorable t)
    (rolls : rollsBack config t.handler e = true) :
    (t.handler.step config e).slots.current = t.base ↔
      (callsRollback config t.handler e = true → t.handler.state = .staged →
        t.handler.slots.previous = none ∨ t.handler.slots.previous = t.handler.slots.current) := by
  cases step_effect config t.handler e with
  | quiet _ _ neither | applyFails _ _ _ neither | apply _ _ _ _ neither | confirm _ neither =>
    cases rolls.symm.trans neither.2
  | prepare _ no => cases rolls.symm.trans no
  | undone fails _ before _ current =>
    have only : callsRollback config t.handler e = false := by
      cases e with
      | soak id event => cases fails
      | command cmd answers =>
        simp only [failsToStart, Bool.and_eq_true, decide_eq_true_eq] at fails
        simp [callsRollback, fails.1.1.1.2]
    simp [current, restorable.staged before, only]
  | rollback calls _ _ slots => simp [slots, restorable.rollback_iff calls, calls]

theorem Restorable.step (restorable : Restorable t) : Restorable (t.step config e) := by
  have unprepared : prepares config t.handler e = false → (t.step config e).base = t.base := by
    intro no
    simp [Tracked.step, no]
  cases step_effect config t.handler e with
  | quiet state slots neither =>
    have base := unprepared neither.1
    constructor
    · simpa only [Tracked.step, state] using restorable.between
    · intro staged
      rw [base, ← restorable.staged (state ▸ staged)]
      exact congrArg current slots
    · intro soaking
      obtain ⟨some, previous⟩ := restorable.soaking (state ▸ soaking)
      rw [base]
      exact ⟨some, (congrArg SlotManager.previous slots).trans previous⟩
  | prepare is no current state =>
    obtain idle | staged := state
    · exact .of_idle (.inl idle)
    · exact .of_staged staged (by simpa [Tracked.step, is] using current)
  | applyFails before after current neither =>
    refine .of_staged after ?_
    rw [unprepared neither.1, ← restorable.staged before]
    exact current
  | apply before after some previous neither =>
    have base := (restorable.staged before).trans (unprepared neither.1).symm
    exact .of_soaking after (base ▸ some) (base ▸ previous)
  | undone is no before after current | rollback is no after slots => exact .of_idle (.inl after)
  | confirm after neither => exact .of_idle (.inr after)

theorem restorable_run (slots : SlotManager β) (events : List (Event β)) :
    Restorable (run config slots events) :=
  List.foldlRecOn events _ (.of_idle (.inl rfl)) fun _ restorable _ _ => restorable.step

/-- In every run, a rollback comes back to the binary that the last prepare found, and one of a
staged update changes nothing, unless a staged update finds another binary in the previous slot. -/
theorem rollback_restores_prepared_iff (config : HandlerConfig β) (slots : SlotManager β)
    (events : List (Event β)) (e : Event β)
    (rolls : rollsBack config (run config slots events).handler e = true) :
    ((run config slots (events ++ [e])).handler.slots.current = (run config slots events).base ∧
      ((run config slots events).handler.state = .staged →
        (run config slots (events ++ [e])).handler.slots.current =
          (run config slots events).handler.slots.current)) ↔
    (callsRollback config (run config slots events).handler e = true →
      (run config slots events).handler.state = .staged →
      (run config slots events).handler.slots.previous = none ∨
        (run config slots events).handler.slots.previous =
          (run config slots events).handler.slots.current) := by
  have restorable : Restorable (run config slots events) := restorable_run slots events
  have last : (run config slots (events ++ [e])).handler =
      (run config slots events).handler.step config e := by
    simp [run, List.foldl_append, Tracked.step]
  rw [last, ← restorable.restores_iff rolls]
  refine ⟨And.left, fun restored => ⟨restored, fun staged => ?_⟩⟩
  rw [restored, restorable.staged staged]

end

def peelConfig : HandlerConfig String := ⟨"peel", 3, id⟩

def installed : SlotManager String := ⟨"/usr/local/bin/zester-peel", some "v1", none, none⟩

def prepareOf (version : String) : Event String :=
  .command
    { command := .prepare, version := version, component := "peel", sha256 := version,
      objectKey := "peel/" ++ version }
    { object := .ok version }

def send (command : CommandName) : Event String :=
  .command { command := command, component := "peel" } {}

theorem rollback_restores_prepared_deadline : (run peelConfig installed
        ([prepareOf "v2", send .apply, .soak 0 .healthy] ++
          [.soak 0 .deadline])).handler.slots.current =
      (run peelConfig installed [prepareOf "v2", send .apply, .soak 0 .healthy]).base := by
  have restored := (rollback_restores_prepared_iff peelConfig installed
    [prepareOf "v2", send .apply, .soak 0 .healthy] (.soak 0 .deadline) (by decide)).mpr (by decide)
  exact restored.1

/-- The rollback of an update that was only staged brings back the binary before the last one. -/
theorem staged_rollback_downgrades : (run peelConfig installed
      [prepareOf "v2", send .apply, send .confirm, prepareOf "v3"]).handler.state = .staged ∧
    (run peelConfig installed
      [prepareOf "v2", send .apply, send .confirm, prepareOf "v3"]).base = some "v2" ∧
    rollsBack peelConfig (run peelConfig installed
      [prepareOf "v2", send .apply, send .confirm, prepareOf "v3"]).handler
    (send .rollback) = true ∧
    (run peelConfig installed ([prepareOf "v2", send .apply, send .confirm, prepareOf "v3"] ++
      [send .rollback])).handler.slots.current = some "v1" := by
  decide

end Zester.Update
