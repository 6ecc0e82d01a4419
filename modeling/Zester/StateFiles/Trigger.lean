import Mathlib.Data.Set.Basic

/-! `TriggerSync`: how concurrent calls share one `syncUntilCurrent`. The loads and stores of the
two flags take place one at a time, in any order of the calls. -/
namespace Zester.StateFiles
open Function

/-- What a call of `TriggerSync` does next. -/
inductive Trigger where
  | begin
  | storeRerun
  | loadRerun
  | swapRunning
  | clearRerun
  | startSync
  | endSync
  | clearRunning
  | returned
  deriving DecidableEq, Repr

structure SingleFlight (ι : Type) where
  syncRerun : Bool
  syncRunning : Bool
  calls : ι → Trigger

namespace SingleFlight
variable [DecidableEq ι]

def goes (f : SingleFlight ι) (i : ι) (next : Trigger) : SingleFlight ι :=
  { f with calls := update f.calls i next }

/-- One step of a call: an operation on a flag, or the beginning or the end of the call or of its
`syncUntilCurrent`. -/
def step (f : SingleFlight ι) (i : ι) : SingleFlight ι :=
  match f.calls i with
  | .begin => f.goes i .storeRerun
  | .storeRerun => { f.goes i .loadRerun with syncRerun := true }
  | .loadRerun => f.goes i (if f.syncRerun then .swapRunning else .returned)
  | .swapRunning =>
    if f.syncRunning then f.goes i .returned else { f.goes i .clearRerun with syncRunning := true }
  | .clearRerun => { f.goes i .startSync with syncRerun := false }
  | .startSync => f.goes i .endSync
  | .endSync => f.goes i .clearRunning
  | .clearRunning => { f.goes i .loadRerun with syncRunning := false }
  | .returned => f

/-- After so many turns of an interleaving, before which no call had begun. -/
def after (turns : Nat → ι) : Nat → SingleFlight ι
  | 0 => ⟨false, false, fun _ => .begin⟩
  | n + 1 => (after turns n).step (turns n)

/-- A call that has begun takes its steps until it returns, but for the end of its
`syncUntilCurrent`, which may be late. -/
def Scheduled (turns : Nat → ι) : Prop :=
  ∀ n i, (after turns n).calls i ∉ [.begin, .endSync, .returned] → ∃ m ≥ n, turns m = i

/-- Every `syncUntilCurrent` ends: it retries while `Sync` fails. -/
def SyncsEnd (turns : Nat → ι) : Prop :=
  ∀ n i, (after turns n).calls i = .endSync → ∃ m ≥ n, turns m = i

def Fair (turns : Nat → ι) : Prop :=
  ∀ n i, (after turns n).calls i ≠ .begin → (after turns n).calls i ≠ .returned →
    ∃ m ≥ n, turns m = i

def holds : Trigger → Bool
  | .clearRerun | .startSync | .endSync | .clearRunning => true
  | _ => false

/-- The flag is set for one call at a time. -/
def Single (f : SingleFlight ι) : Prop :=
  ∃ holder : Option ι, f.syncRunning = holder.isSome ∧ ∀ i, holds (f.calls i) = true ↔
    holder = some i

variable {f : SingleFlight ι} {turns : Nat → ι}

theorem step_calls_of_ne (other : j ≠ i) : (f.step i).calls j = f.calls j := by
  unfold step
  split <;> (try split) <;> simp [goes, other]

theorem Single.kept (single : f.Single) (same : holds phase = holds (f.calls i)) :
    (f.goes i phase).Single := by
  obtain ⟨holder, flag, held⟩ := single
  refine ⟨holder, flag, fun j => ?_⟩
  by_cases here : j = i
  · subst here
    simpa [goes, same] using held j
  · simpa [goes, here] using held j

theorem Single.step (single : f.Single) (i : ι) : (f.step i).Single := by
  unfold SingleFlight.step
  split <;> rename_i phase
  case h_3 => exact single.kept (by rw [phase]; split <;> rfl)
  case h_4 =>
    split
    · exact single.kept (by rw [phase]; rfl)
    rename_i free
    obtain ⟨holder, flag, held⟩ := single
    obtain rfl : holder = none := by simpa [flag] using free
    refine ⟨some i, rfl, fun j => ?_⟩
    by_cases here : j = i
    · simp [goes, here, holds]
    · simpa [goes, here, Ne.symm here] using held j
  case h_8 =>
    obtain ⟨holder, flag, held⟩ := single
    obtain rfl : holder = some i := (held i).mp (by rw [phase]; rfl)
    refine ⟨none, rfl, fun j => ?_⟩
    by_cases here : j = i
    · simp [goes, here, holds]
    · simpa [goes, here, Ne.symm here] using held j
  case h_9 => exact single
  all_goals exact single.kept (by rw [phase]; rfl)

theorem single_after (turns : Nat → ι) (n : Nat) : (after turns n).Single := by
  induction n with
  | zero => exact ⟨none, rfl, fun i => by simp [after, holds]⟩
  | succ n ih => exact ih.step (turns n)

theorem step_syncRerun (set : f.syncRerun = true) (other : f.calls i ≠ .clearRerun) :
    (f.step i).syncRerun = true := by
  unfold step
  split <;> (try split) <;> simp_all [goes]

theorem step_syncRunning (free : f.syncRunning = false) (other : (f.step i).calls i ≠ .clearRerun) :
    (f.step i).syncRunning = false := by
  unfold step at other ⊢
  split <;> simp_all [goes]

theorem fair_of_syncsEnd (scheduled : Scheduled turns) (ends : SyncsEnd turns) : Fair turns := by
  intro n i begun returned
  by_cases syncs : (after turns n).calls i = .endSync
  · exact ends n i syncs
  · exact scheduled n i (by simp [begun, syncs, returned])

/-- The next turn of a call that has begun and not returned. -/
theorem Fair.next (fair : Fair turns) (now : (after turns n).calls i = phase)
    (active : phase ≠ .begin ∧ phase ≠ .returned) :
    ∃ m ≥ n, (after turns m).calls i = phase ∧ turns m = i := by
  obtain ⟨m, later, turn⟩ := fair n i (now ▸ active.1) (now ▸ active.2)
  induction later using Nat.decreasingInduction with
  | self => exact ⟨m, Nat.le_refl m, now, turn⟩
  | of_succ k _ ih =>
    by_cases here : turns k = i
    · exact ⟨k, Nat.le_refl k, now, here⟩
    · obtain ⟨m, later, rest⟩ := ih (by rw [after, step_calls_of_ne (Ne.symm here), now])
      exact ⟨m, Nat.le_of_succ_le later, rest⟩

-- from `n` on, no call starts a sync
section
variable (fair : Fair turns) (quiet : ∀ m ≥ n, (after turns m).calls (turns m) ≠ .startSync)
    (later : n ≤ m)
include fair quiet later

theorem not_clearing (i : ι) : (after turns m).calls i ≠ .clearRerun := by
  intro now
  obtain ⟨k, here, clears, turn⟩ := fair.next now (by decide)
  have starts : (after turns (k + 1)).calls i = .startSync := by
    simp [after, turn, step, clears, goes]
  obtain ⟨k', there, starts, turn⟩ := fair.next starts (by decide)
  exact quiet k' (by omega) (turn ▸ starts)

theorem rerun_stays (set : (after turns m).syncRerun = true) (more : m ≤ k) :
    (after turns k).syncRerun = true := by
  induction more with
  | refl => exact set
  | @step k more ih => exact step_syncRerun ih (not_clearing fair quiet (later.trans more) _)

theorem running_stays (free : (after turns m).syncRunning = false) (more : m ≤ k) :
    (after turns k).syncRunning = false := by
  induction more with
  | refl => exact free
  | @step k more ih => exact step_syncRunning ih (not_clearing fair quiet (later.trans more.step) _)

/-- A call that is asked for reaches the swap, which has to fail. -/
theorem busy_of_loading (set : (after turns m).syncRerun = true)
    (now : (after turns m).calls i = .loadRerun) : ∃ k ≥ m, (after turns k).syncRunning = true := by
  obtain ⟨k, here, loads, turn⟩ := fair.next now (by decide)
  have set := rerun_stays fair quiet later set here
  have swaps : (after turns (k + 1)).calls i = .swapRunning := by
    simp [after, turn, step, loads, goes, set]
  obtain ⟨k', there, swaps, turn⟩ := fair.next swaps (by decide)
  refine ⟨k', by omega, ?_⟩
  by_contra free
  exact not_clearing fair quiet (m := k' + 1) (by omega) i
    (by simp [after, turn, step, swaps, goes, free])

end

theorem starts_after_begin (fair : Fair turns) (begins : (after turns n).calls (turns n) = .begin) :
    ∃ m > n, (after turns m).calls (turns m) = .startSync := by
  by_contra never
  have quiet : ∀ m ≥ n + 1, (after turns m).calls (turns m) ≠ .startSync :=
    fun m later starts => never ⟨m, later, starts⟩
  have stores : (after turns (n + 1)).calls (turns n) = .storeRerun := by
    simp [after, step, begins, goes]
  obtain ⟨k, later, stores, turn⟩ := fair.next stores (by decide)
  have loads : (after turns (k + 1)).calls (turns n) = .loadRerun := by
    simp [after, turn, step, stores, goes]
  have set : (after turns (k + 1)).syncRerun = true := by simp [after, turn, step, stores]
  obtain ⟨m, there, busy⟩ := busy_of_loading fair quiet (by omega) set loads
  -- the call that holds the flag ends its sync, loads the request and finds the flag free
  obtain ⟨holder, flag, held⟩ := single_after turns m
  obtain ⟨j, rfl⟩ := Option.isSome_iff_exists.mp (flag ▸ busy)
  have releases : ∃ l ≥ m, (after turns l).calls j = .clearRunning := by
    have holding := (held j).mpr rfl
    have clearing := not_clearing fair quiet (m := m) (by omega) j
    cases now : (after turns m).calls j <;> rw [now] at holding clearing <;> try cases holding
    · exact absurd rfl clearing
    · obtain ⟨l, here, starts, turn⟩ := fair.next now (by decide)
      exact absurd (turn ▸ starts) (quiet l (by omega))
    · obtain ⟨l, here, ends, turn⟩ := fair.next now (by decide)
      exact ⟨l + 1, by omega, by simp [after, turn, step, ends, goes]⟩
    · exact ⟨m, Nat.le_refl m, now⟩
  obtain ⟨l, here, releases⟩ := releases
  obtain ⟨l, here', releases, turn⟩ := fair.next releases (by decide)
  have loads : (after turns (l + 1)).calls j = .loadRerun := by
    simp [after, turn, step, releases, goes]
  have free : (after turns (l + 1)).syncRunning = false := by simp [after, turn, step, releases]
  have set := rerun_stays fair quiet (by omega) set (show k + 1 ≤ l + 1 by omega)
  obtain ⟨m', there', busy⟩ := busy_of_loading fair quiet (by omega) set loads
  rw [running_stays fair quiet (by omega) free there'] at busy
  cases busy

/-- In every interleaving one `syncUntilCurrent` runs at a time, and if they all end, one
starts after each beginning of a call. -/
theorem no_trigger_lost (turns : Nat → ι) :
    (∀ n i j, (after turns n).calls i = .endSync → (after turns n).calls j = .endSync → i = j) ∧
    (Scheduled turns → SyncsEnd turns → ∀ n, (after turns n).calls (turns n) = .begin →
      ∃ m > n, (after turns m).calls (turns m) = .startSync) := by
  refine ⟨fun n i j one two => ?_, fun scheduled ends n begins =>
    starts_after_begin (fair_of_syncsEnd scheduled ends) begins⟩
  obtain ⟨holder, -, held⟩ := single_after turns n
  exact Option.some.inj (((held i).mp (by rw [one]; rfl)).symm.trans
    ((held j).mp (by rw [two]; rfl)))

theorem parity_turns (n : Nat) (i : Bool) : ∃ m ≥ n, (m % 2 == 1) = i := by
  cases i with
  | false => exact ⟨2 * n, by omega, by simp⟩
  | true => exact ⟨2 * n + 1, by omega, by simp [Nat.add_mod]⟩

/-- Two calls that take turns. -/
theorem no_trigger_lost_two : ∃ m > 1, (after (· % 2 == 1) m).calls (m % 2 == 1) = .startSync :=
  (no_trigger_lost (· % 2 == 1)).2 (fun n i _ => parity_turns n i)
    (fun n i _ => parity_turns n i) 1 rfl

/-- A call that starts a sync, and another one after it. -/
def stuckTurns (n : Nat) : Bool := decide (6 ≤ n)

theorem stuck_syncs (later : 6 ≤ n) : (after stuckTurns n).calls false = .endSync := by
  induction later with
  | refl => rfl
  | @step n later ih =>
    have turn : stuckTurns n = true := decide_eq_true later
    rw [after, step_calls_of_ne (by simp [turn]), ih]

theorem stuck_returned (later : 10 ≤ n) : (after stuckTurns n).calls true = .returned := by
  induction later with
  | refl => rfl
  | @step n later ih =>
    have turn : stuckTurns n = true := decide_eq_true (Nat.le_trans (by decide) later)
    rw [after, turn, step, ih]
    exact ih

/-- The sync of the first call never ends, the second call returns, and no sync starts after it. -/
theorem stuck_sync_loses_trigger : Scheduled stuckTurns ∧
    (after stuckTurns 6).calls (stuckTurns 6) = .begin ∧
      ∀ m > 6, (after stuckTurns m).calls (stuckTurns m) ≠ .startSync := by
  refine ⟨fun n i active => ?_, rfl, fun m later => ?_⟩
  · cases i with
    | true => exact ⟨n + 6, by omega, by simp [stuckTurns]⟩
    | false =>
      by_cases started : 6 ≤ n
      · exact absurd (stuck_syncs started) (by simp_all)
      · exact ⟨n, le_rfl, by simpa [stuckTurns] using started⟩
  · have turn : stuckTurns m = true := decide_eq_true (by omega)
    rw [turn]
    by_cases ended : 10 ≤ m
    · simp [stuck_returned ended]
    · obtain rfl | rfl | rfl : m = 7 ∨ m = 8 ∨ m = 9 := by omega
      all_goals decide

end SingleFlight
end Zester.StateFiles
