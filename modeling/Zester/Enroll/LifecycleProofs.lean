import Mathlib.Data.List.Chain
import Zester.Lib.Amid
import Zester.Enroll.StoreProofs

/-! The states that are stored for a record, over every interleaving of the masters. -/
namespace Zester.Enroll
open Option
open List hiding after

variable {id : String}

def Stored.state? : Stored → Option State
  | .record rec => some rec.state
  | .id _ => none

/-- The states that were stored for a record, oldest first. -/
def states (b : Bucket String Stored) (id : String) : List State :=
  ((b.history id).filterMap Stored.state?).reverse

@[simp] theorem states_write_record (b : Bucket String Stored) (id : String) (r : Record) :
    states (b.write id (some (.record r))) id = states b id ++ [r.state] := by
  simp [states, Stored.state?]

@[simp] theorem states_write_id (b : Bucket String Stored) (key text id : String) :
    states (b.write key (some (.id text))) id = states b id := by
  by_cases same : id = key
  · subst same
    simp [states, filterMap_cons, Stored.state?]
  · simp [states, same]

@[simp] theorem states_delete (b : Bucket String Stored) (key id : String) :
    states (b.write key none) id = states b id := by
  simp [states]

@[simp] theorem states_write_ne (other : id ≠ key) :
    states (b.write key value) id = states b id := by
  simp [states, other]

theorem states_of_get (held : b.get id = some ⟨.record r, revision⟩) :
    ∃ before, states b id = before ++ [r.state] := by
  obtain ⟨before, history⟩ := Bucket.history_of_get held
  exact ⟨(before.filterMap Stored.state?).reverse, by simp [states, history, Stored.state?]⟩

theorem mem_states : state ∈ states b id ↔ ∃ r, b.Logged id (.record r) ∧ r.state = state := by
  simp only [states, mem_reverse, mem_filterMap, Bucket.mem_history]
  constructor
  · rintro ⟨stored, logged, same⟩
    cases stored with
    | id text => cases same
    | record r => exact ⟨r, logged, by simpa [Stored.state?] using same⟩
  · rintro ⟨r, logged, rfl⟩
    exact ⟨.record r, logged, rfl⟩

theorem states_eq_nil (unwritten : Unwritten b id) : states b id = [] := by
  rw [eq_nil_iff_forall_not_mem]
  intro state member
  obtain ⟨r, logged, -⟩ := mem_states.mp member
  exact unwritten r logged

/-- One state after the other, as the life cycle has them. -/
def Lifecycle (path : List State) : Prop :=
  path.IsChain fun old new => old.canTransitionTo new = true

namespace Lifecycle

theorem snoc (before : Lifecycle (path ++ [old])) (allowed : old.canTransitionTo new = true) :
    Lifecycle (path ++ [old] ++ [new]) := by
  refine isChain_append.mpr ⟨before, isChain_singleton _, ?_⟩
  intro x last y head
  simp only [getLast?_append, getLast?_singleton, mem_def, head?_cons,
    some_or, some.injEq] at last head
  rwa [← last, ← head]

def rank : State → Nat
  | .pending => 0
  | .approved => 1
  | .issued => 2
  | .active => 3
  | .rejected | .revoked => 4

theorem rank_lt (allowed : old.canTransitionTo new = true) : rank old < rank new := by
  cases old <;> cases new <;> first | decide | cases allowed

theorem nodup (lifecycle : Lifecycle path) : path.Nodup := by
  have ascending : (path.map rank).IsChain (· < ·) :=
    (isChain_map rank).mpr (lifecycle.imp fun _ _ allowed => rank_lt allowed)
  exact (isChain_iff_pairwise.mp ascending).nodup.of_map rank

theorem terminal (lifecycle : Lifecycle (before ++ final :: after))
    (last : final.validTransitions = []) : after = [] := by
  cases after with
  | nil => rfl
  | cons next after =>
    have allowed := (isChain_append_cons_cons.mp lifecycle).2.1
    simp [State.canTransitionTo, last] at allowed

end Lifecycle

structure WellKept (b : Bucket String Stored) : Prop where
  typed : Typed b
  lifecycle : ∀ id, Lifecycle (states b id)

theorem WellKept.empty : WellKept .empty where
  typed := .empty
  lifecycle _ := isChain_nil

theorem WellKept.writes (wellKept : WellKept b)
    (same : ∀ {r r'}, role.changes r r' → SameIdentity r r')
    (writes : Writes regime inv role b b') : WellKept b' := by
  cases writes with
  | @decided key r r' revision held changes allowed =>
    refine ⟨wellKept.typed.decide held (same changes), fun id => ?_⟩
    by_cases here : id = key
    · subst here
      obtain ⟨before, read⟩ := states_of_get held
      have path := wellKept.lifecycle id
      rw [read] at path
      rw [states_write_record, read]
      exact path.snoc allowed
    · rw [states_write_ne here]
      exact wellKept.lifecycle id
  | @created r ksuid _ named _ _ unwritten =>
    refine ⟨wellKept.typed.write_record rfl ⟨ksuid, named⟩, fun id => ?_⟩
    by_cases here : id = r.id
    · subst here
      rw [states_write_record, states_eq_nil unwritten]
      exact isChain_singleton _
    · rw [states_write_ne here]
      exact wellKept.lifecycle id
  | claimed | repointed =>
    refine ⟨wellKept.typed.write_id _ _, fun id => ?_⟩
    rw [states_write_id]
    exact wellKept.lifecycle id
  | withdrawn | released =>
    refine ⟨wellKept.typed.delete _, fun id => ?_⟩
    rw [states_delete]
    exact wellKept.lifecycle id

theorem WellKept.kept : Kept .anything WellKept where
  typed wellKept := wellKept.typed
  writes wellKept := wellKept.writes fun changes => changes.1.toSameIdentity

end Zester.Enroll
