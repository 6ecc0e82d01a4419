import Mathlib.Data.Finset.Card
import Zester.Jobs.ManagerProofs
import Zester.Peeld.Exec

/-! A peel begins a job at most once. All requests of a job carry the same epoch, and the table of
the peel rejects the second of them as long as it has not forgotten the first. -/
namespace Zester.Peeld
open DedupTracker Agent List
open Jobs (ExecRequest)
open Function

/-- The table lists each of its jobs once. -/
structure DedupTracker.Consistent (d : DedupTracker) : Prop where
  nodup : d.order.Nodup
  listed : ∀ jid, jid ∈ d.order ↔ (d.m jid).isSome = true

namespace DedupTracker
variable {d : DedupTracker} {jid other : String}

theorem consistent_new (capacity : Nat) : (newDedupTracker capacity).Consistent :=
  ⟨nodup_nil, fun jid => by simp [newDedupTracker]⟩

section
variable (consistent : d.Consistent)
include consistent

theorem Consistent.store (jid : String) (epoch : Nat) :
    Consistent { d with
      order := if (d.m jid).isSome then d.order else d.order ++ [jid]
      m := update d.m jid (some epoch) } := by
  cases held : d.m jid with
  | some prev =>
    refine ⟨consistent.nodup, fun k => ?_⟩
    by_cases same : k = jid
    · subst same
      simp [consistent.listed, held]
    · simp [update_of_ne same, consistent.listed]
  | none =>
    have absent : jid ∉ d.order := by simp [consistent.listed, held]
    refine ⟨by simpa [concat_eq_append] using consistent.nodup.concat absent, fun k => ?_⟩
    by_cases same : k = jid
    · subst same
      simp
    · simp [consistent.listed, same]

theorem Consistent.load (entries : List (String × Nat)) : (d.load entries).Consistent := by
  induction entries generalizing d with
  | nil => exact consistent
  | cons entry entries ih =>
    obtain ⟨jid, epoch⟩ := entry
    rw [load]
    split
    · exact consistent
    · exact ih (consistent.store jid epoch)

theorem Consistent.evict : d.evict.Consistent := by
  unfold DedupTracker.evict
  cases order : d.order with
  | nil => simpa [order] using consistent
  | cons oldest rest =>
    have nodup := consistent.nodup
    rw [order, nodup_cons] at nodup
    refine ⟨nodup.2, fun k => ?_⟩
    by_cases same : k = oldest
    · subst same
      simp [nodup.1]
    · have listed := consistent.listed k
      rw [order] at listed
      simpa [update_of_ne same, same] using listed

theorem Consistent.makeRoom : d.makeRoom.Consistent := by
  unfold DedupTracker.makeRoom
  split
  · exact consistent.evict
  · exact consistent

end

theorem observe_new (absent : d.m jid = none) : (d.observe jid epoch).1 = { d.makeRoom with
    order := if (d.makeRoom.m jid).isSome then d.makeRoom.order else d.makeRoom.order ++ [jid]
    m := update d.makeRoom.m jid (some epoch) } := by
  have still : d.makeRoom.m jid = none := by
    unfold makeRoom evict
    split
    · cases order : d.order with
      | nil => exact absent
      | cons oldest rest =>
        by_cases same : jid = oldest
        · simp [same]
        · simp [update_of_ne same, absent]
    · exact absent
  simp [observe, absent, still]

theorem Consistent.observe (consistent : d.Consistent) (jid : String) (epoch : Nat) :
    (d.observe jid epoch).1.Consistent := by
  cases held : d.m jid with
  | none =>
    rw [observe_new held]
    exact consistent.makeRoom.store jid epoch
  | some prev =>
    simp only [DedupTracker.observe, held]
    split
    · exact consistent
    · simpa [held] using consistent.store jid epoch

/-- The job is in the table, and only the listed jobs came after it. -/
structure Holds (d : DedupTracker) (jid : String) (epoch : Nat) (since : List String) : Prop where
  stored : d.m jid = some epoch
  placed : ∃ older newer, d.order = older ++ jid :: newer ∧ newer ⊆ since

def others (jid : String) (jids : List String) : Nat := (jids.toFinset.erase jid).card

theorem others_mono (among : jids ⊆ jids') : others jid jids ≤ others jid jids' :=
  Finset.card_le_card (Finset.erase_subset_erase
    _ fun k member => by simpa using among (by simpa using member))

theorem holds_observed (absent : d.m jid = none) : (d.observe jid epoch).1.Holds jid epoch [] := by
  refine ⟨by simp [observe, absent], d.makeRoom.order, [], ?_, Subset.refl _⟩
  simp [observe, absent]

/-- Making room for a new job leaves the job alone while few came after it. -/
theorem Holds.makeRoom (holds : d.Holds jid epoch since) (consistent : d.Consistent)
    (absent : other ∉ d.order)
    (different : other ≠ jid) (few : others jid (since ++ [other]) < d.capacity) :
    d.makeRoom.Holds jid epoch since := by
  unfold DedupTracker.makeRoom
  split
  case isFalse => exact holds
  rename_i full
  obtain ⟨stored, older, newer, order, among⟩ := holds
  have nodup := consistent.nodup
  rw [order] at nodup absent full
  cases older with
  | nil =>
    -- the job is the oldest one: then all that came after it fill the table
    rw [nil_append, nodup_cons] at nodup
    have distinct : (other :: newer).Nodup :=
      nodup_cons.mpr ⟨fun member => absent (by simp [member]), nodup.2⟩
    have counted : (other :: newer).length ≤ others jid (since ++ [other]) := by
      rw [← toFinset_card_of_nodup distinct]
      refine Finset.card_le_card fun k member => ?_
      obtain rfl | late : k = other ∨ k ∈ newer := by simpa using member
      · simp [different]
      · have apart : k ≠ jid := fun same => nodup.1 (same ▸ late)
        simp [apart, among late]
    simp only [nil_append, length_cons] at full counted
    omega
  | cons oldest older =>
    rw [cons_append, nodup_cons] at nodup
    have apart : jid ≠ oldest := by
      rintro rfl
      simp at nodup
    refine ⟨?_, older, newer, ?_, among⟩
    · simp [evict, order, update_of_ne apart, stored]
    · simp [evict, order]

theorem Holds.observe (holds : d.Holds jid epoch since) (consistent : d.Consistent)
    (different : other ≠ jid) (few : others jid (since ++ [other]) < d.capacity) (epoch' : Nat) :
    (d.observe other epoch').1.Holds jid epoch (since ++ [other]) := by
  cases held : d.m other with
  | some prev =>
    obtain ⟨stored, older, newer, order, among⟩ := holds
    have wider : newer ⊆ since ++ [other] := fun k member => mem_append_left _ (among member)
    simp only [DedupTracker.observe, held]
    split
    · exact ⟨stored, older, newer, order, wider⟩
    · exact ⟨(update_of_ne different.symm _ _).trans stored, older, newer, order, wider⟩
  | none =>
    have absent : other ∉ d.order := by simp [consistent.listed, held]
    obtain ⟨stored, older, newer, order, among⟩ := holds.makeRoom consistent absent different few
    simp only [DedupTracker.observe, held]
    refine ⟨(update_of_ne different.symm _ _).trans stored, older, newer ++ [other],
      by simp [order], ?_⟩
    exact append_subset.mpr ⟨fun k member => mem_append_left _ (among member), by simp⟩

theorem capacity_observe (d : DedupTracker) (jid : String)
    (epoch : Nat) : (d.observe jid epoch).1.capacity = d.capacity := by
  have room : d.makeRoom.capacity = d.capacity := by
    unfold makeRoom evict
    split
    · cases d.order <;> rfl
    · rfl
  unfold observe
  split
  · split <;> rfl
  · exact room

theorem m_observe_other (different : other ≠ jid) :
    (d.observe other epoch).1.m jid = d.m jid ∨ (d.observe other epoch).1.m jid = none := by
  have room : d.makeRoom.m jid = d.m jid ∨ d.makeRoom.m jid = none := by
    unfold makeRoom evict
    split
    · cases d.order with
      | nil => exact .inl rfl
      | cons oldest rest =>
        by_cases same : jid = oldest
        · exact .inr (by simp [same])
        · exact .inl (update_of_ne same _ _)
    · exact .inl rfl
  cases held : d.m other with
  | some prev =>
    simp only [observe, held]
    split
    · exact .inl rfl
    · exact .inl (update_of_ne different.symm _ _)
  | none =>
    simp only [observe, held, update_of_ne different.symm]
    exact room

theorem observe_rejected (rejected : (d.observe jid epoch).2.2 = true) :
    (d.observe jid epoch).1 = d := by
  unfold observe at rejected ⊢
  split
  · rename_i held
    simp only [held] at rejected
    split
    · rfl
    · rename_i newer
      simp [newer] at rejected
  · rename_i absent
    simp [absent] at rejected

end DedupTracker

section
variable {readOnlyModule : String → Bool} {jid : String} {epoch : Nat} {a : Agent}

/-- The job whose request the table is asked about. -/
def Event.observed : Event → Option String
  | .exec ⟨reply, some req⟩ =>
    if reply = "" ∧ req.jid ≠ "" ∧ 0 < req.epoch then some req.jid else none
  | .exec ⟨_, none⟩ | .work | .stop => none

def ExecTask.isFor (jid : String) (task : ExecTask) : Bool := task.isJob && task.req.jid == jid

def executions (a : Agent) (jid : String) : Nat := a.started.countP (·.isFor jid)

/-- Those that are still in the queue included. -/
def pending (a : Agent) (jid : String) : Nat := a.execQueue.countP (·.isFor jid) + executions a jid

/-- All messages that name the job are copies of requests with the epoch. -/
def Copies (jid : String) (epoch : Nat) : Event → Prop
  | .exec ⟨reply, some req⟩ => req.jid = jid → reply = "" ∧ req.epoch = epoch
  | .exec ⟨_, none⟩ | .work | .stop => True

/-- Between two requests of the job, fewer other jobs than the capacity come. -/
def Spaced (capacity : Nat) (jid : String) (events : List Event) : Prop :=
  ∀ before first middle second after, events = before ++ first :: (middle ++ second :: after) →
    Event.observed first = some jid → Event.observed second = some jid →
    others jid (middle.filterMap Event.observed) < capacity

theorem dedup_admitTask (task : ExecTask) : (a.admitTask readOnlyModule task).dedup = a.dedup := by
  unfold admitTask
  split
  · rfl
  · split <;> rfl

theorem pending_admitTask (task : ExecTask) :
    pending (a.admitTask readOnlyModule task) jid ≤ pending a jid + if task.isFor jid then 1
      else 0 := by
  unfold admitTask
  split
  · simp only [pending, executions, countP_cons]
    omega
  · split
    · simp only [pending, executions, countP_append, countP_singleton]
      omega
    · omega

/-- A request of the job is rejected if its epoch is in the table, and taken if the job is not. -/
theorem step_request (copies : Copies jid epoch e) (asked : e.observed = some jid) :
    (a.dedup.m jid = some epoch → a.step readOnlyModule e = a) ∧
      (a.dedup.m jid = none → (a.step readOnlyModule e).dedup = (a.dedup.observe jid epoch).1 ∧
        pending (a.step readOnlyModule e) jid ≤ pending a jid + 1) := by
  obtain ⟨⟨reply, _ | req⟩⟩ | _ | _ := e
  case exec.some =>
    simp only [Event.observed] at asked
    split at asked
    case isFalse => cases asked
    rename_i job
    obtain ⟨rfl, named, positive⟩ := job
    cases asked
    obtain rfl := (copies rfl).2
    constructor
    · intro held
      simp [step, handleExecRequest, observe, held, named, positive]
    · intro absent
      have accepted : (a.dedup.observe req.jid req.epoch).2.2 = false := by simp [observe, absent]
      have step : a.step readOnlyModule (.exec ⟨"", some req⟩) =
          admitTask readOnlyModule { a with dedup := (a.dedup.observe req.jid req.epoch).1 }
              ⟨req, true⟩ := by
        have name : (req.jid != "") = true := by simpa using named
        simp [step, handleExecRequest, name, positive, accepted]
      rw [step]
      refine ⟨dedup_admitTask _, (pending_admitTask _).trans ?_⟩
      split
      · exact le_refl _
      · exact Nat.le_succ _
  all_goals cases asked

/-- Anything else begins nothing for the job, and asks the table at most about another one. -/
theorem step_aside (copies : Copies jid epoch e) (positive : 0 < epoch) (named : jid ≠ "")
    (aside : e.observed ≠ some jid) :
    pending (a.step readOnlyModule e) jid ≤ pending a jid ∧
      ((e.observed = none ∧ (a.step readOnlyModule e).dedup = a.dedup) ∨
        ∃ other epoch', e.observed = some other ∧
        other ≠ jid ∧ (a.step readOnlyModule e).dedup = (a.dedup.observe other epoch').1) := by
  cases e with
  | stop => exact ⟨by simp [pending, executions, step], .inl ⟨rfl, rfl⟩⟩
  | work =>
    cases queue : a.execQueue with
    | nil => exact ⟨by simp [step, work, queue], .inl ⟨rfl, by simp [step, work, queue]⟩⟩
    | cons task tasks =>
      refine ⟨?_, .inl ⟨rfl, by simp [step, work, queue]⟩⟩
      simp only [pending, executions, step, work, queue, countP_cons]
      omega
  | exec msg =>
    obtain ⟨reply, _ | req⟩ := msg
    · exact ⟨le_refl _, .inl ⟨rfl, rfl⟩⟩
    have different : req.jid ≠ jid := by
      intro same
      obtain ⟨plain, same'⟩ := copies same
      exact aside (by simp [Event.observed, plain, same, named, same', positive])
    have foreign : ∀ {a' : Agent} {isJob : Bool},
        pending (a'.admitTask readOnlyModule ⟨req, isJob⟩) jid ≤ pending a' jid :=
      (pending_admitTask _).trans (by simp [ExecTask.isFor, different])
    by_cases job : reply = "" ∧ req.jid ≠ "" ∧ 0 < req.epoch
    · have asks : (reply == "" && req.jid != "" && decide (0 < req.epoch)) = true := by
        simpa [and_assoc] using job
      have observed : Event.observed (.exec ⟨reply, some req⟩) = some req.jid := by
        simp [Event.observed, job]
      cases rejected : (a.dedup.observe req.jid req.epoch).2.2 with
      | true =>
        have step : a.step readOnlyModule (.exec ⟨reply, some req⟩) = a := by
          simp only [step, handleExecRequest, asks, rejected, if_true]
        rw [step]
        exact ⟨le_refl _, .inr ⟨_, req.epoch, observed, different,
          (observe_rejected rejected).symm⟩⟩
      | false =>
        have step : a.step readOnlyModule (.exec ⟨reply, some req⟩) = admitTask readOnlyModule
            { a with dedup := (a.dedup.observe req.jid req.epoch).1 }
                ⟨req, reply == "" && req.jid != ""⟩ := by
          simp only [step, handleExecRequest, asks, rejected, if_true, Bool.false_eq_true, if_false]
        rw [step]
        exact ⟨foreign, .inr ⟨_, req.epoch, observed, different, dedup_admitTask _⟩⟩
    · have silent : (reply == "" && req.jid != "" && decide (0 < req.epoch)) = false := by
        rw [← Bool.not_eq_true]
        simpa [and_assoc] using job
      have step : a.step readOnlyModule (.exec ⟨reply, some req⟩) =
          a.admitTask readOnlyModule ⟨req, reply == "" && req.jid != ""⟩ := by
        simp only [step, handleExecRequest, silent, Bool.false_eq_true, if_false]
      rw [step]
      exact ⟨foreign, .inl ⟨by simp [Event.observed, job], dedup_admitTask _⟩⟩

theorem run_held (copies : ∀ e ∈ events, Copies jid epoch e) (positive : 0 < epoch)
    (named : jid ≠ "") (consistent : a.dedup.Consistent) (one : pending a jid ≤ 1)
    (holds : (∃ e ∈ events, e.observed = some jid) → a.dedup.Holds jid epoch since)
    (few : ∀ middle second after, events = middle ++ second :: after → Event.observed second =
      some jid → others jid (since ++ middle.filterMap Event.observed) < a.dedup.capacity) :
    pending (a.run readOnlyModule events) jid ≤ 1 := by
  induction events generalizing a since with
  | nil => exact one
  | cons e events ih =>
    obtain ⟨copy, copies⟩ := forall_mem_cons.mp copies
    by_cases asked : e.observed = some jid
    · have held := holds ⟨e, by simp, asked⟩
      have same : a.step readOnlyModule e = a := (step_request copy asked).1 held.stored
      rw [run, foldl_cons, same]
      refine ih copies consistent one (fun _ => held) fun middle second after split last => ?_
      refine lt_of_le_of_lt (others_mono ?_) (few (e :: middle) second after (by simp [split]) last)
      rw [filterMap_cons, asked]
      intro k member
      simp only [mem_append, mem_cons] at member ⊢
      tauto
    · obtain ⟨fewer, same | ⟨other, epoch', observed, different, same⟩⟩ :=
      @step_aside readOnlyModule _ _ a _ copy positive named asked
      · refine @ih _ since copies (same.2 ▸ consistent) (fewer.trans one) (fun later => ?_)
          fun middle second after split last => ?_
        · rw [same.2]
          exact holds (later.imp fun e member => ⟨by simp [member.1], member.2⟩)
        · have before := few (e :: middle) second after (by simp [split]) last
          rw [filterMap_cons, same.1] at before
          rw [same.2]
          exact before
      · refine @ih _ (since ++ [other]) copies (same ▸ consistent.observe other epoch')
          (fewer.trans one) (fun later => ?_)
          fun middle second after split last => ?_
        · rw [same]
          refine (holds (later.imp fun e member => ⟨by simp [member.1], member.2⟩)).observe
            consistent different ?_ epoch'
          obtain ⟨second, member, last⟩ := later
          obtain ⟨middle, after, split⟩ := append_of_mem member
          refine lt_of_le_of_lt (others_mono ?_)
            (few (e :: middle) second after (by simp [split]) last)
          rw [filterMap_cons, observed]
          intro k member
          simp only [mem_append, mem_cons, not_mem_nil, or_false] at member ⊢
          tauto
        · have before := few (e :: middle) second after (by simp [split]) last
          rw [filterMap_cons, observed] at before
          rw [same, capacity_observe]
          simpa using before

theorem run_fresh (copies : ∀ e ∈ events, Copies jid epoch e) (positive : 0 < epoch)
    (named : jid ≠ "") (consistent : a.dedup.Consistent) (unseen : pending a jid = 0)
    (entry : a.dedup.m jid = none ∨ a.dedup.m jid = some epoch)
    (spaced : Spaced a.dedup.capacity jid events) :
    pending (a.run readOnlyModule events) jid ≤ 1 := by
  induction events generalizing a with
  | nil => exact unseen.le.trans (Nat.zero_le 1)
  | cons e events ih =>
    obtain ⟨copy, copies⟩ := forall_mem_cons.mp copies
    have later : Spaced a.dedup.capacity jid events := by
      intro before first middle second after split
      exact spaced (e :: before) first middle second after (by simp [split])
    by_cases asked : e.observed = some jid
    · obtain absent | held := entry
      · obtain ⟨dedup, begun⟩ := (@step_request readOnlyModule _ _ a _ copy asked).2 absent
        have held : (a.step readOnlyModule e).dedup.Holds jid epoch [] :=
          dedup ▸ holds_observed absent
        rw [run, foldl_cons]
        refine run_held copies positive named (dedup ▸ consistent.observe jid epoch) (by omega)
          (fun _ => held)
          fun middle second after split last => ?_
        rw [dedup, capacity_observe, nil_append]
        exact spaced [] e middle second after (by simp [split]) asked last
      · have same : a.step readOnlyModule e = a := (step_request copy asked).1 held
        rw [run, foldl_cons, same]
        exact ih copies consistent unseen (.inr held) later
    · obtain ⟨fewer, same | ⟨other, epoch', -, different, same⟩⟩ :=
      @step_aside readOnlyModule _ _ a _ copy positive named asked
      · exact ih copies (same.2 ▸ consistent) (by omega) (same.2 ▸ entry) (same.2 ▸ later)
      refine ih copies (same ▸ consistent.observe other epoch') (by omega) ?_ ?_
      · rw [same]
        obtain kept | gone := @m_observe_other a.dedup _ _ epoch' different
        · exact kept ▸ entry
        · exact .inl gone
      · rw [same, capacity_observe]
        exact later

theorem executions_le_pending (a : Agent) (jid : String) : executions a jid ≤ pending a jid :=
  Nat.le_add_left _ _

end

theorem capacity_load (d : DedupTracker) (entries : List (String × Nat)) :
    (d.load entries).capacity = d.capacity := by
  induction entries generalizing d with
  | nil => rfl
  | cons entry entries ih =>
    rw [load]
    split
    · rfl
    · exact ih _

theorem m_load (d : DedupTracker) (jid : String) (entries : List (String × Nat)) :
    (d.load entries).m jid = d.m jid ∨ ∃ epoch, (jid, epoch) ∈ entries ∧
    (d.load entries).m jid = some epoch := by
  induction entries generalizing d with
  | nil => exact .inl rfl
  | cons entry entries ih =>
    obtain ⟨other, epoch⟩ := entry
    rw [load]
    split
    · exact .inl rfl
    obtain kept | ⟨epoch', member, stored⟩ := ih { d with
      order := if (d.m other).isSome then d.order else d.order ++ [other]
      m := update d.m other (some epoch) }
    · by_cases same : jid = other
      · subst same
        exact .inr ⟨epoch, by simp, by simpa using kept⟩
      · exact .inl (kept.trans (update_of_ne same _ _))
    · exact .inr ⟨epoch', by simp [member], stored⟩

open Jobs (ExecRequest Reaches Env Task Place Item requests activeJobKey quietEnv dispatchedTwice)

section
variable {jid : String}

/-- All requests of a job carry the number of its one start. -/
theorem requests_epoch (plain : ∀ other, activeJobKey other ≠ jid) (run : Reaches env crew) :
    ∃ epoch, 0 < epoch ∧ ∀ target req again, (target, req, again) ∈ requests crew.bucket jid →
      req.epoch = epoch := by
  obtain ⟨_, fanned⟩ := Jobs.fanned_of_reaches plain run
  obtain silent | ⟨j, sent⟩ := fanned.once
  · exact ⟨1, Nat.one_pos, by simp [silent]⟩
  · obtain ⟨claimed, running, -, -, -, rfl⟩ := sent.started
    exact ⟨_, Nat.succ_pos _, fun target req again published => sent.epoch _ published⟩

end

/-- For every job whose ID is not empty and no index key: however the masters dispatch, send again
and reclaim it, and however its requests are lost, repeated and reordered on the way to a peel, the
peel begins it at most once, if fewer other jobs than its table has room for come between two of
them. -/
theorem job_runs_at_most_once (env : Env) (jid : String) (plain : ∀ other, jid ≠ activeJobKey other)
    (named : jid ≠ "")
    (crew : Crew Task Place Item) (run : Reaches env crew) (peel : String)
    (readOnlyModule : String → Bool)
    (capacity : Nat) (snapshot : List (String × Nat)) (events : List Event)
    (recorded : ∀ epoch, (jid, epoch) ∈ snapshot →
      ∃ req again, (peel, req, again) ∈ requests crew.bucket jid ∧ req.epoch = epoch)
    (delivered : ∀ msg req, .exec msg ∈ events → msg.data = some req → req.jid = jid →
      msg.reply = "" ∧ ∃ again, (peel, req, again) ∈ requests crew.bucket jid)
    (few : Spaced capacity jid events) :
    executions (Agent.run readOnlyModule ⟨(newDedupTracker capacity).load snapshot, [], []⟩ events)
      jid ≤ 1 := by
  obtain ⟨epoch, positive, same⟩ := requests_epoch (fun other index => plain other index.symm) run
  refine (executions_le_pending _ jid).trans
    (run_fresh ?_ positive named ((consistent_new capacity).load snapshot) rfl ?_ ?_)
  · intro e member
    cases e with
    | exec msg =>
      obtain ⟨reply, _ | req⟩ := msg
      · trivial
      · intro own
        obtain ⟨silent, again, published⟩ := delivered _ req member rfl own
        exact ⟨silent, same _ _ _ published⟩
    | _ => trivial
  · obtain absent | ⟨epoch', member, stored⟩ := m_load (newDedupTracker capacity) jid snapshot
    · exact .inl absent
    · obtain ⟨req, again, published, rfl⟩ := recorded epoch' member
      exact .inr (same _ _ _ published ▸ stored)
  · rw [show (Agent.mk ((newDedupTracker capacity).load snapshot) [] []).dedup.capacity =
      capacity from capacity_load _ _]
    exact few

section

def deliveries (peel : String) (sent : List (String × ExecRequest × Bool)) : List Event :=
  (sent.filter (·.1 = peel)).flatMap fun request => [.exec ⟨"", some request.2.1⟩, .work]

variable {crew : Crew Task Place Item}

theorem deliveries_published (published : sent ⊆ requests crew.bucket jid) (msg : Msg)
    (req : ExecRequest)
    (member : .exec msg ∈ deliveries peel sent) (data : msg.data = some req) (_ : req.jid = jid) :
    msg.reply = "" ∧ ∃ again, (peel, req, again) ∈ requests crew.bucket jid := by
  obtain ⟨⟨target, req', again⟩, request, same⟩ := mem_flatMap.mp member
  simp only [mem_cons, Event.exec.injEq, reduceCtorEq, not_mem_nil, or_false] at same
  simp only [mem_filter, decide_eq_true_eq] at request
  obtain ⟨request, rfl⟩ := request
  subst same
  cases data
  exact ⟨rfl, again, published request⟩

theorem spaced_of_alone {capacity : Nat} (room : 0 < capacity)
    (alone : ∀ e ∈ events, e.observed.all (· = jid) = true) : Spaced capacity jid events := by
  intro before first middle second after split _ _
  have only : others jid (middle.filterMap Event.observed) ≤ others jid [jid] := by
    refine others_mono fun k observed => ?_
    obtain ⟨e, member, asked⟩ := mem_filterMap.mp observed
    have own := alone e (by simp [split, member])
    simpa [asked] using own
  rw [show others jid [jid] = 0 by simp [others]] at only
  omega

/-- The request and a copy of it. -/
theorem job_runs_at_most_once_redelivered :
    (requests (dispatchedTwice "j1").bucket "j1").map Prod.fst = ["web1"] ∧
      executions (run (fun _ => false) ⟨(newDedupTracker dedupCapacity).load [], [], []⟩
        (deliveries "web1" (requests (dispatchedTwice "j1").bucket "j1" ++
        requests (dispatchedTwice "j1").bucket "j1"))) "j1" ≤ 1 := by
  have published : requests (dispatchedTwice "j1").bucket "j1" ++
      requests (dispatchedTwice "j1").bucket "j1" ⊆
      requests (dispatchedTwice "j1").bucket "j1" :=
        append_subset.mpr ⟨Subset.refl _, Subset.refl _⟩
  refine ⟨by decide +kernel,
    job_runs_at_most_once quietEnv "j1" ?_ (by decide) _ (Jobs.dispatchedTwice_reaches "j1")
    "web1" _ dedupCapacity [] _ (by simp) (deliveries_published published)
      (spaced_of_alone (by decide) (by decide +kernel))⟩
  intro other same
  have heads := congrArg (fun key => key.toList.head?) same
  simp [activeJobKey, Jobs.activeJobKeyPrefix] at heads

/-- The scan has deleted the record of the job, and the second dispatch starts it under a higher
epoch. -/
theorem index_key_runs_twice :
    Reaches quietEnv (dispatchedTwice "active.x") ∧
      Spaced dedupCapacity "active.x"
      (deliveries "web1" (requests (dispatchedTwice "active.x").bucket "active.x")) ∧
      executions (run (fun _ => false) ⟨newDedupTracker dedupCapacity, [], []⟩
        (deliveries "web1" (requests (dispatchedTwice "active.x").bucket "active.x")))
          "active.x" = 2 :=
  ⟨Jobs.dispatchedTwice_reaches "active.x", spaced_of_alone (by decide) (by decide +kernel),
    by decide +kernel⟩

end
end Zester.Peeld
