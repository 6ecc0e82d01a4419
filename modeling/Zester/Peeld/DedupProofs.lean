import Zester.Peeld.ExecProofs

/-! What the file of a peel remembers after a crash. From the snapshot of an accepted delivery on,
every snapshot has the job, as long as the table does not evict it; so does the file, unless an
older snapshot replaces it. -/
namespace Zester.Peeld
open DedupTracker List
open Function

section
variable {d : DedupTracker}

def DedupTracker.Bounded (d : DedupTracker) : Prop := d.order.length ≤ d.capacity

theorem bounded_load (bounded : d.Bounded) : (d.load entries).Bounded := by
  induction entries generalizing d with
  | nil => exact bounded
  | cons entry entries ih =>
    obtain ⟨jid, epoch⟩ := entry
    rw [load]
    split
    · exact bounded
    rename_i room
    refine ih ?_
    simp only [Bounded]
    split
    · exact bounded
    · simp only [length_append, length_singleton]
      omega

theorem bounded_observe (bounded : d.Bounded) (positive : 0 < d.capacity) :
    (d.observe jid epoch).1.Bounded := by
  have room : d.makeRoom.order.length < d.capacity ∧ d.makeRoom.capacity = d.capacity := by
    unfold makeRoom evict
    unfold Bounded at bounded
    split
    · cases order : d.order with
      | nil => simpa [order] using positive
      | cons oldest rest =>
        rw [order, length_cons] at bounded
        exact ⟨bounded, rfl⟩
    · rename_i free
      exact ⟨by omega, rfl⟩
  unfold observe
  split
  · split <;> exact bounded
  · simp only [Bounded, length_append, length_singleton, room.2]
    exact room.1

theorem m_load_of_room (room : d.order.length + entries.length ≤ d.capacity)
    (nodup : (entries.map Prod.fst).Nodup) :
    (∀ entry ∈ entries, (d.load entries).m entry.1 = some entry.2) ∧
      ∀ jid ∉ entries.map Prod.fst, (d.load entries).m jid = d.m jid := by
  induction entries generalizing d with
  | nil => exact ⟨by simp, fun jid _ => rfl⟩
  | cons entry entries ih =>
    obtain ⟨jid, epoch⟩ := entry
    rw [map_cons, nodup_cons] at nodup
    rw [length_cons] at room
    have longer : (if (d.m jid).isSome then d.order else d.order ++ [jid]).length ≤
        d.order.length + 1 := by
      split <;> simp
    rw [load, if_neg (by omega)]
    obtain ⟨loaded, kept⟩ := ih (d := { d with
      order := if (d.m jid).isSome then d.order else d.order ++ [jid]
      m := update d.m jid (some epoch) }) (by simp only; omega) nodup.2
    refine ⟨fun entry member => ?_, fun other absent => ?_⟩
    · obtain rfl | member := mem_cons.mp member
      · rw [kept _ nodup.1]
        simp
      · exact loaded entry member
    · obtain ⟨different, absent⟩ := not_or.mp (mt mem_cons.mpr absent)
      rw [kept other absent]
      exact update_of_ne different _ _

end
namespace DedupTracker
variable {d : DedupTracker} {jid : String}

theorem Holds.mono (holds : d.Holds jid epoch since) (among : since ⊆ since') :
    d.Holds jid epoch since' := by
  obtain ⟨stored, older, newer, order, late⟩ := holds
  exact ⟨stored, older, newer, order, fun k member => among (late member)⟩

/-- The table has the job at the epoch or a higher one, and only the listed jobs came after it. -/
def Remembers (d : DedupTracker) (jid : String) (epoch : Nat) (since : List String) : Prop :=
  ∃ epoch', epoch ≤ epoch' ∧ d.Holds jid epoch' since

theorem order_split (member : jid ∈ d.order) : ∃ older, d.order = older ++ jid :: d.after jid := by
  obtain ⟨older, newer, split, absent⟩ := eq_append_cons_of_mem member
  refine ⟨older, ?_⟩
  have skipped : d.order.dropWhile (· ≠ jid) = jid :: newer := by
    rw [split, dropWhile_append_of_pos, dropWhile_cons_of_neg (by simp)]
    intro k late
    simpa using fun same : k = jid => absent (same ▸ late)
  rw [after, skipped, tail_cons]
  exact split

theorem remembers_accepted (consistent : d.Consistent)
    (accepted : (d.observe jid epoch).2.2 = false)
    (among : d.after jid ⊆ since) : (d.observe jid epoch).1.Remembers jid epoch since := by
  refine ⟨epoch, le_refl _, ?_⟩
  cases held : d.m jid with
  | none => exact (holds_observed held).mono (nil_subset _)
  | some prev =>
    have newer : ¬ epoch ≤ prev := by
      intro stale
      simp [observe, held, stale] at accepted
    obtain ⟨older, split⟩ := order_split ((consistent.listed jid).mpr (by rw [held]; rfl))
    simp only [observe, held, if_neg newer]
    exact ⟨update_self _ _ _, older, d.after jid, split, among⟩

/-- Deliveries of few enough jobs do not evict it. -/
theorem Remembers.observe (remembers : d.Remembers jid epoch since) (consistent : d.Consistent)
    (member : other ∈ since)
    (few : others jid since < d.capacity) (epoch' : Nat) :
    (d.observe other epoch').1.Remembers jid epoch since := by
  obtain ⟨stored, higher, holds⟩ := remembers
  by_cases same : other = jid
  · subst same
    obtain ⟨here, older, newer, split, among⟩ := holds
    simp only [observe, here]
    split
    · exact ⟨stored, higher, here, older, newer, split, among⟩
    · exact ⟨epoch', by omega, update_self _ _ _, older, newer, split, among⟩
  · have nothing : since ++ [other] ⊆ since := by simpa using member
    have still := holds.observe consistent same ((others_mono nothing).trans_lt few) epoch'
    exact ⟨stored, higher, still.mono nothing⟩

theorem remembers_loaded {capacity : Nat} (higher : epoch ≤ stored)
    (member : (jid, stored) ∈ entries) (nodup : (entries.map Prod.fst).Nodup)
    (room : entries.length ≤ capacity)
    (among : entries.map Prod.fst ⊆ since) :
    ((newDedupTracker capacity).load entries).Remembers jid epoch since := by
  have consistent := (consistent_new capacity).load entries
  have loaded :=
    m_load_of_room (d := newDedupTracker capacity) (by simpa [newDedupTracker] using room) nodup
  have here := loaded.1 _ member
  obtain ⟨older, split⟩ := order_split ((consistent.listed jid).mpr (by rw [here]; rfl))
  refine ⟨stored, higher, here, older, _, split, fun k late => among ?_⟩
  have listed := (consistent.listed k).mp (by rw [split]; simp [late])
  by_contra absent
  rw [loaded.2 k absent] at listed
  cases listed

end DedupTracker

/-- A map that has the job at the epoch or a higher one, and fits into the table. -/
structure Keeps (jid : String) (epoch capacity : Nat) (m : String → Option Nat) : Prop where
  stored : ∃ epoch', epoch ≤ epoch' ∧ m jid = some epoch'
  bounded :
    ∃ jobs : List String, jobs.length ≤ capacity ∧ ∀ other, (m other).isSome = true → other ∈ jobs

section
variable {capacity : Nat}

theorem DedupTracker.Remembers.keeps {d : DedupTracker} (remembers : d.Remembers jid epoch since)
    (consistent : d.Consistent) (bounded : d.Bounded) (same : d.capacity = capacity) :
    Keeps jid epoch capacity d.m := by
  obtain ⟨stored, higher, holds⟩ := remembers
  exact ⟨⟨stored, higher, holds.stored⟩, d.order, same ▸ bounded,
    fun other => (consistent.listed other).mpr⟩

theorem Keeps.loaded (keeps : Keeps jid epoch capacity snapshot.m)
    (enumerates : Enumerates entries (some snapshot))
    (among : entries.map Prod.fst ⊆ since) :
    ((newDedupTracker capacity).load entries).Remembers jid epoch since := by
  obtain ⟨⟨stored, higher, here⟩, jobs, small, all⟩ := keeps
  have room : entries.length ≤ capacity := by
    rw [← length_map Prod.fst]
    refine (enumerates.nodup.subperm fun other listed => all other ?_).length_le.trans small
    obtain ⟨⟨_, stored'⟩, member, rfl⟩ := mem_map.mp listed
    obtain ⟨_, ⟨⟩, found⟩ := (enumerates.mem_iff _ _).mp member
    rw [found]
    rfl
  exact remembers_loaded higher ((enumerates.mem_iff jid stored).mpr ⟨snapshot, rfl, here⟩)
    enumerates.nodup room among

end

namespace DedupStore
open DedupTracker (others)
variable {capacity id : Nat} {since : List String} {s : DedupStore}

def Ready (s : DedupStore) (id : Nat) (snapshot : Snapshot) : Prop :=
  ∃ durable, s.flushes id = some ⟨durable, some snapshot⟩

@[simp] theorem scheduleSaveLocked_eq (s : DedupStore) :
    s.scheduleSaveLocked = { s with timer := some (s.timer.getD .armed) } := by
  unfold scheduleSaveLocked
  cases s with | _ _ timer => cases timer <;> rfl

theorem tracker_observeDurable (s : DedupStore) (jid : String) (epoch : Nat) :
    (s.observeDurable jid epoch).tracker = (s.tracker.observe jid epoch).1 := by
  unfold observeDurable
  dsimp only
  split
  · rename_i rejected
    exact (observe_rejected rejected).symm
  · simp [begin]

section
variable (step : s.Steps event s')
include step

theorem Steps.tracker : s'.tracker = s.tracker ∨
      (∃ jid epoch, event = .observe jid epoch ∧ s'.tracker = (s.tracker.observe jid epoch).1) ∨
      ∃ entries, event = .restarts entries ∧ Enumerates entries s.file ∧
        s'.tracker = (newDedupTracker s.tracker.capacity).load entries := by
  cases step with
  | observe jid epoch => exact .inr (.inl ⟨jid, epoch, rfl, tracker_observeDurable s jid epoch⟩)
  | restarts entries loaded => exact .inr (.inr ⟨entries, rfl, loaded, rfl⟩)
  | fails id durable snapshot ready =>
    refine .inl ?_
    unfold fail
    cases durable <;> simp
  | _ => exact .inl rfl

/-- What a step makes of the flushes: one begins at the next number, takes its snapshot or ends. -/
theorem Steps.flushes (found : s'.flushes id = some flush) :
    s.flushes id = some flush ∨ (id = s.begun ∧ flush.snapshot = none) ∨
      (∃ old, s.flushes id = some old) ∧ event = .takes id ∧
      flush.snapshot = some ⟨s.tracker.m, s.taken⟩ := by
  have begins : ∀ {t : DedupStore} {durable : Bool}, t.flushes = s.flushes → t.begun = s.begun →
      (t.begin durable).flushes id = some flush →
      s.flushes id = some flush ∨ (id = s.begun ∧ flush.snapshot = none) := by
    intro t durable same same' found
    simp only [begin, same, same', update_apply] at found
    split at found
    · rename_i new
      cases found
      exact .inr ⟨new, rfl⟩
    · exact .inl found
  have ends : ∀ {other : Nat}, update s.flushes other none id = some flush →
      s.flushes id = some flush := by
    intro other found
    rw [update_apply] at found
    split at found
    · cases found
    · exact found
  cases step with
  | observe jid epoch =>
    unfold observeDurable at found
    dsimp only at found
    split at found
    · exact .inl found
    · exact (begins (by simp) (by simp) found).imp_right .inl
  | expires armed | shutdown => exact (begins rfl rfl found).imp_right .inl
  | takes other durable waits =>
    simp only [take, update_apply] at found
    split at found
    · rename_i same
      subst same
      cases found
      exact .inr (.inr ⟨⟨_, waits⟩, rfl, rfl⟩)
    · exact .inl found
  | replaces other durable snapshot ready => exact .inl (ends found)
  | fails other durable snapshot ready =>
    refine .inl (@ends other ?_)
    unfold fail at found
    cases durable <;> simpa using found
  | restarts entries loaded => cases found

theorem Steps.counters : s.begun ≤ s'.begun ∧ s.taken ≤ s'.taken := by
  cases step with
  | observe jid epoch =>
    unfold observeDurable
    dsimp only
    split <;> simp [begin]
  | fails id durable snapshot ready =>
    unfold fail
    cases durable <;> simp
  | _ => simp [begin, take, replace, restart]

theorem Steps.file :
    s'.file = s.file ∨ ∃ id snapshot, event = .replaces id ∧ s.Ready id snapshot ∧
      s'.file = some snapshot := by
  cases step with
  | observe jid epoch =>
    unfold observeDurable
    dsimp only
    split <;> simp [begin]
  | replaces id durable snapshot ready => exact .inr ⟨id, snapshot, rfl, ⟨durable, ready⟩, rfl⟩
  | fails id durable snapshot ready =>
    unfold fail
    cases durable <;> simp
  | _ => exact .inl rfl

end

/-- The table is in order, and every snapshot has its own number. -/
structure Sane (capacity : Nat) (s : DedupStore) : Prop where
  consistent : s.tracker.Consistent
  bounded : s.tracker.Bounded
  capacity_eq : s.tracker.capacity = capacity
  numbered : ∀ id snapshot, s.Ready id snapshot → snapshot.number < s.taken

theorem loaded_sane (capacity : Nat) (entries : List (String × Nat)) :
    ((newDedupTracker capacity).load entries).Consistent ∧
    ((newDedupTracker capacity).load entries).Bounded ∧
      ((newDedupTracker capacity).load entries).capacity = capacity :=
  ⟨(consistent_new capacity).load entries, bounded_load (Nat.zero_le _), capacity_load _ entries⟩

theorem Sane.start (capacity : Nat) (file : Option (String → Option Nat))
    (entries : List (String × Nat)) : Sane capacity (start capacity file entries) := by
  obtain ⟨consistent, bounded, same⟩ := loaded_sane capacity entries
  refine ⟨consistent, bounded, same, ?_⟩
  rintro id snapshot ⟨durable, ⟨⟩⟩

theorem Sane.step (positive : 0 < capacity) (sane : Sane capacity s) (step : s.Steps event s') :
    Sane capacity s' := by
  have tracker : s'.tracker.Consistent ∧ s'.tracker.Bounded ∧ s'.tracker.capacity = capacity := by
    obtain same | ⟨jid, epoch, -, same⟩ | ⟨entries, -, -, same⟩ := step.tracker
    · rw [same]
      exact ⟨sane.consistent, sane.bounded, sane.capacity_eq⟩
    · rw [same]
      exact ⟨sane.consistent.observe jid epoch, bounded_observe sane.bounded
        (sane.capacity_eq ▸ positive), (capacity_observe _ _ _).trans sane.capacity_eq⟩
    · rw [same, sane.capacity_eq]
      exact loaded_sane capacity entries
  refine ⟨tracker.1, tracker.2.1, tracker.2.2, ?_⟩
  rintro id snapshot ⟨durable, found⟩
  obtain old | ⟨-, ⟨⟩⟩ | ⟨-, rfl, taken⟩ := step.flushes found
  · exact (sane.numbered id snapshot ⟨durable, old⟩).trans_le step.counters.2
  · cases taken
    cases step
    exact Nat.lt_succ_self _

theorem Sane.runs (positive : 0 < capacity) (run : Runs allowed s events s')
    (sane : Sane capacity s) : Sane capacity s' := by
  induction run with
  | nil s => exact sane
  | cons _ first _ ih => exact ih (sane.step positive first)

/-- The table remembers the job, and so does every snapshot from number `first` on. -/
structure Covered (jid : String) (epoch capacity first : Nat) (since : List String)
    (s : DedupStore) : Prop where
  sane : Sane capacity s
  remembers : s.tracker.Remembers jid epoch since
  next : first ≤ s.taken
  later : ∀ id snapshot, s.Ready id snapshot → first ≤ snapshot.number →
    Keeps jid epoch capacity snapshot.m

theorem Covered.keeps (covered : Covered jid epoch capacity first since s) :
    Keeps jid epoch capacity s.tracker.m :=
  covered.remembers.keeps covered.sane.consistent covered.sane.bounded covered.sane.capacity_eq

theorem Covered.advance (positive : 0 < capacity)
    (covered : Covered jid epoch capacity first since s)
    (step : s.Steps event s') (remembers : s'.tracker.Remembers jid epoch since) :
    Covered jid epoch capacity first since s' := by
  refine ⟨covered.sane.step positive step, remembers, covered.next.trans step.counters.2, ?_⟩
  rintro id snapshot ⟨durable, found⟩ recent
  obtain old | ⟨-, ⟨⟩⟩ | ⟨-, -, taken⟩ := step.flushes found
  · exact covered.later id snapshot ⟨durable, old⟩ recent
  · cases taken
    exact covered.keeps

theorem Covered.remembers_step (covered : Covered jid epoch capacity first since s)
    (few : others jid since < capacity) (step : s.Steps event s') (among : event.jobs ⊆ since) :
    s'.tracker.Remembers jid epoch since ∨ ∃ entries, event = .restarts entries ∧
      Enumerates entries s.file ∧ s'.tracker = (newDedupTracker capacity).load entries := by
  obtain same | ⟨other, epoch', rfl, same⟩ | ⟨entries, restarts, loaded, same⟩ := step.tracker
  · exact .inl (same ▸ covered.remembers)
  · rw [same]
    refine .inl (covered.remembers.observe covered.sane.consistent
      (among (mem_singleton_self _)) ?_ epoch')
    rwa [covered.sane.capacity_eq]
  · rw [covered.sane.capacity_eq] at same
    exact .inr ⟨entries, restarts, loaded, same⟩

/-- The flush of the delivery is on its way. -/
structure Waiting (jid : String) (epoch capacity first : Nat) (since : List String) (id : Nat)
    (s : DedupStore) :
    Prop where
  covered : Covered jid epoch capacity first since s
  known : id < s.begun
  own : ∀ snapshot, s.Ready id snapshot → first ≤ snapshot.number

structure Saved (jid : String) (epoch capacity first : Nat) (since : List String) (s : DedupStore) :
    Prop where
  covered : Covered jid epoch capacity first since s
  file : ∃ snapshot, s.file = some snapshot ∧ first ≤ snapshot.number ∧
    Keeps jid epoch capacity snapshot.m

theorem Runs.not_replaced (run : Runs allowed s events s') (known : id < s.begun)
    (ended : s.flushes id = none) : .replaces id ∉ events := by
  induction run with
  | nil s => exact not_mem_nil
  | @cons s s₁ s₂ event events _ first _ ih =>
    have ended' : s₁.flushes id = none := by
      cases found : s₁.flushes id with
      | none => rfl
      | some flush =>
        obtain old | ⟨new, -⟩ | ⟨⟨old, held⟩, -⟩ := first.flushes found
        · cases ended.symm.trans old
        · omega
        · cases ended.symm.trans held
    intro member
    obtain rfl | member := mem_cons.mp member
    · cases first with
      | replaces _ durable snapshot ready =>
        cases ended.symm.trans ready
    · exact ih (known.trans_le first.counters.1) ended' member

section
variable (few : others jid since < capacity)
include few

theorem Saved.step (saved : Saved jid epoch capacity first since s)
    (inOrder : s.InOrder event) (step : s.Steps event s') (among : event.jobs ⊆ since) :
    Saved jid epoch capacity first since s' := by
  obtain ⟨snapshot, file, recent, keeps⟩ := saved.file
  have positive : 0 < capacity := (Nat.zero_le _).trans_lt few
  constructor
  · refine saved.covered.advance positive step ?_
    obtain remembers | ⟨entries, rfl, loaded, same⟩ := saved.covered.remembers_step few step among
    · exact remembers
    · rw [same]
      exact keeps.loaded (file ▸ loaded) among
  · obtain same | ⟨id, newer, rfl, ⟨durable, ready⟩, same⟩ := step.file
    · exact ⟨snapshot, same.trans file, recent, keeps⟩
    · have later := recent.trans (inOrder _ ready _ rfl snapshot file)
      exact ⟨newer, same, later, saved.covered.later id newer ⟨durable, ready⟩ later⟩

theorem Saved.runs (run : Runs InOrder s events s')
    (among : ∀ event ∈ events, event.jobs ⊆ since)
    (saved : Saved jid epoch capacity first since s) : Saved jid epoch capacity first since s' := by
  induction run with
  | nil s => exact saved
  | cons fine first _ ih =>
    refine ih (fun event member => among event (mem_cons_of_mem _ member)) ?_
    exact saved.step few fine first (among _ mem_cons_self)

/-- Until the flush ends, the table is that of the same process. -/
theorem Waiting.step (waiting : Waiting jid epoch capacity first since id s)
    (step : s.Steps event s') (among : event.jobs ⊆ since) :
    Waiting jid epoch capacity first since id s' ∨ s'.flushes id = none := by
  obtain remembers | ⟨entries, rfl, -, -⟩ := waiting.covered.remembers_step few step among
  · refine .inl ⟨waiting.covered.advance ((Nat.zero_le _).trans_lt few) step remembers,
      waiting.known.trans_le step.counters.1, ?_⟩
    rintro snapshot ⟨durable, found⟩
    obtain old | ⟨-, ⟨⟩⟩ | ⟨-, -, taken⟩ := step.flushes found
    · exact waiting.own snapshot ⟨durable, old⟩
    · cases taken
      exact waiting.covered.next
  · cases step
    exact .inr rfl

theorem Waiting.saved (waiting : Waiting jid epoch capacity first since id s)
    (step : s.Steps (.replaces id) s') : Saved jid epoch capacity first since s' := by
  have among : (DedupEvent.replaces id).jobs ⊆ since := nil_subset _
  obtain remembers | ⟨entries, ⟨⟩, -⟩ := waiting.covered.remembers_step few step among
  refine ⟨waiting.covered.advance ((Nat.zero_le _).trans_lt few) step remembers, ?_⟩
  cases step with
  | replaces _ durable snapshot ready =>
    have recent := waiting.own snapshot ⟨durable, ready⟩
    exact ⟨snapshot, rfl, recent, waiting.covered.later id snapshot ⟨durable, ready⟩ recent⟩

theorem Waiting.runs (run : Runs InOrder s events s')
    (among : ∀ event ∈ events, event.jobs ⊆ since)
    (waiting : Waiting jid epoch capacity first since id s)
    (replaced : .replaces id ∈ events) : Saved jid epoch capacity first since s' := by
  induction run with
  | nil s => cases replaced
  | cons _ first rest ih =>
    have among' := fun event member => among event (mem_cons_of_mem _ member)
    obtain rfl | later := mem_cons.mp replaced
    · exact (waiting.saved few first).runs few rest among'
    · obtain waiting' | ended := waiting.step few first (among _ mem_cons_self)
      · exact ih among' waiting' later
      · exact absurd later (rest.not_replaced (waiting.known.trans_le first.counters.1) ended)

end

theorem Waiting.accepted (sane : Sane capacity s) (positive : 0 < capacity)
    (accepted : (s.tracker.observe jid epoch).2.2 = false) (among : s.tracker.after jid ⊆ since) :
    Waiting jid epoch capacity s.taken since s.begun (s.observeDurable jid epoch) := by
  have step : s.Steps (.observe jid epoch) (s.observeDurable jid epoch) := .observe jid epoch
  have remembers := remembers_accepted sane.consistent accepted among
  rw [← tracker_observeDurable] at remembers
  have flush : s.begun < (s.observeDurable jid epoch).begun ∧
      (s.observeDurable jid epoch).flushes s.begun = some ⟨true, none⟩ := by
    simp [observeDurable, accepted, begin]
  refine ⟨⟨sane.step positive step, remembers, step.counters.2, ?_⟩, flush.1, ?_⟩
  · rintro id snapshot ⟨durable, found⟩ recent
    obtain old | ⟨-, ⟨⟩⟩ | ⟨-, ⟨⟩, -⟩ := step.flushes found
    exact absurd (sane.numbered id snapshot ⟨durable, old⟩) (Nat.not_lt.mpr recent)
  · rintro snapshot ⟨durable, found⟩
    rw [flush.2] at found
    cases found

/-- From a start with any entries, whatever came before: the delivery is accepted and its flush
replaces the file. Then a table that is loaded from a later file refuses the job, if fewer other
jobs than the capacity came after it into the table or were delivered or loaded since, and no older
snapshot replaces a newer file. -/
theorem replay_refused {file : Option (String → Option Nat)} {entries loaded : List (String × Nat)}
    {before : List DedupEvent} {epoch' : Nat}
    (history : Runs (fun _ _ => True) (start capacity file entries) before s)
    (accepted : (s.tracker.observe jid epoch).2.2 = false)
    (run : Runs InOrder (s.observeDurable jid epoch) events s')
    (flushed : .replaces s.begun ∈ events)
    (few : others jid (s.tracker.after jid ++ events.flatMap DedupEvent.jobs) < capacity)
    (enumerates : Enumerates loaded s'.file) (older : epoch' ≤ epoch) :
    (((newDedupTracker capacity).load loaded).observe jid epoch').2.2 = true := by
  have positive : 0 < capacity := (Nat.zero_le _).trans_lt few
  have sane : Sane capacity s := .runs positive history (.start capacity file entries)
  have waiting :=
    Waiting.accepted sane positive accepted (subset_append_left _ (events.flatMap DedupEvent.jobs))
  have among : ∀ event ∈ events,
      event.jobs ⊆ s.tracker.after jid ++ events.flatMap DedupEvent.jobs :=
    fun event member k job => mem_append_right _ (mem_flatMap.mpr ⟨event, member, job⟩)
  obtain ⟨-, snapshot, stored, -, keeps⟩ := waiting.runs few run among flushed
  obtain ⟨stored', higher, holds⟩ := keeps.loaded (stored ▸ enumerates) (Subset.refl _)
  have stale : epoch' ≤ stored' := older.trans higher
  simp [observe, holds.stored, stale]

theorem Runs.append (first : Runs allowed s events s') (second : Runs allowed s' events' s'') :
    Runs allowed s (events ++ events') s'' := by
  induction first with
  | nil s => exact second
  | cons fine step _ ih => exact .cons fine step (ih second)

def deliver (s : DedupStore) (jid : String) (epoch : Nat) : DedupStore :=
  let observed := s.observeDurable jid epoch
  (observed.take s.begun true).replace s.begun ⟨observed.tracker.m, observed.taken⟩

theorem deliver_runs (s : DedupStore) (jid : String) (epoch : Nat)
    (accepted : (s.tracker.observe jid epoch).2.2 = false)
    (filed : ∀ old ∈ s.file, old.number ≤ s.taken) :
    Runs InOrder (s.observeDurable jid epoch)
      [.takes s.begun, .replaces s.begun] (s.deliver jid epoch) := by
  have begins : (s.observeDurable jid epoch).flushes s.begun = some ⟨true, none⟩ := by
    simp [observeDurable, accepted, begin]
  have same : (s.observeDurable jid epoch).file = s.file ∧
      (s.observeDurable jid epoch).taken = s.taken := by
    simp [observeDurable, accepted, begin]
  have ready : ((s.observeDurable jid epoch).take s.begun true).flushes s.begun =
      some ⟨true, some ⟨(s.observeDurable jid epoch).tracker.m,
          (s.observeDurable jid epoch).taken⟩⟩ :=
    update_self _ _ _
  refine .cons trivial (.takes _ _ begins) (.cons ?_ (.replaces _ _ _ ready) (.nil _))
  intro flush found snapshot taken old stored
  cases ready.symm.trans found
  cases taken
  rw [same.2]
  exact filed old (same.1 ▸ stored)

theorem delivers_runs (s : DedupStore) (jid : String) (epoch : Nat)
    (accepted : (s.tracker.observe jid epoch).2.2 = false)
    (filed : ∀ old ∈ s.file, old.number ≤ s.taken) :
    Runs InOrder s [.observe jid epoch, .takes s.begun, .replaces s.begun] (s.deliver jid epoch) :=
  .cons trivial (.observe jid epoch) (deliver_runs s jid epoch accepted filed)

def empty : DedupStore := start 2 none []

theorem enumerates_of {file : Option Snapshot} {m : String → Option Nat}
    (stored : file = some ⟨m, number⟩)
    (nodup : (entries.map Prod.fst).Nodup) (listed : ∀ entry ∈ entries, m entry.1 = some entry.2)
    (rest : ∀ jid ∉ entries.map Prod.fst, m jid = none) : Enumerates entries file := by
  refine ⟨nodup, fun jid epoch => ⟨fun member => ⟨_, stored, listed _ member⟩, ?_⟩⟩
  rintro ⟨snapshot, found, here⟩
  cases stored.symm.trans found
  by_cases known : jid ∈ entries.map Prod.fst
  · obtain ⟨⟨_, epoch'⟩, member, rfl⟩ := mem_map.mp known
    cases (listed _ member).symm.trans here
    exact member
  · cases (rest jid known).symm.trans here

/-- Two jobs one after the other fill a table of two. -/
theorem replay_refused_two :
    (((newDedupTracker 2).load [("j", 1), ("k", 1)]).observe "j" 1).2.2 = true := by
  have run := (deliver_runs empty "j" 1 rfl (by simp [empty, start])).append
    (delivers_runs (empty.deliver "j" 1) "k" 1 rfl (by decide))
  refine replay_refused (.nil empty) rfl run (by decide) (by decide) ?_ (le_refl 1)
  refine enumerates_of rfl (by decide) (by decide) fun other absent => ?_
  obtain ⟨one, two⟩ : other ≠ "j" ∧ other ≠ "k" := by simpa using absent
  exact (update_of_ne two _ _).trans (update_of_ne one _ _)

/-- A table of two that has the jobs j and k, and then j again with its next epoch. -/
def renewed : DedupStore := ((empty.deliver "j" 1).deliver "k" 1).deliver "j" 2

/-- A job keeps the place of its first epoch: the first new job after the second one evicts it. -/
theorem renewed_job_evicted :
    Runs InOrder empty [.observe "j" 1, .takes 0, .replaces 0, .observe "k" 1, .takes 1,
        .replaces 1] ((empty.deliver "j" 1).deliver "k" 1) ∧
      (((empty.deliver "j" 1).deliver "k" 1).tracker.observe "j" 2).2.2 = false ∧
      Runs InOrder (((empty.deliver "j" 1).deliver "k" 1).observeDurable "j" 2)
        [.takes 2, .replaces 2, .observe "l" 1, .takes 3, .replaces 3] (renewed.deliver "l" 1) ∧
      others "j" ["l"] < 2 ∧ Enumerates [("k", 1), ("l", 1)] (renewed.deliver "l" 1).file ∧
      (((newDedupTracker 2).load [("k", 1), ("l", 1)]).observe "j" 2).2.2 = false := by
  refine ⟨?_, rfl, ?_, by decide, ?_, rfl⟩
  · exact (delivers_runs empty "j" 1 rfl (by simp [empty, start])).append
      (delivers_runs _ "k" 1 rfl (by decide))
  · exact (deliver_runs _ "j" 2 rfl (by decide)).append (delivers_runs _ "l" 1 rfl (by decide))
  · refine enumerates_of rfl (by decide) (by decide) fun other absent => ?_
    obtain ⟨one, two⟩ : other ≠ "k" ∧ other ≠ "l" := by simpa using absent
    by_cases same : other = "j"
    · subst same
      rfl
    · refine (update_of_ne two _ _).trans ((update_of_ne same _ _).trans ?_)
      exact (update_of_ne same _ _).trans ((update_of_ne one _ _).trans (update_of_ne same _ _))

end DedupStore
end Zester.Peeld
