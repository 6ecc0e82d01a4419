import Zester.Enroll.StoreProofs

/-! The live enrollments of a peel. Concurrent re-enrollments can give one peel two live
records with different keys; as long as every index entry is released and every record
created on a settled index, all live records of a peel have one key. -/
namespace Zester.Enroll
open Bucket

def State.live (s : State) : Bool := !s.validTransitions.isEmpty

def liveRecords (b : Bucket String Stored) : List Record :=
  b.keys.filterMap fun key =>
    match b.get key with
    | some ⟨.record rec, _⟩ => if rec.state.live then some rec else none
    | _ => none

/-- All live records of a peel have the same public key. -/
def OneLiveKey (b : Bucket String Stored) : Prop :=
  ∀ r ∈ liveRecords b, ∀ r' ∈ liveRecords b, r.peelID = r'.peelID → r.publicKey = r'.publicKey

/-- The index of the peel names the record itself, or a stored one with the same key. -/
def indexSettled (b : Bucket String Stored) (r : Record) : Bool :=
  match b.get (indexKey r.peelID) with
  | some ⟨.id id, _⟩ =>
    id == r.id ||
      match b.get id with
      | some ⟨.record held, _⟩ => held.publicKey == r.publicKey
      | _ => false
  | _ => false

/-- An index entry is only deleted while the peel has no live record, and a record only
created while the index is settled. Every operation may fail. -/
def settledIndex : Regime String Stored where
  permits b op :=
    match op with
    | .delete key => (liveRecords b).all (fun r => key != indexKey r.peelID) = true
    | .create _ (.record r) => indexSettled b r = true
    | _ => True
  fails _ := True

theorem mem_liveRecords : r ∈ liveRecords b ↔
      (∃ key revision, b.get key = some ⟨.record r, revision⟩) ∧ r.state.live = true := by
  simp only [liveRecords, List.mem_filterMap, mem_keys]
  constructor
  · rintro ⟨key, -, stored⟩
    split at stored
    · rename_i revision held
      split at stored
      · rename_i live
        cases stored
        exact ⟨⟨key, revision, held⟩, live⟩
      · cases stored
    · cases stored
  · rintro ⟨⟨key, revision, held⟩, live⟩
    exact ⟨key, by simp [held], by simp [held, live]⟩

/-- A live record after a write was written just then or was live before. -/
theorem liveRecords_write (member : r ∈ liveRecords (b.write key value)) :
    (value = some (.record r) ∧ r.state.live = true) ∨ r ∈ liveRecords b := by
  obtain ⟨⟨k, revision, held⟩, live⟩ := mem_liveRecords.mp member
  by_cases here : k = key
  · subst here
    cases value with
    | none => simp at held
    | some stored =>
      obtain ⟨rfl, -⟩ : stored = .record r ∧ _ := by simpa using held
      exact .inl ⟨rfl, live⟩
  · rw [get_write_ne here] at held
    exact .inr (mem_liveRecords.mpr ⟨⟨k, revision, held⟩, live⟩)

theorem live_of_canTransitionTo {old new : State} (allowed : old.canTransitionTo new = true) :
    old.live = true := by
  cases old <;> first | rfl | cases allowed

/-- The index of the peel names an enrollment with the key of the record. -/
def Indexed (b : Bucket String Stored) (r : Record) : Prop :=
  ∃ id revision named, b.get (indexKey r.peelID) = some ⟨.id id, revision⟩ ∧
    b.Logged id (.record named) ∧ named.publicKey = r.publicKey

namespace Indexed

theorem write (indexed : Indexed b r) (other : indexKey r.peelID ≠ key) :
    Indexed (b.write key value) r := by
  obtain ⟨id, revision, named, pointed, logged, same⟩ := indexed
  exact ⟨id, revision, named, by rwa [get_write_ne other], logged.mono (le_write _ _ _), same⟩

theorem congr (indexed : Indexed b r) (same : SameIdentity r r') : Indexed b r' := by
  obtain ⟨id, revision, named, pointed, logged, key⟩ := indexed
  exact ⟨id, revision, named, by rwa [same.peelID], logged, key.trans same.publicKey.symm⟩

end Indexed

structure OneIdentity (b : Bucket String Stored) : Prop where
  typed : Typed b
  /-- A record keeps its public key. -/
  same : ∀ {id r r'}, b.Logged id (.record r) → b.Logged id (.record r') →
    r.publicKey = r'.publicKey
  indexed : ∀ {r}, r ∈ liveRecords b → Indexed b r

namespace OneIdentity

theorem empty : OneIdentity .empty where
  typed := .empty
  same logged := absurd logged not_logged_empty
  indexed member := absurd member List.not_mem_nil

theorem oneLiveKey (identity : OneIdentity b) : OneLiveKey b := by
  intro r live r' live' peel
  obtain ⟨id, revision, named, pointed, logged, key⟩ := identity.indexed live
  obtain ⟨id', revision', named', pointed', logged', key'⟩ := identity.indexed live'
  rw [← peel, pointed] at pointed'
  cases pointed'
  rw [← key, identity.same logged logged', key']

theorem write_other (identity : OneIdentity b) (typed : Typed (b.write key value))
    (other : ∀ r, value ≠ some (.record r))
    (indexed : ∀ {r}, r ∈ liveRecords b → Indexed b r → Indexed (b.write key value) r) :
    OneIdentity (b.write key value) where
  typed := typed
  same logged logged' := by
    simp only [logged_write, other, and_false, false_or] at logged logged'
    exact identity.same logged logged'
  indexed member := by
    obtain ⟨stored, -⟩ | before := liveRecords_write member
    · exact absurd stored (other _)
    · exact indexed before (identity.indexed before)

theorem write_record (identity : OneIdentity b) (id : r.id = key)
    (named : ∃ ksuid, key = enrollID ksuid)
    (same : ∀ {r'}, b.Logged key (.record r') → r'.publicKey = r.publicKey)
    (indexed : r.state.live = true → Indexed (b.write key (some (.record r))) r) :
    OneIdentity (b.write key (some (.record r))) where
  typed := identity.typed.write_record id named
  same logged logged' := by
    obtain ⟨rfl, here⟩ | before := logged_write.mp logged <;>
      obtain ⟨same', here'⟩ | before' := logged_write.mp logged'
    · cases here
      cases here'
      rfl
    · cases here
      exact (same before').symm
    · subst same'
      cases here'
      exact same before
    · exact identity.same before before'
  indexed member := by
    obtain ⟨stored, live⟩ | before := liveRecords_write member
    · cases stored
      exact indexed live
    · refine (identity.indexed before).write ?_
      obtain ⟨ksuid, rfl⟩ := named
      exact (enrollID_ne_indexKey ksuid _).symm

end OneIdentity

theorem indexed_of_settled (settled : indexSettled b r = true) :
    (∃ revision, b.get (indexKey r.peelID) = some ⟨.id r.id, revision⟩) ∨ Indexed b r := by
  unfold indexSettled at settled
  split at settled
  · rename_i id revision pointed
    obtain own | same := Bool.or_eq_true_iff.mp settled
    · exact .inl ⟨revision, by rw [pointed, beq_iff_eq.mp own]⟩
    · split at same
      · rename_i held _ stored
        exact .inr ⟨id, revision, held, pointed, logged_of_get stored, beq_iff_eq.mp same⟩
      · cases same
  · cases settled

theorem OneIdentity.writes {call : Call} (identity : OneIdentity b)
    (writes : Writes settledIndex OneIdentity call.role b b') : OneIdentity b' := by
  cases writes with
  | @decided key r r' revision held changes allowed =>
    have same := changes.1.toSameIdentity
    have logged := logged_of_get held
    -- a record that can still move on was live, so its index entry was in order
    have live : r ∈ liveRecords b :=
      mem_liveRecords.mpr ⟨⟨key, revision, held⟩, live_of_canTransitionTo allowed⟩
    obtain ⟨ksuid, named⟩ := identity.typed.named logged
    refine identity.write_record (same.id.trans (identity.typed.id logged)) ⟨ksuid, named⟩ ?_ ?_
    · exact fun logged' => (identity.same logged' logged).trans same.publicKey.symm
    · intro _
      refine ((identity.indexed live).congr same).write ?_
      exact named ▸ (enrollID_ne_indexKey ksuid _).symm
  | @created r ksuid _ named _ settled unwritten =>
    refine identity.write_record rfl ⟨ksuid, named⟩ (fun logged => absurd logged (unwritten _)) ?_
    intro _
    have other : indexKey r.peelID ≠ r.id := named ▸ (enrollID_ne_indexKey ksuid _).symm
    obtain ⟨revision, pointed⟩ | indexed := indexed_of_settled settled
    · exact ⟨r.id, revision, r, by rwa [get_write_ne other], by simp, rfl⟩
    · exact indexed.write other
  | claimed free =>
    refine identity.write_other (identity.typed.write_id _ _) (by simp) fun live indexed => ?_
    refine indexed.write fun same => ?_
    -- without an index entry the peel has no live record
    obtain ⟨_, _, _, pointed, -⟩ := indexed
    rw [same, free] at pointed
    cases pointed
  | @repointed b₀ entry r _ held₀ settled later held logged =>
    refine identity.write_other (identity.typed.write_id _ _) (by simp) fun {r₁} live indexed => ?_
    by_cases peel : r₁.peelID = r.peelID
    · obtain ⟨id, revision, named, pointed, there, key⟩ := indexed
      rw [peel, held] at pointed
      cases pointed
      -- the overwritten entry is the one on which the new record was created
      have same : r.publicKey = named.publicKey := by
        obtain ⟨_, own⟩ | ⟨_, _, _, pointed₀, there₀, key₀⟩ := indexed_of_settled settled
        · cases held₀.symm.trans own
          exact identity.same logged there
        · cases held₀.symm.trans pointed₀
          exact key₀.symm.trans (identity.same (there₀.mono later) there)
      exact ⟨r.id, _, r, by rw [peel, get_put_self], logged.mono (le_write _ _ _), same.trans key⟩
    · exact indexed.write fun same => peel (indexKey_injective same)
  | @withdrawn ksuid =>
    refine identity.write_other (identity.typed.delete _) (by simp) fun live indexed => ?_
    exact indexed.write (enrollID_ne_indexKey ksuid _).symm
  | released permitted =>
    refine identity.write_other (identity.typed.delete _) (by simp) fun {r} live indexed => ?_
    refine indexed.write fun same => ?_
    have free := List.all_eq_true.mp permitted r live
    simp [same] at free

theorem OneIdentity.kept : Kept settledIndex OneIdentity := ⟨OneIdentity.typed, OneIdentity.writes⟩

/-- In every run whose index entries are released and whose records are created on a settled
index, all live records of a peel have one public key. -/
theorem one_live_key_of_settled_index (texts : Texts) (calls : Nat → Call)
    (distinct : DistinctIDs calls) {s : System Nat String Stored fun _ => Except String Unit}
    (run : (masters texts calls .empty).Reaches settledIndex s) : OneLiveKey s.bucket := by
  have identity : OneIdentity s.bucket :=
    (masters_hold OneIdentity.kept distinct OneIdentity.empty run).1
  exact identity.oneLiveKey

def reEnrollments : Nat → Call
  | 0 => .enroll sampleChecks (sampleRequest "A") (sampleOrigin "1" 1)
  | 1 => .reject (enrollID "1") "operator" "unknown host" 2 2
  | 2 => .enroll sampleChecks (sampleRequest "B") (sampleOrigin "2" 3)
  | 3 => .enroll sampleChecks (sampleRequest "C") (sampleOrigin "3" 3)
  | _ => .markActive (enrollID "1") 4

theorem reEnrollments_distinct : DistinctIDs reEnrollments := by
  intro i j ksuid first second
  match i, j with
  | 0, 0 | 2, 2 | 3, 3 => rfl
  | 0, 2 | 0, 3 | 2, 0 | 2, 3 | 3, 0 | 3, 2 => exact absurd (first.trans second.symm) (by decide)
  | 0, 1 | 0, _ + 4 | 2, 1 | 2, _ + 4 | 3, 1 | 3, _ + 4 => cases second
  | 1, _ | _ + 4, _ => cases first

def reEnrolledInTurn : System Nat String Stored fun _ => Except String Unit :=
  (masters sampleTexts reEnrollments .empty).play (served [0, 0, 0, 1, 1, 2, 2, 2, 2, 2, 3, 3])

theorem one_live_key_of_settled_index_in_turn : OneLiveKey reEnrolledInTurn.bucket ∧
      (liveRecords reEnrolledInTurn.bucket).map Record.publicKey = ["B"] := by
  refine ⟨one_live_key_of_settled_index sampleTexts reEnrollments reEnrollments_distinct
    (System.play_reaches (fun _ _ => trivial) _ _ ?_), rfl⟩
  exact ⟨trivial, trivial, rfl, trivial, trivial, trivial, trivial, rfl, trivial, rfl, trivial,
    trivial, trivial⟩

def reEnrolledAtOnce : System Nat String Stored fun _ => Except String Unit :=
  (masters sampleTexts reEnrollments .empty).play
    (served [0, 0, 0, 1, 1, 2, 2, 3, 3, 2, 2, 2, 3, 3, 3])

/-- The later host releases the index entry of the other one and takes its place: there
are two pending records with different keys. -/
theorem released_twice_two_live_keys : DistinctIDs reEnrollments ∧
      (masters sampleTexts reEnrollments .empty).Reaches .anything reEnrolledAtOnce ∧
      (liveRecords reEnrolledAtOnce.bucket).map (fun r => (r.peelID, r.publicKey, r.state)) =
        [("web", "C", .pending), ("web", "B", .pending)] ∧
      ¬ OneLiveKey reEnrolledAtOnce.bucket := by
  refine ⟨reEnrollments_distinct, ?_, rfl, ?_⟩
  · exact System.play_reaches
      (fun _ _ => trivial) _ _ (System.permitted_of (fun _ _ => trivial) _ _)
  · unfold OneLiveKey
    decide

end Zester.Enroll
