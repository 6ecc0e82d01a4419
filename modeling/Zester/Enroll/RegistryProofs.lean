import Zester.Enroll.Registry
import Zester.Enroll.StoreProofs

/-! Calls that have the bucket to themselves do on it what they mean on the registry. -/
namespace Zester.Enroll
open Function
open Program (alone_get_bind alone_get_bind_none alone_bind alone_update_bind alone_create_bind)

variable {texts : Texts} {b : Bucket String Stored} {r : Record} {id : String}

def Stored.record? : Stored → Option Record
  | .record r => some r
  | .id _ => none

def Stored.id? : Stored → Option String
  | .record _ => none
  | .id id => some id

/-- The registry that a bucket holds. -/
def Registry.of (b : Bucket String Stored) : Registry where
  records id := (b.get id).bind fun entry => entry.value.record?
  index peelID := (b.get (indexKey peelID)).bind fun entry => entry.value.id?

/-- Records are stored under enrollment IDs and nothing else is; index entries hold IDs. -/
structure Filed (b : Bucket String Stored) : Prop where
  typed : Typed b
  named : ∀ {key id}, b.Logged key (.id id) → ∃ peelID, key = indexKey peelID

namespace Filed

theorem empty : Filed .empty := ⟨.empty, fun logged => absurd logged Bucket.not_logged_empty⟩

theorem put (filed : Filed b) (named : r.id = enrollID ksuid) :
    Filed (b.write r.id (some (.record r))) :=
  ⟨filed.typed.write_record rfl ⟨ksuid, named⟩, fun logged => filed.named (by simpa using logged)⟩

theorem point (filed : Filed b) (peelID id : String) :
    Filed (b.write (indexKey peelID) (some (.id id))) := by
  refine ⟨filed.typed.write_id _ _, fun logged => ?_⟩
  obtain ⟨rfl, -⟩ | before := Bucket.logged_write.mp logged
  · exact ⟨peelID, rfl⟩
  · exact filed.named before

theorem delete (filed : Filed b) (key : String) : Filed (b.write key none) :=
  ⟨filed.typed.delete key, fun logged => filed.named (by simpa using logged)⟩

end Filed

namespace Registry

theorem records_of :
    (of b).records id = some r ↔ ∃ revision, b.get id = some ⟨.record r, revision⟩ := by
  simp only [of, Option.bind_eq_some_iff]
  constructor
  · rintro ⟨⟨value | value, revision⟩, held, same⟩ <;> cases same
    exact ⟨revision, held⟩
  · rintro ⟨revision, held⟩
    exact ⟨_, held, rfl⟩

theorem own_id (filed : Filed b) (held : (of b).records id = some r) : r.id = id := by
  obtain ⟨revision, stored⟩ := records_of.mp held
  exact filed.typed.id (Bucket.logged_of_get stored)

theorem index_of : (of b).index peelID = some id ↔
    ∃ revision, b.get (indexKey peelID) = some ⟨.id id, revision⟩ := by
  simp only [of, Option.bind_eq_some_iff]
  constructor
  · rintro ⟨⟨value | value, revision⟩, held, same⟩ <;> cases same
    exact ⟨revision, held⟩
  · rintro ⟨revision, held⟩
    exact ⟨_, held, rfl⟩

theorem free_of_records (filed : Filed b) (missing : (of b).records (enrollID ksuid) = none) :
    b.get (enrollID ksuid) = none := by
  cases held : b.get (enrollID ksuid) with
  | none => rfl
  | some entry =>
    obtain ⟨r | id, revision⟩ := entry
    · rw [records_of.mpr ⟨revision, held⟩] at missing
      cases missing
    · obtain ⟨peelID, same⟩ := filed.named (Bucket.logged_of_get held)
      exact absurd same (enrollID_ne_indexKey _ _)

theorem free_of_index (filed : Filed b) (missing : (of b).index peelID = none) :
    b.get (indexKey peelID) = none := by
  cases held : b.get (indexKey peelID) with
  | none => rfl
  | some entry =>
    obtain ⟨r | id, revision⟩ := entry
    · obtain ⟨ksuid, same⟩ := filed.typed.named (Bucket.logged_of_get held)
      exact absurd same.symm (enrollID_ne_indexKey _ _)
    · rw [index_of.mpr ⟨revision, held⟩] at missing
      cases missing

theorem of_write_record (ksuid : String) (value : Option Stored) :
    of (b.write (enrollID ksuid) value) =
      { of b with
        records := update (of b).records (enrollID ksuid) (value.bind Stored.record?) } := by
  simp only [of, mk.injEq]
  constructor
  · funext key
    by_cases here : key = enrollID ksuid
    · subst here
      obtain _ | stored := value <;> simp
    · simp [here]
  · funext peelID
    rw [Bucket.get_write_ne (enrollID_ne_indexKey ksuid peelID).symm]

theorem of_put (named : r.id = enrollID ksuid) :
    of (b.write r.id (some (.record r))) = (of b).put r := by
  rw [put, named]
  exact of_write_record ksuid _

theorem of_remove (ksuid : String) :
    of (b.write (enrollID ksuid) none) = (of b).remove (enrollID ksuid) :=
  of_write_record ksuid none

theorem records_indexKey (filed : Filed b) : (of b).records (indexKey peelID) = none := by
  cases held : (of b).records (indexKey peelID) with
  | none => rfl
  | some r =>
    obtain ⟨revision, found⟩ := records_of.mp held
    obtain ⟨ksuid, same⟩ := filed.typed.named (Bucket.logged_of_get found)
    exact absurd same.symm (enrollID_ne_indexKey _ _)

theorem of_write_index (filed : Filed b) (noRecord : ∀ r, value ≠ some (.record r)) :
    of (b.write (indexKey peelID) value) = (of b).point peelID (value.bind Stored.id?) := by
  simp only [of, point, mk.injEq]
  constructor
  · funext key
    by_cases here : key = indexKey peelID
    · subst here
      refine Eq.trans ?_ (records_indexKey filed).symm
      obtain _ | r | id := value
      · simp
      · exact absurd rfl (noRecord r)
      · simp [Stored.record?]
    · rw [Bucket.get_write_ne here]
  · funext other
    by_cases here : other = peelID
    · subst here
      obtain _ | stored := value <;> simp
    · rw [Bucket.get_write_ne (fun same => here (indexKey_injective same)), update_of_ne here]

theorem of_point (filed : Filed b) (id : String) :
    of (b.write (indexKey peelID) (some (.id id))) = (of b).point peelID (some id) :=
  of_write_index filed (by simp)

theorem of_release (filed : Filed b) :
    of (b.write (indexKey peelID) none) = (of b).point peelID none :=
  of_write_index filed (by simp)

section
variable {reg : Registry}

theorem records_put : (reg.put r).records id = if id = r.id then some r else reg.records id := by
  simp [put, update_apply]

theorem put_cases (held : (reg.put r).records id = some r') :
    id = r.id ∧ r' = r ∨ reg.records id = some r' := by
  rw [records_put] at held
  split at held
  · exact .inl ⟨‹_›, (Option.some.inj held).symm⟩
  · exact .inr held

theorem records_replace (free : reg.records r.id = none) (held : reg.records id = some old) :
    (reg.replace r).records id = some old := by
  refine records_put.trans ((if_neg ?_).trans held)
  rintro rfl
  cases free.symm.trans held

theorem records_remove :
    (reg.remove id).records id' = if id' = id then none else reg.records id' := by
  simp [remove, update_apply]

theorem index_point {id : Option String} :
    (reg.point peelID id).index q = if q = peelID then id else reg.index q := by
  simp [point, update_apply]

/-- A decision stamps a record and moves it to another state, nothing of its identity. -/
structure Settles (reg : Registry) (call : Call) (r r' : Record) : Prop where
  held : ∃ id, call.decision = some (id, r'.state) ∧ reg.records id = some r
  allowed : r.state.canTransitionTo r'.state = true
  same : SameIdentity r r'
  stamped : r'.updatedAt = call.stamp
  dated : r'.state = .revoked → ∃ time ∈ call.readings, r'.decidedAt = some time

theorem decided_spec (decided : reg.decided call = some r') : ∃ r, Settles reg call r r' := by
  simp only [Registry.decided, Option.bind_eq_some_iff] at decided
  obtain ⟨⟨id, target⟩, decision, r, held, changed⟩ := decided
  split at changed
  · rename_i applies
    cases changed
    have allowed : r.state.canTransitionTo target = true := by
      simp only [Call.applies, decision, Bool.and_eq_true] at applies
      exact applies.1
    refine ⟨r, ?_⟩
    cases call <;> cases decision
    all_goals
      refine ⟨⟨_, rfl, held⟩, allowed, ⟨rfl, rfl, rfl⟩, rfl, fun revoked => ?_⟩
      first
      | exact ⟨_, List.mem_cons_self, rfl⟩
      | cases revoked
  · cases changed

end
end Registry

section
open Registry Bucket Option

theorem get_alone {revision : Nat} (held : b.get id = some ⟨.record r, revision⟩) :
    (Store.get texts id).alone b = (b, .ok ⟨r, revision⟩) := by
  unfold Store.get
  rw [alone_get_bind held]
  rfl

theorem get_alone_missing (missing : (of b).records id = none) :
    ∃ text, (Store.get texts id).alone b = (b, .error text) := by
  unfold Store.get
  cases held : b.get id with
  | none =>
    rw [alone_get_bind_none held]
    exact ⟨_, rfl⟩
  | some entry =>
    obtain ⟨r | text, revision⟩ := entry
    · rw [records_of.mpr ⟨revision, held⟩] at missing
      cases missing
    · rw [alone_get_bind held]
      exact ⟨_, rfl⟩

theorem findByPeelID_alone (filed : Filed b)
    (finds : (Store.findByPeelID texts peelID).alone b = (b', found)) :
    b' = b ∧ found.map Entry.value = (of b).current peelID ∧
      ∀ rec, found = some rec → b.get rec.value.id = some ⟨.record rec.value, rec.revision⟩ := by
  unfold Store.findByPeelID at finds
  cases index : (of b).index peelID with
  | none =>
    rw [alone_get_bind_none (free_of_index filed index)] at finds
    cases finds
    simp [current, index]
  | some id =>
    obtain ⟨revision, pointed⟩ := index_of.mp index
    rw [alone_get_bind pointed] at finds
    rw [alone_bind] at finds
    cases held : (of b).records id with
    | none =>
      obtain ⟨text, missing⟩ := @get_alone_missing texts b id held
      rw [missing] at finds
      cases finds
      simp [current, index, held]
    | some r =>
      obtain ⟨revision', stored⟩ := records_of.mp held
      rw [get_alone stored] at finds
      cases finds
      refine ⟨rfl, by simp [current, index, held], fun rec same => ?_⟩
      cases same
      rwa [filed.typed.id (logged_of_get stored)]

/-- What a program that has the bucket to itself makes of the registry. -/
structure Makes {α : Type} (p : StoreM α) (b : Bucket String Stored) (reg : Registry) :
    Prop where
  filed : Filed (p.alone b).1
  holds : of (p.alone b).1 = reg

theorem Makes.map {p : StoreM α} (f : α → β)
    (makes : Makes p b reg) : Makes (do return f (← p)) b reg := by
  have same : ((do return f (← p) : StoreM β).alone b).1 = (p.alone b).1 := by
    rw [alone_bind]
    rfl
  exact ⟨same ▸ makes.filed, same ▸ makes.holds⟩

theorem Makes.of_eq {p : StoreM α} {result : α} {reg : Registry} (runs : p.alone b = (b', result))
    (filed : Filed b') (holds : of b' = reg) : Makes p b reg :=
  ⟨runs ▸ filed, runs ▸ holds⟩

theorem Makes.bind {p : StoreM α} {f : α → StoreM β} {result : α}
    (runs : p.alone b = (b', result)) (makes : Makes (f result) b' reg) :
    Makes (p >>= f) b reg := by
  have same : (p >>= f).alone b = (f result).alone b' := by rw [alone_bind, runs]
  exact ⟨same ▸ makes.filed, same ▸ makes.holds⟩

theorem update_alone {revision stamp : Nat} {stored : Stored}
    (held : b.get r.id = some ⟨stored, revision⟩) :
    (Store.update texts ⟨r, revision⟩ stamp).alone b =
      (b.write r.id (some (.record { r with updatedAt := stamp })),
        .ok ⟨{ r with updatedAt := stamp }, b.revision + 1⟩) := by
  unfold Store.update
  exact alone_update_bind held _ _

theorem create_makes (filed : Filed b) (named : r.id = enrollID ksuid) :
    Makes (Store.create texts r) b ((of b).create r) := by
  have other : r.id ≠ indexKey r.peelID := named ▸ enrollID_ne_indexKey ksuid r.peelID
  unfold Store.create Registry.create
  cases index : (of b).index r.peelID with
  | some id =>
    obtain ⟨revision, pointed⟩ := index_of.mp index
    refine .of_eq (Program.alone_create_bind_held pointed _ _) filed ?_
    simp
  | none =>
    have claimed := filed.point r.peelID r.id
    have points := @of_point b r.peelID filed r.id
    cases held : (of b).records r.id with
    | none =>
      have free : (b.write (indexKey r.peelID) (some (.id r.id))).get r.id = none := by
        rw [get_write_ne other, named]
        exact free_of_records filed (named ▸ held)
      refine .of_eq ((alone_create_bind (free_of_index filed index) _ _).trans
        (alone_create_bind free _ _)) (claimed.put named) ?_
      rw [of_put named, points, if_pos ⟨rfl, rfl⟩]
    | some r' =>
      -- the index entry is given back
      obtain ⟨revision, stored⟩ := records_of.mp held
      rw [← get_write_ne other] at stored
      refine .of_eq ((alone_create_bind (free_of_index filed index) _ _).trans
        (Program.alone_create_bind_held stored _ _)) (claimed.delete _)
          ((of_release claimed).trans ?_)
      rw [points]
      simp [point, ← index]

/-- The record that a transition leaves, if it is possible. -/
def Registry.transition (reg : Registry) (id : String) (refuses : Record → Option String)
    (target : State) (change : Record → Record) (stamp : Nat) : Option Record :=
  (reg.records id).bind fun r =>
    if (refuses r).isNone && r.state.canTransitionTo target then
      some { change r with state := target, updatedAt := stamp }
    else none

/-- A program that stores the record or, without one, fails and leaves everything as it is. -/
structure Decides {α : Type} (p : StoreM (Except String α)) (b : Bucket String Stored)
    (outcome : Option Record) : Prop where
  makes : Makes p b (outcome.elim (of b) (of b).put)
  succeeds : (p.alone b).2.isOk = outcome.isSome

theorem Decides.refused {text : String} (filed : Filed b) (runs : p.alone b = (b, .error text)) :
    Decides p b none :=
  ⟨.of_eq runs filed rfl, by rw [runs]; rfl⟩

theorem Decides.stored (filed : Filed b) (named : r.id = enrollID ksuid)
    (runs : p.alone b = (b.write r.id (some (.record r)), .ok answer)) : Decides p b (some r) :=
  ⟨.of_eq runs (filed.put named) (of_put named), by rw [runs]; rfl⟩

theorem Decides.forget (decides : Decides p b outcome) :
    Decides (do return (← p).map fun _ => ()) b outcome := by
  refine ⟨decides.makes.map _, ?_⟩
  rw [← decides.succeeds, alone_bind]
  cases (p.alone b).2 <;> rfl

theorem transition_decides (filed : Filed b) (keeps : ∀ r, (change r).id = r.id) :
    Decides (Store.transition texts id refuses target cannot change stamp) b
      ((of b).transition id refuses target change stamp) := by
  unfold Registry.transition
  cases held : (of b).records id with
  | none =>
    obtain ⟨text, missing⟩ := @get_alone_missing texts b id held
    refine @Decides.refused _ _ _ text filed ?_
    unfold Store.transition
    rw [alone_bind, missing]
    rfl
  | some r =>
    obtain ⟨revision, stored⟩ := records_of.mp held
    have reads := @get_alone texts b r id revision stored
    cases refused : refuses r with
    | some text =>
      simp only [bind_some, refused, isNone_some, Bool.false_and, Bool.false_eq_true, if_false]
      refine @Decides.refused _ _ _ text filed ?_
      unfold Store.transition
      rw [alone_bind, reads]
      simp only [refused]
      rfl
    | none =>
      cases allowed : r.state.canTransitionTo target with
      | false =>
        simp only [bind_some, allowed, Bool.and_false, Bool.false_eq_true, if_false]
        refine @Decides.refused _ _ _ (cannot ++ r.state.text) filed ?_
        unfold Store.transition
        rw [alone_bind, reads]
        simp only [refused, allowed]
        rfl
      | true =>
        have own : r.id = id := filed.typed.id (logged_of_get stored)
        obtain ⟨ksuid, named⟩ := filed.typed.named (logged_of_get stored)
        simp only [bind_some, refused, allowed, isNone_none, Bool.and_self, if_true]
        have found : b.get (change r).id = some ⟨.record r, revision⟩ := by
          rw [keeps, own, stored]
        have updates :=
          @update_alone texts b { change r with state := target } revision stamp _ found
        refine .stored filed ((keeps r).trans (own.trans named)) (Eq.trans ?_ updates)
        unfold Store.transition
        rw [alone_bind, reads]
        simp only [refused, allowed, if_true]

theorem markIssued_decides (filed : Filed b) :
    Decides (Store.markIssued texts id expiresAt now stamp) b
      ((of b).decided (.markIssued id expiresAt now stamp)) := by
  have same : (of b).transition id (fun _ => none) .issued
      (fun rec => { rec with issuedAt := some now, expiresAt := some expiresAt }) stamp =
      (of b).decided (.markIssued id expiresAt now stamp) := by
    simp [Registry.transition, Registry.decided, Call.decision, Call.applies, Call.change]
  rw [← same]
  exact transition_decides filed fun _ => rfl

theorem decision_decides (filed : Filed b) (decides : call.decision.isSome) :
    Decides (call.program texts) b ((of b).decided call) := by
  have of_transition : ∀ {id refuses target cannot change stamp},
      call.program texts = (do
        return (← Store.transition texts id refuses target cannot change stamp).map fun _ => ()) →
      call.decision = some (id, target) → (∀ r, (change r).id = r.id) →
      (∀ r, ((refuses r).isNone && r.state.canTransitionTo target) = call.applies r) →
      (∀ r, { change r with state := target, updatedAt := stamp } = call.change r) →
      Decides (call.program texts) b ((of b).decided call) := by
    intro id refuses target cannot change stamp program decision keeps applies changes
    have same : (of b).transition id refuses target change stamp = (of b).decided call := by
      simp only [Registry.transition, Registry.decided, decision, bind_some, applies, changes]
    rw [program, ← same]
    exact (transition_decides filed keeps).forget
  cases call with
  | enroll checks req origin | supersede id newRec origin => cases decides
  | approve id approvedBy now stamp =>
    have program : (Call.approve id approvedBy now stamp).program texts =
        (Call.approveForce id approvedBy false now stamp).program texts := rfl
    refine of_transition (program.trans rfl) rfl (fun _ => rfl) (fun r => ?_) fun _ => rfl
    cases mismatch : r.trustMismatch <;> simp [Call.applies, Call.decision, Call.forces, mismatch]
  | approveForce id approvedBy force now stamp =>
    refine of_transition rfl rfl (fun _ => rfl) (fun r => ?_) fun _ => rfl
    cases mismatch : r.trustMismatch <;> cases force <;>
      simp [Call.applies, Call.decision, Call.forces, mismatch]
  | _ =>
    refine of_transition rfl rfl (fun _ => rfl) (fun r => ?_) fun _ => rfl
    simp [Call.applies, Call.decision]

theorem supersede_makes {revision retiredAt stamp : Nat} {old : Record} (filed : Filed b)
    (named : r.id = enrollID ksuid) (held : b.get old.id = some ⟨.record old, revision⟩) :
    Makes (Store.supersede texts r ⟨old, revision⟩ retiredAt stamp) b
      ((of b).supersede r old retiredAt stamp) := by
  have other : ∀ key, r.id ≠ indexKey key := fun key => named ▸ enrollID_ne_indexKey ksuid key
  unfold Store.supersede Registry.supersede
  cases index : (of b).index r.peelID with
  | none =>
    refine .of_eq (alone_get_bind_none (free_of_index filed index) _) filed ?_
    simp
  | some id =>
  obtain ⟨indexed, pointed⟩ := index_of.mp index
  cases taken : (of b).records r.id with
  | some r' =>
    obtain ⟨revision', stored⟩ := records_of.mp taken
    refine .of_eq ((alone_get_bind pointed _).trans
      (Program.alone_create_bind_held stored _ _)) filed ?_
    simp
  | none =>
  have free : b.get r.id = none := by
    rw [named] at taken ⊢
    exact free_of_records filed taken
  have apart : old.id ≠ r.id := by
    intro same
    rw [← same, held] at free
    cases free
  have oldKey : old.id ≠ indexKey r.peelID := by
    obtain ⟨ksuid', named'⟩ := filed.typed.named (logged_of_get held)
    exact named' ▸ enrollID_ne_indexKey ksuid' r.peelID
  -- the index entry is still the one that was read, and so is the old record
  have still : (b.write r.id (some (.record r))).get (indexKey r.peelID) =
      some ⟨.id id, indexed⟩ := by
    rw [get_write_ne (other _).symm, pointed]
  have stillOld : ((b.write r.id (some (.record r))).write (indexKey r.peelID)
      (some (.id r.id))).get (Store.superseded old r.id retiredAt).id =
        some ⟨.record old, revision⟩ := by
    exact (get_write_ne oldKey).trans ((get_write_ne apart).trans held)
  have moved : of ((b.write r.id (some (.record r))).write (indexKey r.peelID) (some (.id r.id))) =
      (of b).replace r := by
    rw [of_point (filed.put named), of_put named]
    rfl
  have filed' := (filed.put named).point r.peelID r.id
  have repoints : ¬ (some id = none ∨ (none : Option Record) ≠ none) := by simp
  rw [if_neg repoints]
  cases retires : old.state.canTransitionTo .revoked with
  | false =>
    rw [if_neg Bool.false_ne_true]
    refine @Makes.of_eq _ _ _ _ (.ok ()) _ ?_ filed' moved
    rw [alone_get_bind pointed]
    rw [alone_create_bind free]
    rw [alone_update_bind still]
    rfl
  | true =>
    rw [if_pos rfl, ← moved]
    have named' : old.id = enrollID _ := (filed.typed.named (logged_of_get held)).choose_spec
    refine @Makes.of_eq _ _ _ _ (.ok ()) _ ?_
      (filed'.put (r := retired old r.id retiredAt stamp) named')
      (of_put (r := retired old r.id retiredAt stamp) named')
    rw [alone_get_bind pointed]
    rw [alone_create_bind free]
    rw [alone_update_bind still]
    rw [alone_bind, update_alone stillOld]
    rfl

theorem releaseIndex_makes (filed : Filed b) :
    Makes (Store.releaseIndex texts peelID) b ((of b).point peelID none) :=
  @Makes.of_eq _ _ _ _ (.ok ()) _ rfl (filed.delete _) (of_release filed)

theorem delete_makes (filed : Filed b) :
    Makes (Store.delete texts (enrollID ksuid)) b ((of b).delete (enrollID ksuid)) := by
  unfold Store.delete Registry.delete
  cases held : (of b).records (enrollID ksuid) with
  | none =>
    obtain ⟨text, missing⟩ := @get_alone_missing texts b _ held
    refine @Makes.of_eq _ _ _ _ (.ok ()) _ ?_ (filed.delete (enrollID ksuid)) ?_
    · rw [alone_bind, missing]
      rfl
    · rw [of_remove]
      simp [remove, ← held]
  | some r =>
    obtain ⟨revision, stored⟩ := records_of.mp held
    by_cases unnamed : r.peelID = ""
    · refine @Makes.of_eq _ _ _ _ (.ok ()) _ ?_ (filed.delete (enrollID ksuid)) ?_
      · rw [alone_bind, get_alone stored]
        simp only [unnamed]
        rfl
      · simp only [of_remove, unnamed, if_true]
    · refine @Makes.of_eq _ _ _ _ (.ok ()) _ ?_
        ((filed.delete (indexKey r.peelID)).delete (enrollID ksuid)) ?_
      · rw [alone_bind, get_alone stored]
        simp only [ne_eq, unnamed, not_false_eq_true, if_true]
        rfl
      · simp only [of_remove, of_release filed, unnamed, if_false]

theorem enroll_makes {checks : Checks} {req : EnrollRequest} {origin : Origin} (filed : Filed b) :
    Makes (handleEnroll texts checks req origin) b ((of b).enroll checks req origin) := by
  unfold handleEnroll Registry.enroll
  cases admitted : checks.admit req with
  | error reply => exact .of_eq rfl filed rfl
  | ok trust =>
    obtain ⟨trustMismatch, trustChecked⟩ := trust
    cases finds : (Store.findByPeelID texts req.peelID).alone b with
    | mk b' found =>
    obtain ⟨same, current, entry⟩ := findByPeelID_alone filed finds
    rw [same] at finds
    refine .bind finds ?_
    cases found with
    | none =>
      simp only [← current, map_none]
      exact (create_makes filed rfl).map _
    | some existing =>
      simp only [← current, map_some]
      have held := entry existing rfl
      have supersedes :=
        @supersede_makes texts _ (newRecord req origin trustMismatch trustChecked) _ _
        origin.retiredAt origin.stamp existing.value filed rfl held
      cases state : existing.value.state with
      | pending =>
        dsimp only
        split <;> exact .of_eq rfl filed rfl
      | approved | issued | active =>
        dsimp only
        split
        · exact supersedes.map _
        · exact .of_eq rfl filed rfl
      | rejected | revoked =>
        have releases : (Store.releaseIndex texts req.peelID).alone b =
            (b.write (indexKey req.peelID) none, .ok ()) := Program.alone_delete_bind _ _
        refine .bind releases ?_
        rw [← of_release filed]
        exact (create_makes (filed.delete _) rfl).map _

theorem operation_makes (filed : Filed b) (op : Operation) :
    Makes (op.program texts) b (op.apply (of b)) := by
  cases op with
  | create newRec ksuid named => exact create_makes filed rfl
  | decide call decides => exact (decision_decides filed decides).makes
  | releaseIndex peelID => exact releaseIndex_makes filed
  | delete ksuid => exact delete_makes filed
  | supersede id newRec origin named =>
    unfold Operation.program Operation.apply Call.program
    dsimp only
    cases held : (of b).records id with
    | none =>
      obtain ⟨text, missing⟩ := @get_alone_missing texts b id held
      exact .bind missing (.of_eq rfl filed rfl)
    | some old =>
      obtain ⟨revision, stored⟩ := records_of.mp held
      have own : b.get old.id = some ⟨.record old, revision⟩ := by
        rw [filed.typed.id (logged_of_get stored), stored]
      refine .bind (get_alone stored) ?_
      exact @supersede_makes texts b (Operation.identified newRec origin.ksuid) origin.ksuid _ _ _ _
        filed rfl own

end
end Zester.Enroll
