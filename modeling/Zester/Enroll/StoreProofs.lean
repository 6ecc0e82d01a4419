import Zester.Lib.Contract
import Zester.Enroll.Handler

/-! The store among any number of masters. An invariant of the bucket that each kind of
write keeps holds in every interleaving; a decision that succeeds was stored. -/
namespace Zester.Enroll
open Bucket (logged_write not_logged_empty logged_of_get le_trans Logged le_write)
open Store

variable {id : String}

theorem enrollID_injective : Function.Injective enrollID := by
  intro x y same
  simpa [enrollID] using same

theorem indexKey_injective : Function.Injective indexKey := by
  intro x y same
  simpa [indexKey] using same

theorem enrollID_ne_indexKey (ksuid peelID : String) : enrollID ksuid ≠ indexKey peelID := by
  intro same
  have first := congrArg (fun text => text.toList.head?) same
  simp [enrollID, indexKey, peelIndexPrefix] at first

/-- No record was ever stored under the ID. -/
def Unwritten (b : Bucket String Stored) (id : String) : Prop := ∀ r, ¬ b.Logged id (.record r)

theorem Unwritten.write (unwritten : Unwritten b id)
    (other : ∀ r, value = some (.record r) → id ≠ key) : Unwritten (b.write key value) id := by
  intro r logged
  obtain ⟨same, stored⟩ | before := logged_write.mp logged
  · exact other r stored same
  · exact unwritten r before

theorem Unwritten.write_id (unwritten : Unwritten b id) (key text : String) :
    Unwritten (b.write key (some (.id text))) id :=
  unwritten.write (by simp)

theorem Unwritten.delete (unwritten : Unwritten b id) (key : String) :
    Unwritten (b.write key none) id :=
  unwritten.write (by simp)

/-- A record that was decided about is still the same enrollment. -/
structure SameIdentity (r r' : Record) : Prop where
  id : r'.id = r.id
  peelID : r'.peelID = r.peelID
  publicKey : r'.publicKey = r.publicKey

/-- Every record is stored under its own ID, which is an enrollment ID. -/
structure Typed (b : Bucket String Stored) : Prop where
  id : ∀ {key r}, b.Logged key (.record r) → r.id = key
  named : ∀ {key r}, b.Logged key (.record r) → ∃ ksuid, key = enrollID ksuid

namespace Typed

theorem empty : Typed .empty where
  id logged := absurd logged not_logged_empty
  named logged := absurd logged not_logged_empty

theorem write_id (typed : Typed b) (key text : String) : Typed (b.write key (some (.id text))) where
  id logged := typed.id (by simpa using logged)
  named logged := typed.named (by simpa using logged)

theorem delete (typed : Typed b) (key : String) : Typed (b.write key none) where
  id logged := typed.id (by simpa using logged)
  named logged := typed.named (by simpa using logged)

theorem write_record (typed : Typed b) (id : r.id = key) (named : ∃ ksuid, key = enrollID ksuid) :
    Typed (b.write key (some (.record r))) := by
  constructor
  all_goals
    intro k r' logged
    obtain ⟨rfl, same⟩ | before := logged_write.mp logged
  · cases same
    exact id
  · exact typed.id before
  · exact named
  · exact typed.named before

theorem decide (typed : Typed b) (held : b.get key = some ⟨.record r, revision⟩)
    (same : SameIdentity r r') : Typed (b.write key (some (.record r'))) :=
  typed.write_record (same.id.trans (typed.id (logged_of_get held)))
    (typed.named (logged_of_get held))

end Typed

/-- The masters: each call stores a first record only under its own new ID. -/
def enrollments (calls : Nat → Call) (regime : Regime String Stored)
    (inv : Bucket String Stored → Prop) : Discipline Nat String Stored where
  regime := regime
  inv := inv
  guar i b b' := ∀ ksuid, (calls i).ksuid? ≠ some ksuid → Unwritten b (enrollID ksuid) →
    Unwritten b' (enrollID ksuid)

/-- A change that leaves alone what was checked when the record was created. -/
structure SameAdmission (r r' : Record) : Prop extends SameIdentity r r' where
  trustMismatch : r'.trustMismatch = r.trustMismatch

/-- What a call may do: the ID and the first version of a record that it creates, and the
changes that it makes to records. -/
structure Role where
  ksuid? : Option String
  creates : Record → Prop
  changes : Record → Record → Prop

def Call.role (call : Call) : Role where
  ksuid? := call.ksuid?
  creates r :=
    match call with
    | .enroll _ _ _ => r.state = .pending
    | _ => True
  changes r r' := SameAdmission r r' ∧
    match call.decision with
    | some (id, target) => r.id = id ∧ r'.state = target ∧
        (target = .approved → call.forces = false → r.trustMismatch = false)
    | none => r'.state = .revoked

/-- What the store writes in a role. -/
inductive Writes (regime : Regime String Stored) (inv : Bucket String Stored → Prop) (role : Role)
    (b : Bucket String Stored) : Bucket String Stored → Prop where
  | decided {key : String} {r r' : Record} {revision}
      (held : b.get key = some ⟨.record r, revision⟩) (changes : role.changes r r')
      (allowed : r.state.canTransitionTo r'.state = true) :
        Writes regime inv role b (b.write key (some (.record r')))
  | created {r : Record} {ksuid : String} (own : role.ksuid? = some ksuid)
      (named : r.id = enrollID ksuid) (first : role.creates r)
      (permitted : regime.permits b (.create r.id (.record r))) (unwritten : Unwritten b r.id)
      (free : b.get r.id = none) : Writes regime inv role b (b.write r.id (some (.record r)))
  | claimed {peelID} {id : String} (free : b.get (indexKey peelID) = none) :
      Writes regime inv role b (b.write (indexKey peelID) (some (.id id)))
  /-- The index entry is still the one that was there when the record was created. -/
  | repointed {b₀ entry} {r : Record} (holds₀ : inv b₀)
      (held₀ : b₀.get (indexKey r.peelID) = some entry)
      (permitted : regime.permits b₀ (.create r.id (.record r))) (since : b₀ ≤ b)
      (held : b.get (indexKey r.peelID) = some entry) (logged : b.Logged r.id (.record r)) :
      Writes regime inv role b (b.write (indexKey r.peelID) (some (.id r.id)))
  | withdrawn {ksuid : String} : Writes regime inv role b (b.write (enrollID ksuid) none)
  | released {peelID} (permitted : regime.permits b (.delete (indexKey peelID))) :
      Writes regime inv role b (b.write (indexKey peelID) none)

theorem Writes.fresh (writes : Writes regime inv role b b') (foreign : role.ksuid? ≠ some other)
    (unwritten : Unwritten b (enrollID other)) : Unwritten b' (enrollID other) := by
  cases writes with
  | decided held =>
    refine unwritten.write fun _ _ same => ?_
    subst same
    exact unwritten _ (logged_of_get held)
  | created own named =>
    refine unwritten.write fun _ _ same => foreign ?_
    rw [own, enrollID_injective (same.trans named)]
  | claimed | repointed => exact unwritten.write_id _ _
  | withdrawn | released => exact unwritten.delete _

/-- The writes of the calls keep the invariant. -/
structure Kept (regime : Regime String Stored) (inv : Bucket String Stored → Prop) : Prop where
  typed : ∀ {b}, inv b → Typed b
  writes : ∀ {call : Call} {b b'}, inv b → Writes regime inv call.role b b' → inv b'

/-- The writes of the store are promised and keep the invariant, as long as they stay
within the roles. -/
structure Serves (d : Discipline ι String Stored) (roles : ι → Role) : Prop where
  typed : ∀ {b}, d.inv b → Typed b
  fresh : ∀ {i b b' ksuid}, d.guar i b b' → (roles i).ksuid? ≠ some ksuid →
    Unwritten b (enrollID ksuid) → Unwritten b' (enrollID ksuid)
  writes : ∀ {i b b'}, d.inv b → Writes d.regime d.inv (roles i) b b' → d.guar i b b' ∧ d.inv b'

theorem Kept.serves (kept : Kept regime inv) :
    Serves (enrollments calls regime inv) fun i => (calls i).role where
  typed := kept.typed
  fresh guar foreign := guar _ foreign
  writes holds writes := ⟨fun _ => writes.fresh, kept.writes holds writes⟩

variable {d : Discipline ι String Stored}

theorem Serves.unwritten_around (serves : Serves d roles)
    (distinct : ∀ i j ksuid, (roles i).ksuid? = some ksuid → (roles j).ksuid? = some ksuid → i = j)
    (own : (roles i).ksuid? = some ksuid) (around : d.Around i b b')
    (unwritten : Unwritten b (enrollID ksuid)) : Unwritten b' (enrollID ksuid) := by
  refine around.stable (P := (Unwritten · (enrollID ksuid))) (fun other free => ?_) unwritten
  obtain ⟨-, -, -, j, foreign, guar⟩ := other
  exact serves.fresh guar (fun same => foreign (distinct j i ksuid same own)) free

/-- The record was read from the bucket. -/
def ReadFrom (b : Bucket String Stored) (rec : Entry Record) : Prop :=
  ∃ before, before ≤ b ∧ before.get rec.value.id = some ⟨.record rec.value, rec.revision⟩

theorem ReadFrom.mono (read : ReadFrom b rec) (later : b ≤ b') :
    ReadFrom b' rec := by
  obtain ⟨before, since, held⟩ := read
  exact ⟨before, le_trans since later, held⟩

theorem get_reads (id : String) : (Store.get texts id).Uses fun op => op.isWrite = false := by
  refine ⟨rfl, ?_⟩
  rintro (refused | ⟨_ | _, revision⟩) <;> exact trivial

theorem findByPeelID_reads (peelID : String) :
    (findByPeelID texts peelID).Uses fun op => op.isWrite = false := by
  refine ⟨rfl, ?_⟩
  rintro (refused | ⟨_ | enrollID, revision⟩)
  · exact trivial
  · exact trivial
  · refine .bind (p := Store.get texts enrollID) (get_reads enrollID) ?_
    rintro (_ | _) <;> exact trivial

/-- A successful decision was stored. -/
def Decided (call : Call) (b : Bucket String Stored) (result : Except String Unit) : Prop :=
  result = .ok () → ∀ id target, call.decision = some (id, target) →
    ∃ r, b.Logged id (.record r) ∧ r.state = target

theorem Decided.undecided (none : call.decision = none) : Decided call b result := by
  intro _ id target decides
  cases none.symm.trans decides

theorem decision_spec {p : StoreM (Except String (Entry Record))} (holds : d.inv b)
    (decides : call.decision = some (id, target))
    (stored : d.Ensures i (fun b' result => ∀ answer, result = .ok answer →
      ∃ r, b'.Logged id (.record r) ∧ r.state = target) b p) :
    d.Ensures i (Decided call) b (do return (← p).map fun _ => ()) := by
  refine .bind holds stored ?_
  rintro b₁ (text | answer) - _ logged b₂ around₂ succeeded
  · cases succeeded
  · intro id' target' same
    obtain ⟨rfl, rfl⟩ : id = id' ∧ target = target' := by simpa [decides] using same
    obtain ⟨r, stored, state⟩ := logged answer rfl
    exact ⟨r, stored.mono around₂.later, state⟩

section
variable (serves : Serves d roles)
include serves

theorem get_spec (id : String) : d.Ensures i (fun b' result => ∀ rec, result = .ok rec →
      rec.value.id = id ∧ ReadFrom b' rec) b (Store.get texts id) := by
  refine .get ?_ ?_ ?_
  · rintro b' around ⟨value, revision⟩ held
    cases value with
    | id text => exact .error
    | record r =>
      intro b'' around' rec same
      cases same
      have typed : r.id = id := (serves.typed around.inv).id (logged_of_get held)
      exact ⟨typed, b', around'.later, typed ▸ held⟩
  · exact fun _ _ _ => .error
  · exact fun _ _ _ _ => .error

theorem update_spec (rec : Entry Record)
    (read : before.get rec.value.id = some ⟨.record r, rec.revision⟩)
    (since : before ≤ b) (stamp : Nat)
    (changes : (roles i).changes r { rec.value with updatedAt := stamp })
    (allowed : r.state.canTransitionTo rec.value.state = true) :
    d.Ensures i (fun b' result => ∀ answer, result = .ok answer →
      ∃ r', b'.Logged rec.value.id (.record r') ∧ r'.state = rec.value.state) b
      (Store.update texts rec stamp) := by
  refine .update since read ?_ ?_ ?_ ?_
  · exact fun b' around _ held => serves.writes around.inv (.decided held changes allowed)
  · intro b' around _ held b'' around' answer _
    exact ⟨_, Logged.mono (logged_write.mpr (.inl ⟨rfl, rfl⟩)) around'.later, rfl⟩
  · exact fun _ _ => .error
  · exact fun _ _ _ _ _ _ => .error

theorem transition_spec (stamp : Nat) (same : ∀ r, (change r).id = r.id)
    (changes : ∀ r, r.id = id → refuses r = none →
      (roles i).changes r { change r with state := target, updatedAt := stamp })
    (holds : d.inv b) :
    d.Ensures i (fun b' result => ∀ answer, result = .ok answer →
      ∃ r, b'.Logged id (.record r) ∧ r.state = target) b
      (transition texts id refuses target cannot change stamp) := by
  refine .bind holds (get_spec serves id) ?_
  rintro b₁ (text | rec) - holds₁ loaded
  · exact .error
  obtain ⟨named, before, since, held⟩ := loaded rec rfl
  dsimp only
  split
  · exact .error
  rename_i admitted
  split
  · rename_i allowed
    have key : ({ change rec.value with state := target } : Record).id = id :=
      (same rec.value).trans named
    have changed := changes rec.value named admitted
    rw [named, ← key] at held
    refine (update_spec serves _ held since stamp changed allowed).weaken ?_
    intro b' result _ stored answer succeeded
    rw [← key]
    exact stored answer succeeded
  · exact .error

theorem findByPeelID_spec (peelID : String) :
    d.Ensures i (fun b' result => ∀ rec, result = some rec →
      ReadFrom b' rec) b (findByPeelID texts peelID) := by
  refine .get ?_ ?_ ?_
  · rintro b' around ⟨value, revision⟩ held
    cases value with
    | record r => exact .nothing
    | id enrollID =>
      refine .bind (p := Store.get texts enrollID) around.inv (get_spec serves enrollID) ?_
      rintro b₁ (text | rec) - _ loaded
      · exact .nothing
      · intro b₂ around₂ answer same
        cases same
        exact (loaded rec rfl).2.mono around₂.later
  · exact fun _ _ _ => .nothing
  · exact fun _ _ _ _ => .nothing

section
variable (distinct : ∀ i j ksuid, (roles i).ksuid? = some ksuid →
      (roles j).ksuid? = some ksuid → i = j)
  (own : (roles i).ksuid? = some ksuid)
include distinct own

theorem releaseIndex_spec (peelID : String) (unwritten : Unwritten b (enrollID ksuid)) :
    d.Ensures i (fun b' _ => Unwritten b' (enrollID ksuid)) b
      (releaseIndex texts peelID) := by
  have released : ∀ b', d.Around i b b' →
      Unwritten (b'.write (indexKey peelID) none) (enrollID ksuid) :=
    fun b' around => (serves.unwritten_around distinct own around unwritten).delete _
  refine .write (fun _ => rfl) ?_ ?_ ?_
  · exact fun b' around permitted => serves.writes around.inv (.released permitted)
  · exact fun b' around _ b'' around' =>
      serves.unwritten_around distinct own around' (released b' around)
  · rintro b' around - _ text (rfl | rfl) b'' around'
    · exact serves.unwritten_around distinct own (around.trans around') unwritten
    · exact serves.unwritten_around distinct own around' (released b' around)

theorem create_spec (id : rec.id = enrollID ksuid) (first : (roles i).creates rec)
    (unwritten : Unwritten b (enrollID ksuid)) :
    d.Ensures i (fun _ _ => True) b (Store.create texts rec) := by
  have claimed : ∀ b', d.Around i b b' →
      Unwritten (b'.write (indexKey rec.peelID) (some (.id rec.id))) (enrollID ksuid) :=
    fun b' around => (serves.unwritten_around distinct own around unwritten).write_id _ _
  -- a record that could not be written gives the index back
  have rollback : ∀ {b₁} (text : String), d.Ensures i
      (fun _ _ => True) b₁ (do
        let _ ← Program.delete (indexKey rec.peelID)
        return .error text : StoreM (Except String Unit)) := fun text =>
    .write (fun _ => rfl) (fun b' around permitted =>
      serves.writes around.inv (.released permitted))
      (fun _ _ _ _ _ => trivial) (fun _ _ _ _ _ _ _ _ => trivial)
  refine .guarded (Op.guarded_create _ _) ?_ ?_ (fun _ _ _ _ _ => trivial)
    (fun _ _ _ _ _ _ _ _ => trivial)
  · exact fun b' around _ free => serves.writes around.inv (.claimed free)
  intro b' around _ _
  refine .guarded (Op.guarded_create _ _) ?_ (fun _ _ _ _ _ _ => trivial) (fun _ _ _ => rollback _)
    (fun _ _ _ _ _ _ => rollback _)
  intro b'' around' permitted free
  have fresh := serves.unwritten_around distinct own around' (claimed b' around)
  exact serves.writes around'.inv (.created own id first permitted (id ▸ fresh) free)

theorem supersede_spec (id : newRec.id = enrollID ksuid) (first : (roles i).creates newRec)
    (retires : ∀ now stamp,
      (roles i).changes oldRec.value
      { superseded oldRec.value newRec.id now with updatedAt := stamp })
    (read : ReadFrom b oldRec) (unwritten : Unwritten b (enrollID ksuid)) (now stamp : Nat) :
    d.Ensures i (fun _ _ => True) b (supersede texts newRec oldRec now stamp) := by
  refine .get ?_ (fun _ _ _ _ _ => trivial) (fun _ _ _ _ _ _ => trivial)
  intro b₁ around₁ idxEntry held₁
  have unwritten₁ := serves.unwritten_around distinct own around₁ unwritten
  refine .guarded (Op.guarded_create _ _) ?_ ?_ (fun _ _ _ _ _ => trivial)
    (fun _ _ _ _ _ _ _ _ => trivial)
  · intro b₂ around₂ permitted free
    have fresh := serves.unwritten_around distinct own around₂ unwritten₁
    exact serves.writes around₂.inv (.created own id first permitted (id ▸ fresh) free)
  intro b₂ around₂ permitted _
  have since₂ := le_write b₂ newRec.id (some (.record newRec))
  -- a failed move of the index takes the new record away again
  have rollback : ∀ {b₃} (text : String), d.Ensures i
      (fun _ _ => True) b₃ (do
        let _ ← Program.delete newRec.id
        return .error text : StoreM (Except String Unit)) := fun text =>
    .write (fun _ => rfl) (fun b' around _ => id ▸ serves.writes around.inv .withdrawn)
      (fun _ _ _ _ _ => trivial) (fun _ _ _ _ _ _ _ _ => trivial)
  have repointed : ∀ b₃, d.Around i
      (b₂.write newRec.id (some (.record newRec))) b₃ →
      b₃.get (indexKey newRec.peelID) = some idxEntry →
      d.guar i b₃ (b₃.write (indexKey newRec.peelID) (some (.id newRec.id))) ∧
        d.inv (b₃.write (indexKey newRec.peelID) (some (.id newRec.id))) := by
    intro b₃ around₃ held₃
    have later : b₂ ≤ b₃ := le_trans since₂ around₃.later
    have held₂ : b₂.get (indexKey newRec.peelID) = some idxEntry :=
      Bucket.get_of_le later held₃
        ((Bucket.get_revision_le held₁).trans (Bucket.revision_mono around₂.later))
    refine serves.writes around₃.inv (.repointed around₂.inv held₂ permitted later held₃ ?_)
    exact Logged.mono (logged_write.mpr (.inl ⟨rfl, rfl⟩)) around₃.later
  refine .update (le_trans around₂.later since₂) held₁ ?_ ?_ (fun _ _ => rollback _)
    (fun _ _ _ _ _ _ => rollback _)
  · exact fun b₃ around₃ _ held₃ => repointed b₃ around₃ held₃
  intro b₃ around₃ _ held₃
  dsimp only
  split
  · rename_i allowed
    obtain ⟨before, since, held⟩ := read
    have since₃ : before ≤ b₃.write (indexKey newRec.peelID) (some (.id newRec.id)) :=
      le_trans since (le_trans around₁.later (le_trans around₂.later
        (le_trans since₂ (le_trans around₃.later (le_write _ _ _)))))
    exact .bind (repointed b₃ around₃ held₃).2
      (update_spec serves ⟨superseded oldRec.value newRec.id now, oldRec.revision⟩ held since₃
        stamp (retires now stamp) allowed)
      (fun _ _ _ _ _ _ _ => trivial)
  · exact fun _ _ => trivial

theorem enroll_spec (ours : origin.ksuid = ksuid)
    (first : ∀ r, r.state = .pending → (roles i).creates r)
    (retires : ∀ r newID now stamp, (roles i).changes r { superseded r newID now with updatedAt :=
      stamp }) (holds : d.inv b) (unwritten : Unwritten b (enrollID ksuid)) :
    d.Ensures i (fun _ _ => True) b (handleEnroll texts checks req origin) := by
  unfold handleEnroll
  split
  · exact fun _ _ => trivial
  rename_i trustMismatch trustChecked _
  have id : (newRecord req origin trustMismatch trustChecked).id = enrollID ksuid := by
    rw [← ours]; rfl
  have submit : ∀ {b₁}, d.inv b₁ → Unwritten b₁ (enrollID ksuid) →
      d.Ensures i (fun _ _ => True) b₁ (do
        return submitted (newRecord req origin trustMismatch trustChecked)
          (← Store.create texts (newRecord req origin trustMismatch trustChecked))) :=
    fun holds₁ unwritten₁ =>
      .bind holds₁ (create_spec serves distinct own id (first _ rfl) unwritten₁)
      (fun _ _ _ _ _ _ _ => trivial)
  refine .bind_reads holds (findByPeelID_reads req.peelID) (findByPeelID_spec serves req.peelID) ?_
  rintro b₁ (_ | existing) around₁ found
  · exact submit around₁.inv (serves.unwritten_around distinct own around₁ unwritten)
  have unwritten₁ := serves.unwritten_around distinct own around₁ unwritten
  have replace : d.Ensures i (fun _ _ => True) b₁ (do
      if existing.value.publicKey = req.publicKey then
        return submitted (newRecord req origin trustMismatch trustChecked)
          (← supersede texts (newRecord req origin trustMismatch trustChecked) existing
            origin.retiredAt origin.stamp)
      else
        return activeElsewhere) := by
    split
    · exact .bind around₁.inv
        (supersede_spec serves distinct own id (first _ rfl) (retires _ _) (found existing rfl)
          unwritten₁ _ _)
        (fun _ _ _ _ _ _ _ => trivial)
    · exact fun _ _ => trivial
  have again : d.Ensures i (fun _ _ => True) b₁ (do
      let _ ← releaseIndex texts req.peelID
      return submitted (newRecord req origin trustMismatch trustChecked)
        (← Store.create texts (newRecord req origin trustMismatch trustChecked))) :=
    .bind around₁.inv (releaseIndex_spec serves distinct own req.peelID unwritten₁)
      fun b₂ _ _ holds₂ unwritten₂ => submit holds₂ unwritten₂
  dsimp only
  cases existing.value.state with
  | pending =>
    dsimp only
    split <;> exact fun _ _ => trivial
  | approved | issued | active => exact replace
  | rejected | revoked => exact again

end

theorem call_spec (distinct : ∀ i j ksuid, (roles i).ksuid? = some ksuid →
      (roles j).ksuid? = some ksuid → i = j)
    (role : roles i = call.role) (holds : d.inv b)
    (unwritten : ∀ ksuid, Unwritten b (enrollID ksuid)) :
    d.Ensures i (Decided call) b (call.program texts) := by
  have identity : ∀ r : Record, r.id = r.id := fun _ => rfl
  cases call with
  | approve id approvedBy now stamp =>
    refine decision_spec (p := approveForce texts id approvedBy false now stamp) holds rfl
      (transition_spec serves stamp identity (fun r named admitted => ?_) holds)
    rw [role]
    exact ⟨⟨⟨rfl, rfl, rfl⟩, rfl⟩, named, rfl, fun _ _ => by simpa using admitted⟩
  | approveForce id approvedBy force now stamp =>
    refine decision_spec holds rfl
      (transition_spec serves stamp identity (fun r named admitted => ?_) holds)
    rw [role]
    exact ⟨⟨⟨rfl, rfl, rfl⟩, rfl⟩, named, rfl, fun _ unforced => by
      simpa [show force = false from unforced] using admitted⟩
  | enroll checks req origin =>
    have own : (roles i).ksuid? = some origin.ksuid := by rw [role]; rfl
    refine .bind holds (enroll_spec serves distinct own rfl (fun r pending => ?_)
      (fun r newID now stamp => ?_) holds (unwritten _)) ?_
    · rw [role]
      exact pending
    · rw [role]
      exact ⟨⟨⟨rfl, rfl, rfl⟩, rfl⟩, rfl⟩
    · exact fun _ _ _ _ _ _ _ => .undecided rfl
  | supersede id newRec origin =>
    have own : (roles i).ksuid? = some origin.ksuid := by rw [role]; rfl
    refine .bind_reads holds (get_reads id) (get_spec serves id) ?_
    rintro b₁ (text | oldRec) around₁ loaded
    · exact fun _ _ => .undecided rfl
    refine .weaken (supersede_spec serves distinct own rfl ?_ (fun now stamp => ?_)
      (loaded oldRec rfl).2 (serves.unwritten_around distinct own around₁ (unwritten _)) _ _) ?_
    · rw [role]
      exact trivial
    · rw [role]
      exact ⟨⟨⟨rfl, rfl, rfl⟩, rfl⟩, rfl⟩
    · exact fun _ _ _ _ => .undecided rfl
  | _ =>
    refine decision_spec holds rfl (transition_spec serves _ identity (fun r named _ => ?_) holds)
    rw [role]
    exact ⟨⟨⟨rfl, rfl, rfl⟩, rfl⟩, named, rfl, fun other => State.noConfusion other⟩

end

/-- Every interleaving of the masters keeps the invariant, and what a decision that
succeeded came to is in the log. -/
theorem masters_hold (kept : Kept regime inv) (distinct : DistinctIDs calls) (start : inv .empty)
    (run : (masters texts calls .empty).Reaches regime s) :
    (enrollments calls regime inv).Holds (fun i => Decided (calls i)) s := by
  refine Discipline.Holds.reaches (d := enrollments calls regime inv) run ⟨start, fun i => ?_⟩
  exact call_spec kept.serves distinct rfl start fun _ _ => not_logged_empty

def sampleTexts : Texts := ⟨fun _ => "refused", fun _ => "undecodable"⟩

def sampleChecks : Checks where
  invalidPeelID _ := none
  validPublicKey _ := true
  validCurvePublicKey _ := true
  consume id := .ok ⟨"web", id, "nonce"⟩
  verifyEnrollSignature _ _ _ _ := true
  verifyTrustBinding _ _ _ _ := true
  caRootPin := ""
  equalFold first second := first == second

def sampleRequest (publicKey : String) : EnrollRequest where
  peelID := "web"
  publicKey := publicKey
  curvePublicKey := "curve"
  hostname := "web.local"
  challengeID := publicKey
  signature := "signed"
  metadata := []
  trustedCASPKI := ""
  trustSignature := ""

def sampleOrigin (ksuid : String) (now : Nat) : Origin := ⟨ksuid, now, now, now, "10.0.0.1"⟩

def served (turns : List Nat) : List (Nat × Luck) := turns.map fun i => (i, .served)

end Zester.Enroll
