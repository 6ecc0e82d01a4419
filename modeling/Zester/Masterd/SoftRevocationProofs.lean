import Zester.Masterd.Revocation

/-! A peel counts as revoked by its most recently updated record, and is known by the one
that its index names. An operation keeps the two together exactly if it is harmless. -/
namespace Zester.Masterd
open Enroll Registry Operation List Function Option

variable {reg : Registry} {past : List Nat} {r : Record}

def CurrentRevoked (reg : Registry) (peelID : String) : Prop :=
  ∃ r, reg.current peelID = some r ∧ r.state = .revoked

/-- The newest record of every peel is revoked exactly if its current one is. -/
def Follows (reg : Registry) : Prop :=
  ∀ peelID, NewestRevoked reg peelID ↔ CurrentRevoked reg peelID

/-- What an operation must not meet. -/
def Harmless (reg : Registry) : Operation → Prop
  | .create _ _ _ => True
  -- a decision about a record that the index does not name
  | .decide call _ => ∀ r, reg.decided call = some r →
      reg.index r.peelID = some r.id ∨ (r.state = .revoked ↔ CurrentRevoked reg r.peelID)
  -- the retirement of the old record, after the index was moved away from it
  | .supersede id newRec origin _ => ∀ old, reg.records id = some old →
      reg.index newRec.peelID ≠ none → reg.records (enrollID origin.ksuid) = none →
      old.state.canTransitionTo .revoked = true →
      (old.peelID ≠ newRec.peelID ∧ reg.index old.peelID = some old.id) ∨
        CurrentRevoked (reg.replace (identified newRec origin.ksuid)) old.peelID
  | .releaseIndex peelID => ¬ NewestRevoked reg peelID
  | .delete ksuid => ∀ r, reg.records (enrollID ksuid) = some r →
      ¬ NewestRevoked (reg.remove (enrollID ksuid)) r.peelID

/-- Every record was stamped in the past, at a time of its own, and every index entry names a
record of its peel. -/
structure Dated (reg : Registry) (past : List Nat) : Prop where
  record : ∀ {id r}, reg.records id = some r → r.id = id ∧ r.peelID ≠ "" ∧ r.updatedAt ∈ past
  distinct : DistinctStamps reg
  pointed : ∀ {peelID id}, reg.index peelID = some id →
    ∃ r, reg.records id = some r ∧ r.peelID = peelID

section
variable {id : String}

theorem NewestRevoked.of_same
    (same : ∀ id r, r.peelID = q → (reg'.records id = some r ↔ reg.records id = some r))
    (revoked : NewestRevoked reg q) : NewestRevoked reg' q := by
  obtain ⟨r, ⟨⟨id, stored⟩, own, latest⟩, state⟩ := revoked
  exact ⟨r, ⟨⟨id, (same id r own).mpr stored⟩, own,
    fun held own' => latest ((same _ _ own').mp held) own'⟩, state⟩

theorem newestRevoked_of_same
    (same : ∀ id r, r.peelID = q → (reg'.records id = some r ↔ reg.records id = some r)) :
    NewestRevoked reg' q ↔ NewestRevoked reg q :=
  ⟨.of_same fun id r own => (same id r own).symm, .of_same same⟩

@[simp] theorem newestRevoked_point {id : Option String} :
    NewestRevoked (reg.point peelID id) q ↔ NewestRevoked reg q :=
  newestRevoked_of_same fun _ _ _ => Iff.rfl

theorem newestRevoked_put_self
    (later : ∀ {id r'}, reg.records id = some r' → r'.updatedAt < r.updatedAt) :
    NewestRevoked (reg.put r) r.peelID ↔ r.state = .revoked := by
  have here : (reg.put r).records r.id = some r := by simp [records_put]
  constructor
  · rintro ⟨r', newest, revoked⟩
    obtain ⟨id, stored⟩ := newest.stored
    obtain ⟨-, rfl⟩ | stored := put_cases stored
    · exact revoked
    · exact absurd (later stored) (Nat.not_lt.mpr (newest.latest here rfl))
  · intro revoked
    refine ⟨r, ⟨⟨r.id, here⟩, rfl, fun {id r'} held own => ?_⟩, revoked⟩
    obtain ⟨-, rfl⟩ | held := put_cases held
    · exact Nat.le_refl _
    · exact (later held).le

theorem newestRevoked_update_of_ne (before : ∀ old, reg.records id = some old → old.peelID ≠ q)
    (after : ∀ new, record = some new → new.peelID ≠ q) :
    NewestRevoked { reg with records := update reg.records id record } q ↔ NewestRevoked reg q := by
  refine newestRevoked_of_same fun id' r' own => ?_
  dsimp only
  by_cases here : id' = id
  · subst here
    rw [update_self]
    exact iff_of_false (fun written => after r' written own) fun held => before r' held own
  · rw [update_of_ne here]

/-- Where no other peel is affected. -/
theorem follows_at (others : ∀ q ≠ peelID, (NewestRevoked reg q ↔ CurrentRevoked reg q)) :
    Follows reg ↔ (NewestRevoked reg peelID ↔ CurrentRevoked reg peelID) := by
  refine ⟨fun all => all _, fun here q => ?_⟩
  by_cases mine : q = peelID
  · rwa [mine]
  · exact others q mine

theorem currentRevoked_iff (index : reg.index q = some id) (held : reg.records id = some r) :
    CurrentRevoked reg q ↔ r.state = .revoked := by
  simp [CurrentRevoked, current, index, held]

theorem not_currentRevoked (index : reg.index q = none) : ¬ CurrentRevoked reg q := by
  simp [CurrentRevoked, current, index]

theorem currentRevoked_put_self (index : reg.index q = some r.id) :
    CurrentRevoked (reg.put r) q ↔ r.state = .revoked := by
  have held : (reg.put r).records r.id = some r := by simp [records_put]
  exact currentRevoked_iff index held

theorem currentRevoked_update_of_ne (index : reg.index q ≠ some id) :
    CurrentRevoked { reg with records := update reg.records id record } q ↔
      CurrentRevoked reg q := by
  have same : (reg.index q).bind (update reg.records id record) =
      (reg.index q).bind reg.records := by
    cases named : reg.index q with
    | none => rfl
    | some id' =>
      rw [bind_some, bind_some, update_of_ne]
      rintro rfl
      exact index named
  unfold CurrentRevoked current
  rw [same]

theorem currentRevoked_point_of_ne {id : Option String} (other : q ≠ peelID) :
    CurrentRevoked (reg.point peelID id) q ↔ CurrentRevoked reg q := by
  have same : (reg.point peelID id).current q = reg.current q := by
    show ((reg.point peelID id).index q).bind reg.records = _
    rw [index_point, if_neg other]
    rfl
  rw [CurrentRevoked, CurrentRevoked, same]

end

namespace Dated
variable {id : String}

theorem empty : Dated .empty [] where
  record held := by cases held
  distinct held := by cases held
  pointed index := by cases index

theorem before (dated : Dated reg past) (later : ∀ time ∈ past, time < r.updatedAt)
    (held : reg.records id = some r') :
    r'.updatedAt < r.updatedAt := later _ (dated.record held).2.2

theorem put (dated : Dated reg past) (named : r.peelID ≠ "")
    (later : ∀ time ∈ past, time < r.updatedAt)
    (own : ∀ old, reg.records r.id = some old → old.peelID = r.peelID) :
    Dated (reg.put r) (past ++ [r.updatedAt]) := by
  constructor
  · intro id r' held
    obtain ⟨rfl, rfl⟩ | held := put_cases held
    · exact ⟨rfl, named, by simp⟩
    · obtain ⟨same, named, stamped⟩ := dated.record held
      exact ⟨same, named, mem_append_left _ stamped⟩
  · intro id id' r₁ r₂ held held' same
    obtain ⟨rfl, rfl⟩ | old := put_cases held <;> obtain ⟨rfl, rfl⟩ | old' := put_cases held'
    · rfl
    · exact absurd same (dated.before later old').ne'
    · exact absurd same (dated.before later old).ne
    · exact dated.distinct old old' same
  · intro peelID id index
    obtain ⟨r', held, same⟩ := dated.pointed index
    by_cases here : id = r.id
    · subst here
      exact ⟨r, by simp [records_put], (own r' held).symm.trans same⟩
    · exact ⟨r', by rwa [records_put, if_neg here], same⟩

theorem point {named : Option String} (dated : Dated reg past)
    (held : ∀ id, named = some id → ∃ r, reg.records id = some r ∧ r.peelID = peelID) :
    Dated (reg.point peelID named) past := by
  refine ⟨dated.record, dated.distinct, fun {q id} index => ?_⟩
  rw [index_point] at index
  split at index
  · rename_i here
    exact here ▸ held id index
  · exact dated.pointed index

theorem own (dated : Dated reg past) (held : reg.records id = some r)
    (index : reg.index q = some id) : r.peelID = q := by
  obtain ⟨r', held', same⟩ := dated.pointed index
  rw [← some.inj (held'.symm.trans held), same]

theorem delete (dated : Dated reg past) (held : reg.records id = some r) :
    Dated ((reg.point r.peelID none).remove id) past := by
  have released : Dated (reg.point r.peelID none) past := dated.point fun _ never => by cases never
  have kept : ∀ {id' r'}, ((reg.point r.peelID none).remove id).records id' = some r' →
      reg.records id' = some r' := by
    intro id' r' held'
    rw [records_remove] at held'
    split at held'
    · cases held'
    · exact held'
  refine ⟨fun held => dated.record (kept held),
    fun held held' => dated.distinct (kept held) (kept held'), ?_⟩
  intro q id' index
  obtain ⟨r', held', same⟩ := released.pointed index
  refine ⟨r', ?_, same⟩
  rw [records_remove, if_neg]
  · exact held'
  · rintro rfl
    have here : q = r.peelID := (released.own held index).symm
    have gone : (reg.point r.peelID none).index q = none := by rw [index_point, if_pos here]
    cases gone.symm.trans index

theorem mono (dated : Dated reg past) (more : past ⊆ past') : Dated reg past' :=
  ⟨fun held => (dated.record held).imp_right (And.imp_right (more ·)), dated.distinct,
    dated.pointed⟩

end Dated

section
variable (dated : Dated reg past)
include dated

theorem put_step (later : ∀ time ∈ past, time < r.updatedAt) (held : reg.records r.id = some old)
    (own : old.peelID = r.peelID) :
    Dated (reg.put r) (past ++ [r.updatedAt]) ∧ (Follows reg → (Follows (reg.put r) ↔
      reg.index r.peelID = some r.id ∨ (r.state = .revoked ↔ CurrentRevoked reg r.peelID))) := by
  have same : ∀ old', reg.records r.id = some old' → old'.peelID = r.peelID := by
    intro old' held'
    rw [← some.inj (held.symm.trans held'), own]
  refine ⟨dated.put (own ▸ (dated.record held).2.1) later same, fun follows => ?_⟩
  have others : ∀ q ≠ r.peelID, (NewestRevoked (reg.put r) q ↔ CurrentRevoked (reg.put r) q) := by
    intro q other
    have unnamed : reg.index q ≠ some r.id :=
      fun index => other ((dated.own held index).symm.trans own)
    refine (newestRevoked_update_of_ne (fun old' held' => same old' held' ▸ Ne.symm other)
      fun new same => ?_).trans
      ((follows q).trans (currentRevoked_update_of_ne unnamed).symm)
    exact some.inj same ▸ Ne.symm other
  rw [follows_at others, newestRevoked_put_self (dated.before later)]
  by_cases index : reg.index r.peelID = some r.id
  · simp [currentRevoked_put_self index, index]
  · have current : CurrentRevoked (reg.put r) r.peelID ↔ CurrentRevoked reg r.peelID :=
      currentRevoked_update_of_ne index
    simp [current, index]

theorem decide_step (later : ∀ time ∈ past, time < call.stamp) :
    Dated (reg.decide call) (past ++ [call.stamp]) ∧
      (Follows reg → (Follows (reg.decide call) ↔ ∀ r, reg.decided call = some r →
        reg.index r.peelID = some r.id ∨ (r.state = .revoked ↔ CurrentRevoked reg r.peelID))) := by
  unfold Registry.decide
  cases decided : reg.decided call with
  | none =>
    exact ⟨dated.mono (subset_append_left _ _),
      fun follows => iff_of_true follows fun r never => by cases never⟩
  | some r =>
    obtain ⟨old, ⟨id, -, held⟩, -, same, stamped, -⟩ := decided_spec decided
    rw [← (dated.record held).1, ← same.id] at held
    simp only [some.injEq, forall_eq', elim_some]
    rw [← stamped] at later ⊢
    exact put_step dated later held same.peelID.symm

section
variable (named : r.peelID ≠ "") (later : ∀ time ∈ past, time < r.updatedAt)
include named later

theorem replace_step (free : reg.records r.id = none) :
    Dated (reg.replace r) (past ++ [r.updatedAt]) ∧ (Follows reg → Follows (reg.replace r)) := by
  have own : ∀ old, reg.records r.id = some old → old.peelID = r.peelID := by simp [free]
  have held : (reg.put r).records r.id = some r := by simp [records_put]
  refine ⟨(dated.put named later own).point fun id same => ?_, fun follows q => ?_⟩
  · cases same
    exact ⟨r, held, rfl⟩
  have index : (reg.replace r).index q = if q = r.peelID then some r.id else reg.index q :=
    index_point
  unfold Registry.replace at index ⊢
  rw [newestRevoked_point]
  by_cases here : q = r.peelID
  · subst here
    rw [newestRevoked_put_self (dated.before later),
      currentRevoked_iff (r := r) (by rw [index, if_pos rfl])]
    exact held
  · have unnamed : reg.index q ≠ some r.id := fun index => by
      obtain ⟨r', stored, -⟩ := dated.pointed index
      cases free.symm.trans stored
    rw [currentRevoked_point_of_ne here]
    refine (newestRevoked_update_of_ne (by simp [free]) fun new same => ?_).trans
      ((follows q).trans (currentRevoked_update_of_ne unnamed).symm)
    exact some.inj same ▸ Ne.symm here

theorem create_step :
    Dated (reg.create r) (past ++ [r.updatedAt]) ∧ (Follows reg → Follows (reg.create r)) := by
  unfold Registry.create
  split
  · rename_i free
    exact replace_step dated named later free.2
  · exact ⟨dated.mono (subset_append_left _ _), id⟩

theorem supersede_step (after : r.updatedAt < stamp) (held : reg.records old.id = some old) :
    Dated (reg.supersede r old retiredAt stamp) (past ++ [r.updatedAt, stamp]) ∧
      (Follows reg → (Follows (reg.supersede r old retiredAt stamp) ↔
        (reg.index r.peelID ≠ none → reg.records r.id = none →
          old.state.canTransitionTo .revoked = true →
          (old.peelID ≠ r.peelID ∧ reg.index old.peelID = some old.id) ∨
            CurrentRevoked (reg.replace r) old.peelID))) := by
  unfold Registry.supersede
  split
  · rename_i closed
    refine ⟨dated.mono (subset_append_left _ _),
      fun follows => iff_of_true follows fun indexed free => ?_⟩
    exact absurd closed (by simp [indexed, free])
  rename_i opened
  obtain ⟨indexed, free⟩ : reg.index r.peelID ≠ none ∧ reg.records r.id = none := by
    simpa [not_or] using opened
  obtain ⟨moved, follow⟩ := replace_step dated named later free
  split
  · rename_i retires
    have differ : old.id ≠ r.id := by
      intro same
      rw [same, free] at held
      cases held
    have held' := records_replace free held
    have index : (reg.replace r).index old.peelID = some old.id ↔
        old.peelID ≠ r.peelID ∧ reg.index old.peelID = some old.id := by
      show ((reg.put r).point r.peelID (some r.id)).index old.peelID = _ ↔ _
      rw [index_point]
      split
      · rename_i here
        simp [here, Ne.symm differ]
      · rename_i other
        simp [other, Registry.put]
    have last : ∀ time ∈ past ++ [r.updatedAt],
        time < (retired old r.id retiredAt stamp).updatedAt := by
      intro time before
      obtain before | now := mem_append.mp before
      · exact (later time before).trans after
      · rw [mem_singleton.mp now]
        exact after
    have retiring := put_step (r := retired old r.id retiredAt stamp) moved last held' rfl
    rw [append_assoc] at retiring
    refine ⟨retiring.1, fun follows => (retiring.2 (follow follows)).trans ?_⟩
    simp only [ne_eq, indexed, not_false_eq_true, free, retires, forall_const]
    refine or_congr index ?_
    simp [retired, Store.superseded]
  · rename_i stays
    exact ⟨moved.mono (by simp),
      fun follows => iff_of_true (follow follows) fun _ _ retires => absurd retires stays⟩

end

omit dated in
theorem follows_release_iff (follows : Follows reg) :
    Follows (reg.point peelID none) ↔ ¬ NewestRevoked reg peelID := by
  have released : ¬ CurrentRevoked (reg.point peelID none) peelID :=
    not_currentRevoked (by simp [index_point])
  have others : ∀ q ≠ peelID,
      (NewestRevoked (reg.point peelID none) q ↔ CurrentRevoked (reg.point peelID none) q) := by
    intro q other
    rw [newestRevoked_point, currentRevoked_point_of_ne other]
    exact follows q
  rw [follows_at others, newestRevoked_point, iff_false_right released]

theorem delete_step {id : String} :
    Dated (reg.delete id) past ∧ (Follows reg → (Follows (reg.delete id) ↔
      ∀ r, reg.records id = some r → ¬ NewestRevoked (reg.remove id) r.peelID)) := by
  unfold Registry.delete
  cases held : reg.records id with
  | none => exact ⟨dated, fun follows => iff_of_true follows fun r never => by cases never⟩
  | some r =>
    simp only [(dated.record held).2.1, if_false, some.injEq, forall_eq']
    refine ⟨dated.delete held, fun follows => ?_⟩
    have records : NewestRevoked ((reg.point r.peelID none).remove id) =
        NewestRevoked (reg.remove id) :=
      funext fun q => propext (newestRevoked_of_same fun _ _ _ => Iff.rfl)
    have free : (reg.point r.peelID none).index r.peelID = none := by simp [index_point]
    have released : ¬ CurrentRevoked ((reg.point r.peelID none).remove id) r.peelID :=
      not_currentRevoked free
    rw [follows_at fun q other => ?_, records, iff_false_right released]
    have unnamed : (reg.point r.peelID none).index q ≠ some id := by
      rw [index_point, if_neg other]
      exact fun index => other (dated.own held index).symm
    rw [records]
    refine (newestRevoked_update_of_ne (fun old held' => ?_) (by simp)).trans ((follows q).trans
      ((currentRevoked_update_of_ne unnamed).trans (currentRevoked_point_of_ne other)).symm)
    exact some.inj (held.symm.trans held') ▸ Ne.symm other

/-- An operation keeps newest and current records together exactly if it is harmless. -/
theorem apply_step (op : Operation) (increasing : (past ++ op.stamps).Pairwise (· < ·)) :
    Dated (op.apply reg) (past ++ op.stamps) ∧
      (Follows reg → (Follows (op.apply reg) ↔ Harmless reg op)) := by
  have later : ∀ stamp ∈ op.stamps, ∀ time ∈ past, time < stamp :=
    fun stamp now time before => (pairwise_append.mp increasing).2.2 time before stamp now
  cases op with
  | create newRec ksuid named =>
    have created :=
      create_step (r := identified newRec ksuid) dated named (later _ (mem_singleton.mpr rfl))
    exact ⟨created.1, fun follows => iff_of_true (created.2 follows) trivial⟩
  | decide call decides => exact decide_step dated (later _ (mem_singleton.mpr rfl))
  | supersede id newRec origin named =>
    unfold apply Harmless
    dsimp only
    cases held : reg.records id with
    | none =>
      exact ⟨dated.mono (subset_append_left _ _),
        fun follows => iff_of_true follows fun old never => by cases never⟩
    | some old =>
      simp only [some.injEq, forall_eq']
      rw [← (dated.record held).1] at held
      have stamps := (pairwise_append.mp increasing).2.1
      exact supersede_step (r := identified newRec origin.ksuid) dated named
        (later _ mem_cons_self) (rel_of_pairwise_cons stamps (mem_singleton.mpr rfl)) held
  | releaseIndex peelID =>
    exact ⟨(dated.point fun _ never => by cases never).mono (subset_append_left _ _),
      follows_release_iff⟩
  | delete ksuid =>
    have deleted := @delete_step reg past dated (enrollID ksuid)
    exact ⟨deleted.1.mono (subset_append_left _ _), deleted.2⟩

end

def after (texts : Texts) (ops : List Operation) : Bucket String Stored :=
  ops.foldl (fun b op => ((op.program texts).alone b).1) .empty

theorem after_append (ops : List Operation) (op : Operation) :
    after texts (ops ++ [op]) = ((op.program texts).alone (after texts ops)).1 := by
  simp [after]

theorem after_filed (ops : List Operation) : Filed (after texts ops) := by
  induction ops using reverseRecOn with
  | nil => exact .empty
  | append_singleton ops op ih =>
    rw [after_append]
    exact (operation_makes ih op).filed

theorem of_after_append (ops : List Operation) (op : Operation) :
    of (after texts (ops ++ [op])) = op.apply (of (after texts ops)) := by
  rw [after_append]
  exact (operation_makes (after_filed ops) op).holds

theorem after_dated (increasing : (ops.flatMap stamps).Pairwise (· < ·)) :
    Dated (of (after texts ops)) (ops.flatMap stamps) := by
  induction ops using reverseRecOn with
  | nil => exact .empty
  | append_singleton ops op ih =>
    rw [flatMap_append, flatMap_singleton] at increasing ⊢
    rw [of_after_append]
    exact (apply_step (ih (pairwise_append.mp increasing).1) op increasing).1

/-- After every operation of a history, the peels that a sync finds revoked are those whose
current record is, exactly if every operation was harmless where it was made. -/
theorem soft_revocation_follows_iff (texts : Texts) (validPublicKey : String → Bool) (now : Nat)
    (push : List (String × Int) → Except String Unit) (force : Bool) (syncer : RevocationSyncer)
    (ops : List Operation) (increasing : (ops.flatMap stamps).Pairwise (· < ·)) :
    (∀ done, done <+: ops → ∀ peelID,
      (((syncer.sync texts validPublicKey now push force).alone (after texts done)).2.1.isRevoked
        peelID = true ↔ CurrentRevoked (of (after texts done)) peelID)) ↔
    ∀ done op, done ++ [op] <+: ops → Harmless (of (after texts done)) op := by
  have increasing' : ∀ done, done <+: ops → (done.flatMap stamps).Pairwise (· < ·) := by
    rintro done ⟨rest, rfl⟩
    rw [flatMap_append] at increasing
    exact (pairwise_append.mp increasing).1
  have finds : ∀ done, done <+: ops → ((∀ peelID,
      (((syncer.sync texts validPublicKey now push force).alone (after texts done)).2.1.isRevoked
        peelID = true ↔
        CurrentRevoked (of (after texts done)) peelID)) ↔ Follows (of (after texts done))) := by
    intro done early
    have dated := @after_dated texts done (increasing' done early)
    simp only [sync_isRevoked (after_filed done) dated.distinct]
    rfl
  have step : ∀ done op, done ++ [op] <+: ops → Follows (of (after texts done)) →
      (Follows (of (after texts (done ++ [op]))) ↔ Harmless (of (after texts done)) op) := by
    intro done op early follows
    have stamps := increasing' _ early
    rw [of_after_append]
    refine (apply_step (after_dated ?_) op ?_).2 follows
    · exact increasing' done ((prefix_append _ _).trans early)
    · simpa using stamps
  refine forall_prefix_iff finds (fun peelID => ?_) step
  exact iff_of_false (fun ⟨r, newest, _⟩ => by obtain ⟨id, held⟩ := newest.stored; cases held)
    (not_currentRevoked rfl)

def samplePending (updatedAt : Nat) : Record where
  id := ""
  peelID := "web-01"
  publicKey := "UPEEL"
  curvePublicKey := "XPEEL"
  state := .pending
  createdAt := updatedAt
  updatedAt := updatedAt

def sampleSyncer : RevocationSyncer := ⟨[], none⟩

def revokedPeel : List Operation :=
  [.create (samplePending 1) "1" (by decide), .decide (.approve "enr-1" "admin" 2 2) rfl,
    .decide (.revoke "enr-1" "admin" "lost" 3 3) rfl]

theorem soft_revocation_follows_iff_revoked :
    (((sampleSyncer.sync sampleTexts (fun _ => true) 9 (fun _ => .ok ()) false).alone
        (after sampleTexts revokedPeel)).2.1.isRevoked "web-01" = true ↔
      CurrentRevoked (of (after sampleTexts revokedPeel)) "web-01") := by
  refine (soft_revocation_follows_iff sampleTexts (fun _ => true) 9 (fun _ => .ok ()) false
    sampleSyncer revokedPeel (by decide)).mpr ?_ revokedPeel (prefix_refl _) "web-01"
  rintro done op ⟨rest, split⟩
  obtain _ | ⟨first, _ | ⟨second, _ | ⟨third, done⟩⟩⟩ := done
  · cases split
    trivial
  · obtain ⟨enrolled, tail⟩ := cons.inj split
    cases tail
    rw [enrolled]
    rintro r decided
    cases decided
    exact .inl (by decide)
  · obtain ⟨enrolled, tail⟩ := cons.inj split
    obtain ⟨approved, tail⟩ := cons.inj tail
    cases tail
    rw [enrolled, approved]
    rintro r decided
    cases decided
    exact .inl (by decide)
  · simp [revokedPeel] at split

def recoveredPeel : List Operation :=
  [.create (samplePending 1) "1" (by decide), .decide (.approve "enr-1" "admin" 2 2) rfl,
    .decide (.markIssued "enr-1" 100 3 3) rfl,
    .supersede "enr-1" (samplePending 4) (sampleOrigin "2" 5) (by decide)]

/-- The recovered peel counts as revoked while its current record is pending. -/
theorem recovered_peel_counts_as_revoked : (recoveredPeel.flatMap stamps).Pairwise (· < ·) ∧
    ((sampleSyncer.sync sampleTexts (fun _ => true) 9 (fun _ => .ok ()) false).alone
      (after sampleTexts recoveredPeel)).2.1.isRevoked "web-01" = true ∧
    ¬ CurrentRevoked (of (after sampleTexts recoveredPeel)) "web-01" := by
  refine ⟨by decide, by decide, ?_⟩
  rintro ⟨r, current, revoked⟩
  have pending : ((of (after sampleTexts recoveredPeel)).current "web-01").map Record.state =
      some .pending := by decide
  rw [current, map_some, revoked] at pending
  cases pending

end Zester.Masterd
