import Zester.Enroll.RegistryProofs
import Zester.Lib.Latest
import Zester.Value

/-! Revoked credentials: the list of revoked user keys and the revoked peels, both derived
from all enrollment records. -/
namespace Zester.Masterd
open Enroll

/-- Unix seconds of a time in nanoseconds since the zero time. -/
def unix (time : Nat) : Int := (time / 1000000000 : Nat) - 62135596800

structure RevocationState where
  /-- The revoked user keys with the time of the revocation. -/
  keys : Table Nat
  /-- The peels whose current record is revoked. -/
  peels : List String

/-- What one pass over the records has gathered so far. -/
structure Pass where
  keys : Table Nat
  latest : Table Record

section
variable (texts : Texts) (validPublicKey : String → Bool) (now : Nat)

def revokedAt (rec : Record) : Nat :=
  let time := rec.decidedAt.getD rec.updatedAt
  if time = 0 then now else time

def Pass.consider (pass : Pass) (rec : Record) : Pass :=
  let latest := Latest.keep Record.updatedAt pass.latest rec.peelID rec
  if rec.state ≠ .revoked ∨ rec.publicKey = "" then ⟨pass.keys, latest⟩
  else if !validPublicKey rec.publicKey then ⟨pass.keys, latest⟩
  else ⟨Latest.keep id pass.keys rec.publicKey (revokedAt now rec), latest⟩

def Pass.state (pass : Pass) : RevocationState where
  keys := pass.keys
  peels := (pass.latest.entries.filter fun entry => entry.2.state = .revoked).map Sigma.fst

/-- A key is revoked when any record with it is; a peel when its most recently updated
record is. -/
def load : StoreM (Except String RevocationState) := do
  match ← Store.list texts none with
  | .error text => return .error ("list enrollments: " ++ text)
  | .ok recs =>
    let pass := (recs.map Entry.value).foldl (Pass.consider validPublicKey now) ⟨∅, ∅⟩
    return .ok pass.state

end

structure RevocationSyncer where
  revokedPeels : List String
  lastPushed : Option (List (String × Int))

namespace RevocationSyncer

def isRevoked (s : RevocationSyncer) (peelID : String) : Bool := s.revokedPeels.contains peelID

/-- The peels are replaced first; the keys are pushed if they changed. -/
def sync (s : RevocationSyncer) (texts : Texts) (validPublicKey : String → Bool) (now : Nat)
    (push : List (String × Int) → Except String Unit) (force : Bool) :
    StoreM (RevocationSyncer × Except String Unit) := do
  match ← load texts validPublicKey now with
  | .error text => return (s, .error text)
  | .ok st =>
    let want := st.keys.entries.map fun entry => (entry.1, unix entry.2)
    let s := { s with revokedPeels := st.peels }
    if s.lastPushed.any (want.isPerm ·) && !force then return (s, .ok ())
    else
      match push want with
      | .error text => return (s, .error ("push account JWT to nats-server: " ++ text))
      | .ok () => return ({ s with lastPushed := some want }, .ok ())

end RevocationSyncer

open Registry List

variable {texts : Texts} {validPublicKey : String → Bool} {now : Nat}

/-- What holds after every step of a history, if each step keeps it on a condition of its own. -/
theorem forall_prefix_iff {l : List α} {P Q : List α → Prop} {C : List α → α → Prop}
    (finds : ∀ done, done <+: l → (P done ↔ Q done)) (start : Q [])
    (step : ∀ done a, done ++ [a] <+: l → Q done → (Q (done ++ [a]) ↔ C done a)) :
    (∀ done, done <+: l → P done) ↔ ∀ done a, done ++ [a] <+: l → C done a := by
  have before {done a} (early : done ++ [a] <+: l) : done <+: l :=
    (prefix_append done [a]).trans early
  constructor
  · intro all done a early
    have held := (finds _ (before early)).mp (all _ (before early))
    exact (step done a early held).mp ((finds _ early).mp (all _ early))
  · intro keeps done early
    rw [finds done early]
    induction done using reverseRecOn with
    | nil => exact start
    | append_singleton done a ih =>
      exact (step done a early (ih (before early))).mpr (keeps done a early)

theorem hasPrefix_enrollID (ksuid : String) :
    hasPrefix (enrollID ksuid) peelIndexPrefix = false := by
  simp only [hasPrefix, enrollID, peelIndexPrefix, String.toList_append]
  rfl

theorem readable_alone (keys : List String) :
    ∃ recs, (Store.readable texts none keys).alone b = (b, recs) ∧ ∀ r, r ∈ recs.map Entry.value ↔
        ∃ key ∈ keys, hasPrefix key peelIndexPrefix = false ∧ (of b).records key = some r := by
  induction keys with
  | nil => exact ⟨[], rfl, by simp⟩
  | cons key keys ih =>
    obtain ⟨recs, runs, members⟩ := ih
    unfold Store.readable
    cases index : hasPrefix key peelIndexPrefix with
    | true => exact ⟨recs, runs, fun r => by simp [members, index]⟩
    | false =>
      simp only [Bool.false_eq_true, if_false]
      rw [Program.alone_bind]
      cases held : (of b).records key with
      | none =>
        obtain ⟨text, missing⟩ := @get_alone_missing texts b key held
        rw [missing]
        exact ⟨recs, runs, fun r => by simp [members, held]⟩
      | some rec =>
        obtain ⟨revision, stored⟩ := records_of.mp held
        rw [get_alone stored]
        simp only [Option.all_none, if_true]
        rw [Program.alone_bind, runs]
        refine ⟨⟨rec, revision⟩ :: recs, rfl, fun r => ?_⟩
        rw [map_cons, mem_cons, members]
        constructor
        · rintro (rfl | ⟨other, member, found⟩)
          · exact ⟨key, mem_cons_self, index, held⟩
          · exact ⟨other, mem_cons_of_mem _ member, found⟩
        · rintro ⟨other, member, plain, found⟩
          obtain rfl | member := mem_cons.mp member
          · exact .inl (Option.some.inj (found.symm.trans held))
          · exact .inr ⟨other, member, plain, found⟩

theorem list_alone (filed : Filed b) : ∃ recs, (Store.list texts none).alone b = (b, .ok recs) ∧
      ∀ r, r ∈ recs.map Entry.value ↔ ∃ id, (of b).records id = some r := by
  have listed : ∀ {id r}, (of b).records id = some r →
      id ∈ b.keys ∧ hasPrefix id peelIndexPrefix = false := by
    intro id r held
    obtain ⟨revision, stored⟩ := records_of.mp held
    obtain ⟨ksuid, rfl⟩ := filed.typed.named (Bucket.logged_of_get stored)
    exact ⟨Bucket.mem_keys.mpr (by simp [stored]), hasPrefix_enrollID ksuid⟩
  obtain ⟨recs, runs, members⟩ := @readable_alone texts b b.keys
  by_cases empty : b.keys = []
  · refine ⟨[], ?_, fun r => ?_⟩
    · exact Program.alone_keys_bind_nil empty _
    · simp only [map_nil, not_mem_nil, false_iff, not_exists]
      intro id held
      have := (listed held).1
      simp [empty] at this
  · refine ⟨recs, ?_, fun r => ?_⟩
    · refine (Program.alone_keys_bind empty _).trans ?_
      rw [Program.alone_bind, runs]
      rfl
    · rw [members]
      constructor
      · rintro ⟨key, -, -, held⟩
        exact ⟨key, held⟩
      · rintro ⟨id, held⟩
        exact ⟨id, (listed held).1, (listed held).2, held⟩

def Revokes (validPublicKey : String → Bool) (r : Record) : Prop :=
  r.state = .revoked ∧ r.publicKey ≠ "" ∧ validPublicKey r.publicKey = true

theorem consider_latest (pass : Pass) (r : Record) :
    (pass.consider validPublicKey now r).latest =
    Latest.keep Record.updatedAt pass.latest r.peelID r := by
  unfold Pass.consider
  split
  · rfl
  · split <;> rfl

theorem consider_keys (pass : Pass) (r : Record) :
    (Revokes validPublicKey r ∧ (pass.consider validPublicKey now r).keys =
      Latest.keep id pass.keys r.publicKey (revokedAt now r)) ∨
    (¬ Revokes validPublicKey r ∧ (pass.consider validPublicKey now r).keys = pass.keys) := by
  unfold Pass.consider
  split
  · rename_i skipped
    refine .inr ⟨fun revokes => ?_, rfl⟩
    exact skipped.elim (fun other => other revokes.1) fun empty => revokes.2.1 empty
  · rename_i revoked
    rw [not_or, not_not] at revoked
    split
    · rename_i invalid
      exact .inr ⟨fun revokes => by simp [revokes.2.2] at invalid, rfl⟩
    · rename_i valid
      exact .inl ⟨⟨revoked.1, revoked.2, by simpa using valid⟩, rfl⟩

theorem pass_holds (recs : List Record) :
    Latest.Holds Record.updatedAt (fun peelID r => r ∈ recs ∧ r.peelID = peelID)
      (recs.foldl (Pass.consider validPublicKey now) ⟨∅, ∅⟩).latest ∧
    Latest.Holds id (fun key time => ∃ r ∈ recs, Revokes validPublicKey r ∧ r.publicKey = key ∧
        revokedAt now r = time)
      (recs.foldl (Pass.consider validPublicKey now) ⟨∅, ∅⟩).keys := by
  induction recs using reverseRecOn with
  | nil => exact ⟨Latest.Holds.empty.congr (by simp), Latest.Holds.empty.congr (by simp)⟩
  | append_singleton recs r ih =>
    rw [foldl_append, foldl_cons, foldl_nil]
    constructor
    · rw [consider_latest]
      refine (ih.1.keep r.peelID r).congr fun peelID v => ?_
      rw [mem_append, mem_singleton]
      constructor
      · rintro (⟨rfl, rfl⟩ | ⟨member, of⟩)
        · exact ⟨.inr rfl, rfl⟩
        · exact ⟨.inl member, of⟩
      · rintro ⟨member | rfl, rfl⟩
        · exact .inr ⟨member, rfl⟩
        · exact .inl ⟨rfl, rfl⟩
    · simp only [mem_append, mem_singleton, or_and_right, exists_or, exists_eq_left]
      obtain ⟨revokes, keys⟩ | ⟨other, keys⟩ := @consider_keys validPublicKey now
        (recs.foldl (Pass.consider validPublicKey now) ⟨∅, ∅⟩) r
      · rw [keys]
        refine (ih.2.keep r.publicKey (revokedAt now r)).congr fun key time => ?_
        rw [or_comm]
        apply or_congr_right
        constructor
        · rintro ⟨key, time⟩
          exact ⟨revokes, key.symm, time.symm⟩
        · rintro ⟨-, key, time⟩
          exact ⟨key.symm, time.symm⟩
      · rw [keys]
        exact ih.2.congr fun key time => (or_iff_left fun revokes => other revokes.1).symm

/-- A record that no other record of its peel was updated after. -/
structure Newest (reg : Registry) (peelID : String) (r : Record) : Prop where
  stored : ∃ id, reg.records id = some r
  own : r.peelID = peelID
  latest : ∀ {id r'}, reg.records id = some r' → r'.peelID = peelID → r'.updatedAt ≤ r.updatedAt

def NewestRevoked (reg : Registry) (peelID : String) : Prop :=
  ∃ r, Newest reg peelID r ∧ r.state = .revoked

/-- No two records were updated at the same time. -/
def DistinctStamps (reg : Registry) : Prop :=
  ∀ {id id' r r'}, reg.records id = some r → reg.records id' = some r' →
    r.updatedAt = r'.updatedAt → id = id'

theorem load_alone (filed : Filed b) : ∃ st, (load texts validPublicKey now).alone b = (b, .ok st) ∧
    Latest.Holds id (fun key time => ∃ r, (∃ id, (of b).records id = some r) ∧
      Revokes validPublicKey r ∧ r.publicKey = key ∧ revokedAt now r = time) st.keys ∧
    (DistinctStamps (of b) → ∀ peelID, peelID ∈ st.peels ↔ NewestRevoked (of b) peelID) := by
  obtain ⟨recs, runs, members⟩ := @list_alone texts b filed
  obtain ⟨latest, keys⟩ := @pass_holds validPublicKey now (recs.map Entry.value)
  simp only [members] at keys
  have loads : (load texts validPublicKey now).alone b =
      (b, .ok ((recs.map Entry.value).foldl (Pass.consider validPublicKey now) ⟨∅, ∅⟩).state) := by
    unfold load
    rw [Program.alone_bind, runs]
    rfl
  refine ⟨_, loads, keys, fun distinct peelID => ?_⟩
  simp only [Pass.state, mem_map, mem_filter, decide_eq_true_eq, Sigma.exists, exists_and_right,
    exists_eq_right]
  constructor
  · rintro ⟨r, found, revoked⟩
    have lookup := AList.mem_lookup_iff.mpr found
    obtain ⟨member, own⟩ := latest.sound lookup
    refine ⟨r, ⟨(members r).mp member, own, fun {id r'} held own' => ?_⟩, revoked⟩
    obtain ⟨kept, found', bound⟩ := latest.latest ⟨(members r').mpr ⟨id, held⟩, own'⟩
    rwa [Option.some.inj (lookup.symm.trans found')]
  · rintro ⟨r, newest, revoked⟩
    obtain ⟨id, held⟩ := newest.stored
    obtain ⟨kept, lookup, bound⟩ := latest.latest ⟨(members r).mpr ⟨id, held⟩, newest.own⟩
    obtain ⟨member, own⟩ := latest.sound lookup
    obtain ⟨id', held'⟩ := (members kept).mp member
    obtain rfl := distinct held held' (Nat.le_antisymm bound (newest.latest held' own))
    cases held.symm.trans held'
    exact ⟨r, AList.mem_lookup_iff.mp lookup, revoked⟩

/-- After a sync, the revoked peels are those whose newest record is revoked. -/
theorem sync_isRevoked {s : RevocationSyncer}
    (filed : Filed b) (distinct : DistinctStamps (of b)) (peelID : String) :
    ((s.sync texts validPublicKey now push force).alone b).2.1.isRevoked peelID = true ↔
      NewestRevoked (of b) peelID := by
  obtain ⟨st, loads, -, peels⟩ := @load_alone texts validPublicKey now b filed
  have revokes : ((s.sync texts validPublicKey now push force).alone b).2.1.revokedPeels =
      st.peels := by
    unfold RevocationSyncer.sync
    rw [Program.alone_bind, loads]
    dsimp only
    split
    · rfl
    · split <;> rfl
  rw [RevocationSyncer.isRevoked, revokes, contains_iff_mem, peels distinct]

end Zester.Masterd
