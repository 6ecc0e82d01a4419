import Zester.Enroll.Challenge
import Zester.Enroll.StoreProofs

/-! A challenge is spent once. On the challenge bucket this is the compare-and-swap of
`consume`; what follows on the enrollments comes from the request that won it. -/
namespace Zester.Enroll
open Bucket ChallengeStore
variable {texts : Texts} {visits : Nat → Visit}

/-- The record is the one that the visit issues under the key, used or not. -/
def IssuedBy (visits : Nat → Visit) (i : Nat) (key : String) (rec_ : ChallengeRecord) : Prop :=
  ∃ checks peelID publicKey drawn nonce, visits i = .nonce checks peelID publicKey drawn ∧
    drawn.nonce = .ok nonce ∧ key = challengeID drawn.ksuid ∧
    { rec_ with used := false } = drawn.record nonce peelID publicKey

/-- What holds of the challenge bucket. -/
structure Spendable (visits : Nat → Visit) (b : Bucket String ChallengeRecord) : Prop where
  issued : ∀ {key rec_}, b.Logged key rec_ → ∃ i, IssuedBy visits i key rec_
  /-- A challenge that was used is never unused again. -/
  spent : ∀ {key rec_ entry}, b.Logged key rec_ → rec_.used = true → b.get key = some entry →
    entry.value.used = true

/-- What a visit may write to the bucket. -/
inductive Deals (visits : Nat → Visit) (i : Nat) (b : Bucket String ChallengeRecord) :
    String → Option ChallengeRecord → Prop where
  | issues {key : String} {rec_ : ChallengeRecord} (issued : IssuedBy visits i key rec_)
      (unused : rec_.used = false) : Deals visits i b key (some rec_)
  | spends {key : String} {entry : Entry ChallengeRecord} (held : b.get key = some entry)
      (unused : entry.value.used = false) :
        Deals visits i b key (some { entry.value with used := true })
  | drops (key : String) : Deals visits i b key none

theorem Spendable.empty : Spendable visits .empty :=
  ⟨fun logged => absurd logged not_logged_empty, fun logged => absurd logged not_logged_empty⟩

theorem IssuedBy.unique (distinct : DistinctChallenges visits) (issued : IssuedBy visits i key rec_)
    (issued' : IssuedBy visits j key rec') : i = j := by
  obtain ⟨_, _, _, drawn, _, visit, -, rfl, -⟩ := issued
  obtain ⟨_, _, _, drawn', _, visit', -, same, -⟩ := issued'
  have equal : drawn.ksuid = drawn'.ksuid := by
    simpa [challengeID, ← String.toList_inj] using same
  exact distinct i j drawn.ksuid (by rw [visit, Visit.ksuid?]) (by rw [visit', Visit.ksuid?, equal])

theorem Spendable.write (spendable : Spendable visits b)
    (issued : ∀ rec_ ∈ value, ∃ i, IssuedBy visits i key rec_)
    (lasts : ∀ rec_ ∈ value, ∀ rec', b.Logged key rec' → rec'.used = true → rec_.used = true) :
    Spendable visits (b.write key value) := by
  constructor
  · intro k rec_ logged
    obtain ⟨rfl, rfl⟩ | before := logged_write.mp logged
    · exact issued rec_ rfl
    · exact spendable.issued before
  · intro k rec_ entry logged used held
    by_cases here : k = key
    · subst here
      cases value with
      | none => simp at held
      | some new =>
        rw [get_put_self] at held
        cases held
        obtain ⟨-, same⟩ | before := logged_write.mp logged
        · exact Option.some.inj same ▸ used
        · exact lasts new rfl rec_ before used
    · rw [get_write_ne here] at held
      obtain ⟨same, -⟩ | before := logged_write.mp logged
      · exact absurd same here
      · exact spendable.spent before used held

theorem Spendable.drop (spendable : Spendable visits b) (key : String) :
    Spendable visits (b.write key none) :=
  spendable.write (by simp) (by simp)

/-- Nobody else writes under the key of a challenge that was not issued yet. -/
theorem Deals.unwritten (distinct : DistinctChallenges visits) (issued : IssuedBy visits i k rec_)
    (other : j ≠ i) (deals : Deals visits j b key value) (unwritten : ∀ rec_, ¬ b.Logged k rec_) :
    ∀ rec_, ¬ (b.write key value).Logged k rec_ := by
  intro rec' logged
  obtain ⟨rfl, same⟩ | before := logged_write.mp logged
  · cases deals with
    | issues issued' _ => exact other (issued'.unique distinct issued)
    | spends held _ => exact unwritten _ (logged_of_get held)
    | drops => cases same
  · exact unwritten rec' before

/-- The message belongs to the enrollment of the request: a record in it is the new record of
the request, or the superseded one. -/
structure Enrolls (req : EnrollRequest) (origin : Origin) (superseded : Option String)
    (message : Message String Stored) : Prop where
  record : ∀ r, message.value = some (.record r) → r.publicKey = req.publicKey ∧
    ((r.id = enrollID origin.ksuid ∧ r.peelID = req.peelID) ∨ superseded = some r.id)

theorem Enrolls.index (id : Option String) : Enrolls req origin superseded ⟨key, id.map .id⟩ := by
  refine ⟨fun r stored => ?_⟩
  cases id <;> cases stored

theorem Enrolls.new :
    Enrolls req origin superseded
      ⟨key, some (.record (newRecord req origin trustMismatch trustChecked))⟩ := by
  refine ⟨?_⟩
  rintro r ⟨⟩
  exact ⟨rfl, .inl ⟨rfl, rfl⟩⟩

end Zester.Enroll
