import Zester.Enroll.CredsProofs
import Zester.Masterd.Revocation

/-! The revocation list covers exactly the credentials of revoked records, as long as
credentials are issued in a later second than any revocation of their key, and a record is
only revoked when no other record with its key has credentials. -/
namespace Zester.Masterd
open Enroll Registry List

/-- A user credential, with the enrollment that it was issued for. -/
structure Credential where
  key : String
  issuedAt : Nat
  enrollment : String
  deriving DecidableEq, Repr

/-- A request with the clock at the moment a credential is signed for it. -/
structure Turn where
  request : Request
  iat : Nat

def Turn.readings (turn : Turn) : List Nat :=
  match turn.request with
  | .call made _ => made.readings
  | .creds _ _ _ now stamp => [turn.iat, now, stamp]

structure Office where
  bucket : Bucket String Stored
  issued : List Credential

def Turn.credential (turn : Turn) (reg : Registry) : Outcome → Option Credential
  | .creds (.creds _ _ _) =>
    turn.request.credsID?.bind fun id =>
      (reg.records id).map fun r => ⟨r.publicKey, turn.iat, id⟩
  | _ => none

/-- One request after the other. -/
def Office.serve (texts : Texts) (office : Office) (turn : Turn) : Office :=
  let served := (turn.request.program texts).alone office.bucket
  ⟨served.1, (turn.credential (of office.bucket) served.2).toList ++ office.issued⟩

def officeAfter (texts : Texts) (turns : List Turn) : Office :=
  turns.foldl (Office.serve texts) ⟨.empty, []⟩

/-- The credential was issued at or before the listed time of its key, in whole seconds. -/
def Covered (st : RevocationState) (cred : Credential) : Prop :=
  ∃ time, st.keys.lookup cred.key = some time ∧ unix cred.issuedAt ≤ unix time

def Revoked (reg : Registry) (id : String) : Prop :=
  ∃ r, reg.records id = some r ∧ r.state = .revoked

/-- The step issues a credential in a later second than any revocation of its key, and
revokes a record only when every other record whose credentials have its key is revoked. -/
structure Clean (before after : Office) : Prop where
  issues : ∀ cred ∈ after.issued, cred ∉ before.issued → ∀ id r time,
    (of before.bucket).records id = some r → r.state = .revoked → r.publicKey = cred.key →
    r.decidedAt = some time → unix time < unix cred.issuedAt
  revokes : ∀ id r, (of after.bucket).records id = some r → r.state = .revoked →
    ¬ Revoked (of before.bucket) id → ∀ cred ∈ before.issued, cred.key = r.publicKey →
    cred.enrollment = id ∨ Revoked (of before.bucket) cred.enrollment

variable {validPublicKey : String → Bool} {past : List Nat} {reg : Registry}
  {issued : List Credential} {id : String}

/-- A record is written: it keeps the key of one that was not revoked, or is new with a valid
key, and if it is revoked it was decided now. -/
structure Renews (validPublicKey : String → Bool) (past : List Nat) (held : Option Record)
    (r : Record) : Prop where
  old : ∀ before, held = some before → r.publicKey = before.publicKey ∧ before.state ≠ .revoked
  new : held = none → validPublicKey r.publicKey = true
  dated : r.state = .revoked → ∃ time, r.decidedAt = some time ∧ 0 < time ∧
    ∀ earlier ∈ past, earlier ≤ time

/-- What a request may do to the records. At most one of them is revoked. -/
structure Proceeds (validPublicKey : String → Bool) (past : List Nat) (reg reg' : Registry) :
    Prop where
  writes : ∀ id, reg'.records id = reg.records id ∨
    ∃ r, reg'.records id = some r ∧ Renews validPublicKey past (reg.records id) r
  once :
    ∀ {id id'}, Revoked reg' id → ¬ Revoked reg id → Revoked reg' id' → ¬ Revoked reg id' → id = id'

/-- Every credential that is not revoked was issued after the second of each revocation of
its key. -/
def Spared (reg : Registry) (issued : List Credential) : Prop :=
  ∀ cred ∈ issued, ¬ Revoked reg cred.enrollment → ∀ id r time, reg.records id = some r →
    r.state = .revoked → r.publicKey = cred.key → r.decidedAt = some time →
    unix time < unix cred.issuedAt

structure Ordered (validPublicKey : String → Bool) (past : List Nat) (reg : Registry)
    (issued : List Credential) : Prop where
  keyed : ∀ {id r}, reg.records id = some r → validPublicKey r.publicKey = true
  decided : ∀ {id r}, reg.records id = some r → r.state = .revoked →
    ∃ time, r.decidedAt = some time ∧ 0 < time
  holders : ∀ {cred}, cred ∈ issued → cred.issuedAt ∈ past ∧
    ∃ r, reg.records cred.enrollment = some r ∧ r.publicKey = cred.key
  before : ∀ {cred r time}, cred ∈ issued → reg.records cred.enrollment = some r →
    r.state = .revoked → r.decidedAt = some time → cred.issuedAt ≤ time

theorem unix_mono (before : early ≤ late) : unix early ≤ unix late := by
  unfold unix
  have := Nat.div_le_div_right (c := 1000000000) before
  omega

section
variable (proceeds : Proceeds validPublicKey past reg reg')
include proceeds

theorem Proceeds.keeps (held : reg.records id = some r) :
    ∃ r', reg'.records id = some r' ∧ r'.publicKey = r.publicKey ∧
      (r.state = .revoked → r' = r) := by
  obtain same | ⟨r', held', writes⟩ := proceeds.writes id
  · exact ⟨r, same.trans held, rfl, fun _ => rfl⟩
  · obtain ⟨key, live⟩ := writes.old r held
    exact ⟨r', held', key, fun revoked => absurd revoked live⟩

theorem Proceeds.revokes (held : reg'.records id = some r)
    (revoked : r.state = .revoked) (before : ¬ Revoked reg id) :
    ∃ time, r.decidedAt = some time ∧ 0 < time ∧ ∀ earlier ∈ past, earlier ≤ time := by
  obtain same | ⟨r', held', writes⟩ := proceeds.writes id
  · exact absurd ⟨r, same ▸ held, revoked⟩ before
  · cases held.symm.trans held'
    exact writes.dated revoked

theorem Proceeds.stays (held : reg.records id = some r)
    (revoked : r.state = .revoked) : reg'.records id = some r := by
  obtain ⟨r', held', -, same⟩ := proceeds.keeps held
  rw [held', same revoked]

theorem Proceeds.revoked (revoked : Revoked reg id) : Revoked reg' id := by
  obtain ⟨r, held, state⟩ := revoked
  exact ⟨r, proceeds.stays held state, state⟩

theorem Proceeds.was (held : reg'.records id = some r)
    (before : Revoked reg id) : reg.records id = some r := by
  obtain ⟨r', held', state⟩ := before
  have same := proceeds.stays held' state
  rw [held', ← same, held]

end

/-- Either nothing is issued, or a credential for a record that is not revoked and nothing is
revoked. -/
def Issues (reg reg' : Registry) (issued issued' : List Credential) : Prop :=
  issued' = issued ∨ ∃ cred, issued' = cred :: issued ∧ ¬ Revoked reg' cred.enrollment ∧
    ∀ id, Revoked reg' id → Revoked reg id

/-- One request keeps the credentials spared exactly if it is a clean step. -/
theorem spared_iff (proceeds : Proceeds validPublicKey past (of office.bucket) (of office'.bucket))
    (ordered : Ordered validPublicKey past (of office.bucket) office.issued)
    (spared : Spared (of office.bucket) office.issued)
    (issues : Issues (of office.bucket) (of office'.bucket) office.issued office'.issued) :
    Spared (of office'.bucket) office'.issued ↔ Clean office office' := by
  have among : ∀ cred ∈ office.issued, cred ∈ office'.issued := by
    intro cred member
    obtain same | ⟨new, same, -⟩ := issues
    · rwa [same]
    · exact same ▸ mem_cons_of_mem _ member
  constructor
  · intro after
    constructor
    · intro cred member new id r time held revoked key decided
      obtain same | ⟨issuedNow, same, valid, -⟩ := issues
      · exact absurd (same ▸ member) new
      · rw [same] at member
        obtain rfl := (mem_cons.mp member).resolve_right new
        exact after cred (same ▸ mem_cons_self) valid id r time
          (proceeds.stays held revoked) revoked
          key decided
    · intro id r held revoked unrevoked cred member key
      by_contra neither
      rw [not_or] at neither
      obtain ⟨time, decided, -, last⟩ := proceeds.revokes held revoked unrevoked
      have still : ¬ Revoked (of office'.bucket) cred.enrollment := fun now =>
        neither.1 (proceeds.once now neither.2 ⟨r, held, revoked⟩ unrevoked)
      have later := after cred (among cred member) still id r time held revoked key.symm decided
      exact absurd (unix_mono (last _ (ordered.holders member).1)) (Int.not_le.mpr later)
  · intro clean cred member still id r time held revoked key decided
    by_cases old : cred ∈ office.issued
    · by_cases before : Revoked (of office.bucket) id
      · exact spared cred old (fun was => still (proceeds.revoked was)) id r time
          (proceeds.was held before) revoked key decided
      · obtain same | was := clean.revokes id r held revoked before cred old key.symm
        · exact absurd ⟨r, same ▸ held, revoked⟩ still
        · exact absurd (proceeds.revoked was) still
    · obtain same | ⟨new, same, -, none⟩ := issues
      · exact absurd (same ▸ member) old
      · exact clean.issues cred member old id r time
          (proceeds.was held (none id ⟨r, held, revoked⟩)) revoked
          key decided

theorem Ordered.proceeds (ordered : Ordered validPublicKey past reg issued)
    (proceeds : Proceeds validPublicKey past reg reg') (issues : Issues reg reg' issued issued')
    (times : ∀ cred ∈ issued', cred ∉ issued → cred.issuedAt ∈ now ∧ ∃ r,
      reg'.records cred.enrollment = some r ∧ r.publicKey = cred.key) :
    Ordered validPublicKey (past ++ now) reg' issued' := by
  constructor
  · intro id r held
    obtain same | ⟨r', held', writes⟩ := proceeds.writes id
    · exact ordered.keyed (same ▸ held)
    cases held.symm.trans held'
    cases before : reg.records id with
    | none => exact writes.new before
    | some old => exact (writes.old old before).1 ▸ ordered.keyed before
  · intro id r held revoked
    by_cases before : Revoked reg id
    · exact ordered.decided (proceeds.was held before) revoked
    · obtain ⟨time, decided, positive, -⟩ := proceeds.revokes held revoked before
      exact ⟨time, decided, positive⟩
  · intro cred member
    by_cases old : cred ∈ issued
    · obtain ⟨before, r, held, key⟩ := ordered.holders old
      obtain ⟨r', held', key', -⟩ := proceeds.keeps held
      exact ⟨mem_append_left _ before, r', held', key'.trans key⟩
    · obtain ⟨time, holder⟩ := times cred member old
      exact ⟨mem_append_right _ time, holder⟩
  · intro cred r time member held revoked decided
    by_cases old : cred ∈ issued
    · by_cases before : Revoked reg cred.enrollment
      · exact ordered.before old (proceeds.was held before) revoked decided
      · obtain ⟨time', decided', -, last⟩ := proceeds.revokes held revoked before
        cases decided.symm.trans decided'
        exact last _ (ordered.holders old).1
    · obtain same | ⟨new, same, valid, -⟩ := issues
      · exact absurd (same ▸ member) old
      · rw [same] at member
        obtain rfl := (mem_cons.mp member).resolve_right old
        exact absurd ⟨r, held, revoked⟩ valid

section
variable {texts : Texts} {now : Nat}

/-- The list covers exactly the credentials of revoked records if and only if the others
are spared. -/
theorem covered_iff (filed : Filed b) (notEmpty : validPublicKey "" = false)
    (ordered : Ordered validPublicKey past (of b) issued) :
    (∀ cred ∈ issued, ∀ st, ((load texts validPublicKey now).alone b).2 = .ok st →
      (Covered st cred ↔ Revoked (of b) cred.enrollment)) ↔ Spared (of b) issued := by
  obtain ⟨st, loads, holds, -⟩ := @load_alone texts validPublicKey now b filed
  rw [loads]
  simp only [Except.ok.injEq, forall_eq']
  -- a revoked record lists the time of its decision
  have listed : ∀ {id r}, (of b).records id = some r → r.state = .revoked →
      ∃ time, r.decidedAt = some time ∧ revokedAt now r = time := by
    intro id r held revoked
    obtain ⟨time, decided, positive⟩ := ordered.decided held revoked
    refine ⟨time, decided, ?_⟩
    simp [revokedAt, decided, positive.ne']
  have revokes : ∀ {id r}, (of b).records id = some r → r.state = .revoked →
      Revokes validPublicKey r := by
    intro id r held revoked
    have valid := ordered.keyed held
    refine ⟨revoked, fun empty => ?_, valid⟩
    rw [empty, notEmpty] at valid
    cases valid
  have covered : ∀ cred, Covered st cred ↔ ∃ id r time, (of b).records id = some r ∧
      r.state = .revoked ∧ r.publicKey = cred.key ∧ r.decidedAt = some time ∧
      unix cred.issuedAt ≤ unix time := by
    intro cred
    constructor
    · rintro ⟨time, lookup, late⟩
      obtain ⟨r, ⟨id, held⟩, ⟨revoked, -⟩, key, same⟩ := holds.sound lookup
      obtain ⟨time', decided, same'⟩ := listed held revoked
      exact ⟨id, r, time, held, revoked, key, by rw [decided, ← same, same'], late⟩
    · rintro ⟨id, r, time, held, revoked, key, decided, late⟩
      obtain ⟨time', decided', same⟩ := listed held revoked
      cases decided.symm.trans decided'
      obtain ⟨latest, lookup, bound⟩ :=
        holds.latest ⟨r, ⟨id, held⟩, revokes held revoked, key, same⟩
      exact ⟨latest, lookup, Int.le_trans late (unix_mono bound)⟩
  constructor
  · intro exact cred member still id r time held revoked key decided
    by_contra late
    exact still ((exact cred member).mp ((covered cred).mpr
      ⟨id, r, time, held, revoked, key, decided, Int.not_lt.mp late⟩))
  · intro spared cred member
    rw [covered]
    constructor
    · rintro ⟨id, r, time, held, revoked, key, decided, late⟩
      by_contra still
      exact absurd (spared cred member still id r time held revoked key decided)
        (Int.not_lt.mpr late)
    · rintro ⟨r, held, revoked⟩
      obtain ⟨time, decided, -⟩ := ordered.decided held revoked
      obtain ⟨-, r', held', key⟩ := ordered.holders member
      cases held.symm.trans held'
      exact ⟨cred.enrollment, r, time, held, revoked, key, decided,
        unix_mono (ordered.before member held revoked decided)⟩

end

theorem proceeds_of_records (same : reg'.records = reg.records) :
    Proceeds validPublicKey past reg reg' := by
  obtain ⟨records, index⟩ := reg'
  cases same
  exact ⟨fun _ => .inl rfl, fun now before => absurd now before⟩

theorem proceeds_put (writes : Renews validPublicKey past (reg.records r.id) r) :
    Proceeds validPublicKey past reg (reg.put r) := by
  have here : ∀ {id}, Revoked (reg.put r) id → ¬ Revoked reg id → id = r.id := by
    rintro id ⟨r₁, held₁, state⟩ before
    obtain ⟨rfl, -⟩ | old := put_cases held₁
    · rfl
    · exact absurd ⟨r₁, old, state⟩ before
  refine ⟨fun id => ?_, fun now before now' before' =>
    (here now before).trans (here now' before').symm⟩
  rw [records_put]
  split
  · rename_i mine
    exact .inr ⟨r, rfl, mine ▸ writes⟩
  · exact .inl rfl

theorem revoked_put (live : r.state ≠ .revoked) (revoked : Revoked (reg.put r) id) :
    Revoked reg id := by
  obtain ⟨r₁, held, state⟩ := revoked
  obtain ⟨-, rfl⟩ | old := put_cases held
  · exact absurd state live
  · exact ⟨r₁, old, state⟩

theorem proceeds_replace (free : reg.records r.id = none)
    (valid : validPublicKey r.publicKey = true)
    (live : r.state ≠ .revoked) : Proceeds validPublicKey past reg (reg.replace r) := by
  have puts : Proceeds validPublicKey past reg (reg.put r) :=
    proceeds_put ⟨by simp [free], fun _ => valid, fun revoked => absurd revoked live⟩
  exact ⟨puts.writes, puts.once⟩

theorem Proceeds.trans (first : Proceeds validPublicKey past reg reg₁)
    (quiet : ∀ id, Revoked reg₁ id → Revoked reg id)
    (second : Proceeds validPublicKey past reg₁ reg₂) : Proceeds validPublicKey past reg reg₂ := by
  refine ⟨fun id => ?_, fun now before now' before' =>
    second.once now (fun early => before (quiet _ early)) now' fun early => before' (quiet _ early)⟩
  obtain same | ⟨r₂, held₂, later⟩ := second.writes id
  · exact same ▸ first.writes id
  obtain same | ⟨r₁, held₁, earlier⟩ := first.writes id
  · exact .inr ⟨r₂, held₂, same ▸ later⟩
  · obtain ⟨key, -⟩ := later.old r₁ held₁
    refine .inr ⟨r₂, held₂, fun r held => ?_, fun free => key ▸ earlier.new free, later.dated⟩
    obtain ⟨key₁, live⟩ := earlier.old r held
    exact ⟨key.trans key₁, live⟩

theorem proceeds_create (valid : validPublicKey r.publicKey = true) (live : r.state ≠ .revoked) :
    Proceeds validPublicKey past reg (reg.create r) := by
  unfold Registry.create
  split
  · rename_i free
    exact proceeds_replace free.2 valid live
  · exact proceeds_of_records rfl

theorem proceeds_decide (own : ∀ {id r}, reg.records id = some r → r.id = id)
    (times : ∀ time ∈ call.readings, 0 < time ∧ ∀ earlier ∈ past, earlier ≤ time) :
    Proceeds validPublicKey past reg (reg.decide call) := by
  unfold Registry.decide
  cases decided : reg.decided call with
  | none => exact proceeds_of_records rfl
  | some r' =>
    obtain ⟨r, ⟨id, -, held⟩, allowed, same, -, dated⟩ := decided_spec decided
    rw [← own held, ← same.id] at held
    refine proceeds_put ⟨fun r₁ held₁ => ?_, by simp [held], fun revoked => ?_⟩
    · cases held.symm.trans held₁
      refine ⟨same.publicKey, fun revoked => ?_⟩
      rw [revoked] at allowed
      cases allowed
    · obtain ⟨time, reading, decidedAt⟩ := dated revoked
      exact ⟨time, decidedAt, times time reading⟩

theorem proceeds_supersede (held : reg.records old.id = some old)
    (valid : validPublicKey r.publicKey = true)
    (live : r.state ≠ .revoked) (time : 0 < retiredAt ∧ ∀ earlier ∈ past, earlier ≤ retiredAt) :
    Proceeds validPublicKey past reg (reg.supersede r old retiredAt stamp) := by
  unfold Registry.supersede
  split
  · exact proceeds_of_records rfl
  rename_i opened
  have free : reg.records r.id = none := not_not.mp (not_or.mp opened).2
  have moves := @proceeds_replace validPublicKey past reg r free valid live
  split
  · rename_i retires
    have held' := records_replace free held
    refine moves.trans (fun _ => revoked_put live)
      (proceeds_put ⟨fun r₁ held₁ => ?_, fun none => ?_, fun _ => ⟨retiredAt, rfl, time⟩⟩)
    · cases held'.symm.trans held₁
      refine ⟨rfl, fun revoked => ?_⟩
      rw [revoked] at retires
      cases retires
    · cases held'.symm.trans none
  · exact moves

theorem admit_valid {checks : Checks}
    (admitted : checks.admit req = .ok trust) : checks.validPublicKey req.publicKey = true := by
  unfold Checks.admit at admitted
  split at admitted
  · cases admitted
  · split at admitted
    · cases admitted
    · rename_i valid
      simpa using valid

theorem proceeds_enroll
    (own : ∀ {id r}, reg.records id = some r → r.id = id)
    (valid : ∀ key, checks.validPublicKey key = true → validPublicKey key = true)
    (times : ∀ time ∈ (Call.enroll checks req origin).readings,
      0 < time ∧ ∀ earlier ∈ past, earlier ≤ time) :
    Proceeds validPublicKey past reg (reg.enroll checks req origin) := by
  unfold enroll
  cases admitted : checks.admit req with
  | error reply => exact proceeds_of_records rfl
  | ok trust =>
    obtain ⟨trustMismatch, trustChecked⟩ := trust
    have key := valid req.publicKey (admit_valid admitted)
    have pending : (newRecord req origin trustMismatch trustChecked).state ≠ .revoked := by
      intro revoked
      cases revoked
    cases current : reg.current req.peelID with
    | none => exact proceeds_create key pending
    | some existing =>
      obtain ⟨id, index, held⟩ := Option.bind_eq_some_iff.mp current
      rw [← own held] at held
      dsimp only
      cases existing.state with
      | pending => exact proceeds_of_records rfl
      | approved | issued | active =>
        dsimp only
        split
        · exact proceeds_supersede held key pending (times _ (by simp [Call.readings]))
        · exact proceeds_of_records rfl
      | rejected | revoked =>
        have released : Proceeds validPublicKey past reg (reg.point req.peelID none) :=
          proceeds_of_records rfl
        exact released.trans (fun _ revoked => revoked) (proceeds_create key pending)

section
variable {texts : Texts} {b : Bucket String Stored} {issuer : Issuer} {authHeader : String}

/-- Credentials are refused, or the record is approved and marked as issued. -/
inductive CredsOutcome (b : Bucket String Stored) (id : String) (time stamp : Nat) :
    Bucket String Stored × CredsReply → Prop where
  | refused {status : Nat} {message : String} :
      CredsOutcome b id time stamp (b, .error status message)
  | issued {b' : Bucket String Stored} {peelID data text : String} {r : Record} {expiresAt : Nat}
      (filed : Filed b') (held : (of b).records id = some r) (approved : r.state = .approved)
      (holds : of b' = (of b).decide (.markIssued id expiresAt time stamp)) :
      CredsOutcome b id time stamp (b', .creds peelID data text)

theorem handleCreds_spec (filed : Filed b) :
    CredsOutcome b id time stamp ((handleCreds texts issuer id authHeader time stamp).alone b) := by
  unfold handleCreds
  by_cases empty : id = ""
  · rw [if_pos empty]
    exact .refused
  rw [if_neg empty]
  cases held : (of b).records id with
  | none =>
    obtain ⟨text, missing⟩ := @get_alone_missing texts b id held
    rw [Program.alone_bind, missing]
    exact .refused
  | some r =>
  obtain ⟨revision, stored⟩ := records_of.mp held
  rw [Program.alone_bind, get_alone stored]
  dsimp only
  by_cases approved : r.state = .approved
  swap
  · rw [if_pos approved]
    exact .refused
  rw [if_neg (not_not.mpr approved)]
  cases verifyCredsSignature issuer authHeader id r.publicKey with
  | error text => exact .refused
  | ok _ =>
  cases issuer.issue r.peelID r.publicKey with
  | error text => exact .refused
  | ok creds =>
  -- an approved record can be marked as issued
  have marks := @markIssued_decides texts b id creds.expiresAt time stamp filed
  have leaves : ((of b).decided (.markIssued id creds.expiresAt time stamp)).isSome = true := by
    simp [decided, Call.decision, held, Call.applies, approved, State.canTransitionTo,
      State.validTransitions]
  have succeeds := marks.succeeds.trans leaves
  obtain ⟨filed', holds⟩ := marks.makes
  rw [Program.alone_bind]
  generalize (Store.markIssued texts id creds.expiresAt time stamp).alone b =
    run at succeeds filed' holds
  obtain ⟨b', text | rec⟩ := run
  · cases succeeds
  · exact .issued filed' held approved holds

end

/-- The keys that the endpoint takes for valid are those that the list accepts. -/
def Turn.Vetted (validPublicKey : String → Bool) (turn : Turn) : Prop :=
  ∀ checks req origin direct, turn.request = .call (.enroll checks req origin) direct →
    ∀ key, checks.validPublicKey key = true → validPublicKey key = true

/-- What a request does to the office. -/
structure Handles (validPublicKey : String → Bool) (past now : List Nat) (office office' : Office) :
    Prop where
  filed : Filed office'.bucket
  proceeds : Proceeds validPublicKey past (of office.bucket) (of office'.bucket)
  issues : Issues (of office.bucket) (of office'.bucket) office.issued office'.issued
  times : ∀ cred ∈ office'.issued, cred ∉ office.issued → cred.issuedAt ∈ now ∧
    ∃ r, (of office'.bucket).records cred.enrollment = some r ∧ r.publicKey = cred.key

section
variable {texts : Texts} {office : Office}

theorem handles_of_call (filed : Filed office'.bucket)
    (proceeds : Proceeds validPublicKey past (of office.bucket) (of office'.bucket))
    (same : office'.issued = office.issued) : Handles validPublicKey past now office office' :=
  ⟨filed, proceeds, .inl same, fun _ member new => absurd (same ▸ member) new⟩

theorem call_makes (filed : Filed b) {made : Call} (direct : made.isDirect = true)
    (valid : ∀ checks req origin, made = .enroll checks req origin →
      ∀ key, checks.validPublicKey key = true → validPublicKey key = true)
    (times : ∀ time ∈ made.readings, 0 < time ∧ ∀ earlier ∈ past, earlier ≤ time) :
    ∃ reg, Makes (made.program texts) b reg ∧ Proceeds validPublicKey past (of b) reg := by
  have own : ∀ {id r}, (of b).records id = some r → r.id = id := own_id filed
  cases decides : made.decision with
  | some decision =>
    exact ⟨_, (decision_decides filed (by rw [decides]; rfl)).makes, proceeds_decide own times⟩
  | none =>
    cases made with
    | enroll checks req origin =>
      exact ⟨_, (enroll_makes filed).map _, proceeds_enroll own (valid checks req origin rfl) times⟩
    | supersede => cases direct
    | approve | approveForce | reject | markIssued | markActive | revoke => cases decides

theorem serve_spec (filed : Filed office.bucket) (vetted : turn.Vetted validPublicKey)
    (times : ∀ time ∈ turn.readings, 0 < time ∧ ∀ earlier ∈ past, earlier ≤ time) :
    Handles validPublicKey past turn.readings office (office.serve texts turn) := by
  obtain ⟨request, iat⟩ := turn
  cases request with
  | call made direct =>
    obtain ⟨reg, makes, proceeds⟩ :=
      @call_makes validPublicKey past texts office.bucket filed made direct
      (fun checks req origin same => vetted checks req origin (same ▸ direct) (by subst same; rfl))
        times
    have makes' := makes.map Outcome.call
    refine handles_of_call makes'.filed (makes'.holds ▸ proceeds) ?_
    show Option.toList _ ++ office.issued = office.issued
    rw [show (Request.program texts (.call made direct)).alone office.bucket =
      _ from Program.alone_bind _ _]
    rfl
  | creds issuer id authHeader now stamp =>
    have outcome := @handleCreds_spec id texts office.bucket issuer authHeader now stamp filed
    have runs : (Request.program texts (.creds issuer id authHeader now stamp)).alone
        office.bucket = (((handleCreds texts issuer id authHeader now stamp).alone office.bucket).1,
          .creds ((handleCreds texts issuer id authHeader now stamp).alone office.bucket).2) :=
      Program.alone_bind _ _
    unfold Office.serve
    dsimp only
    rw [runs]
    generalize (handleCreds texts issuer id authHeader now stamp).alone office.bucket =
      run at outcome
    cases outcome with
    | refused => exact handles_of_call filed (proceeds_of_records rfl) rfl
    | @issued b' peelID data text r expiresAt filed' held approved holds =>
      have own : r.id = id := own_id filed held
      obtain ⟨r', marked, state, key, id'⟩ : ∃ r', of b' = (of office.bucket).put r' ∧
          r'.state = .issued ∧ r'.publicKey = r.publicKey ∧ r'.id = id := by
        refine ⟨(Call.markIssued id expiresAt now stamp).change r, ?_, rfl, rfl, own⟩
        rw [holds]
        simp [Registry.decide, Registry.decided, Call.decision, held, Call.applies, approved,
          State.canTransitionTo, State.validTransitions]
      have live : ∀ state, r'.state = state → state ≠ .revoked := by
        rintro _ rfl revoked
        cases state.symm.trans revoked
      have mine : (of b').records id = some r' := by rw [marked, records_put, if_pos id'.symm]
      have credential : (Turn.credential ⟨.creds issuer id authHeader now stamp, iat⟩
          (of office.bucket) (.creds (.creds peelID data text))).toList ++ office.issued =
          ⟨r.publicKey, iat, id⟩ :: office.issued := by
        simp [Turn.credential, Request.credsID?, held]
      rw [credential]
      constructor
      · exact filed'
      · show Proceeds validPublicKey past (of office.bucket) (of b')
        rw [marked]
        refine proceeds_put ⟨fun r₁ held₁ => ?_,
          by simp [id', held], fun revoked => absurd revoked (live _ rfl)⟩
        cases held.symm.trans (id' ▸ held₁)
        exact ⟨key, by simp [approved]⟩
      · refine .inr ⟨_, rfl, ?_, ?_⟩
        · rintro ⟨r₁, held₁, revoked⟩
          cases mine.symm.trans held₁
          exact live _ rfl revoked
        · intro other revoked
          exact revoked_put (live _ rfl) (marked ▸ revoked)
      · intro cred member new
        obtain rfl := (mem_cons.mp member).resolve_right new
        exact ⟨mem_cons_self, r', mine, key⟩

end

section
variable {texts : Texts}

theorem officeAfter_append (turns : List Turn) (turn : Turn) :
    officeAfter texts (turns ++ [turn]) = (officeAfter texts turns).serve texts turn := by
  simp [officeAfter]

/-- The readings of a history never go back, and none is the zero time. -/
structure Ticking (turns : List Turn) : Prop where
  increasing : (turns.flatMap Turn.readings).Pairwise (· ≤ ·)
  positive : ∀ time ∈ turns.flatMap Turn.readings, 0 < time

theorem Ticking.of_prefix (ticking : Ticking turns) (early : done <+: turns) : Ticking done := by
  obtain ⟨rest, rfl⟩ := early
  obtain ⟨increasing, positive⟩ := ticking
  rw [flatMap_append] at increasing positive
  exact ⟨(pairwise_append.mp increasing).1,
    fun time member => positive time (mem_append_left _ member)⟩

theorem Ticking.last (ticking : Ticking (turns ++ [turn])) :
    ∀ time ∈ turn.readings, 0 < time ∧ ∀ earlier ∈ turns.flatMap Turn.readings, earlier ≤ time := by
  obtain ⟨increasing, positive⟩ := ticking
  rw [flatMap_append, flatMap_singleton] at increasing positive
  intro time member
  exact ⟨positive time (mem_append_right _ member),
    fun earlier before => (pairwise_append.mp increasing).2.2 earlier before time member⟩

theorem officeAfter_ordered (ticking : Ticking turns)
    (vetted : ∀ turn ∈ turns, turn.Vetted validPublicKey) :
    Filed (officeAfter texts turns).bucket ∧ Ordered validPublicKey (turns.flatMap Turn.readings)
      (of (officeAfter texts turns).bucket) (officeAfter texts turns).issued := by
  induction turns using reverseRecOn with
  | nil =>
    refine ⟨.empty, ⟨fun held => ?_, fun held => ?_, fun member => ?_, fun member => ?_⟩⟩
    · cases held
    · cases held
    · cases member
    · cases member
  | append_singleton turns turn ih =>
    obtain ⟨filed, ordered⟩ := ih (ticking.of_prefix (prefix_append _ _))
      fun turn member => vetted turn (mem_append_left _ member)
    have serves := @serve_spec validPublicKey _ texts (officeAfter texts turns) turn filed
      (vetted turn (by simp)) ticking.last
    rw [officeAfter_append, flatMap_append, flatMap_singleton]
    exact ⟨serves.filed, ordered.proceeds serves.proceeds serves.issues serves.times⟩

end

/-- After every request of a history, the list covers exactly the credentials of revoked
records, if and only if every request was a clean step. -/
theorem revocation_list_exact_iff (texts : Texts) (validPublicKey : String → Bool)
    (notEmpty : validPublicKey "" = false) (now : Nat) (turns : List Turn) (ticking : Ticking turns)
    (vetted : ∀ turn ∈ turns, turn.Vetted validPublicKey) :
    (∀ done, done <+: turns → ∀ cred ∈ (officeAfter texts done).issued, ∀ st,
      ((load texts validPublicKey now).alone (officeAfter texts done).bucket).2 = .ok st →
      (Covered st cred ↔ Revoked (of (officeAfter texts done).bucket) cred.enrollment)) ↔
    ∀ done turn, done ++ [turn] <+: turns →
      Clean (officeAfter texts done) (officeAfter texts (done ++ [turn])) := by
  have ordered : ∀ done, done <+: turns → _ := fun done early =>
    @officeAfter_ordered validPublicKey texts done (ticking.of_prefix early)
      fun turn member => vetted turn (early.subset member)
  have exact_iff : ∀ done, done <+: turns → _ := fun done early =>
    @covered_iff validPublicKey _ _ texts now _ (ordered done early).1 notEmpty
      (ordered done early).2
  have step : ∀ done turn, done ++ [turn] <+: turns →
      Spared (of (officeAfter texts done).bucket) (officeAfter texts done).issued →
      (Spared (of (officeAfter texts (done ++ [turn])).bucket)
        (officeAfter texts (done ++ [turn])).issued ↔
        Clean (officeAfter texts done) (officeAfter texts (done ++ [turn]))) := by
    intro done turn early spared
    obtain ⟨filed, order⟩ := ordered done ((prefix_append _ _).trans early)
    have serves := @serve_spec validPublicKey _ texts (officeAfter texts done) turn filed
      (vetted turn (early.subset (by simp))) (ticking.of_prefix early).last
    rw [officeAfter_append]
    exact spared_iff serves.proceeds order spared serves.issues
  exact forall_prefix_iff exact_iff (fun _ => nofun) step

def tenths (n : Nat) : Nat := n * 100000000

def vettedChecks : Checks := { sampleChecks with validPublicKey := (· != "") }

def enrollTurn (ksuid : String) (time : Nat) : Turn :=
  ⟨.call (.enroll vettedChecks (sampleRequest "A") (sampleOrigin ksuid (tenths time))) rfl, 0⟩

def approveTurn (id : String) (time : Nat) : Turn :=
  ⟨.call (.approve id "operator" (tenths time) (tenths time)) rfl, 0⟩

def credsTurn (id : String) (time : Nat) : Turn :=
  ⟨.creds sampleIssuer id "Nkey A:signature" (tenths time) (tenths time), tenths time⟩

def recovery (again approved issued : Nat) : List Turn :=
  [enrollTurn "1" 100, approveTurn "enr-1" 110, credsTurn "enr-1" 120, enrollTurn "2" again,
    approveTurn "enr-2" approved, credsTurn "enr-2" issued]

theorem recovery_vetted (again approved issued : Nat) :
    ∀ turn ∈ recovery again approved issued, turn.Vetted (· != "") := by
  intro turn member checks req origin direct made key valid
  simp only [recovery, mem_cons, not_mem_nil, or_false] at member
  obtain rfl | rfl | rfl | rfl | rfl | rfl := member <;> cases made
  all_goals exact valid

theorem clean_of_log {before after : Office}
    (issues : ∀ cred ∈ after.issued, cred ∉ before.issued → ∀ message ∈ before.bucket.log,
      ∀ r ∈ message.value.bind Stored.record?, r.state = .revoked → r.publicKey = cred.key →
      ∀ time ∈ r.decidedAt, unix time < unix cred.issuedAt)
    (revokes : ∀ message ∈ after.bucket.log, ∀ r ∈ message.value.bind Stored.record?, r.state =
      .revoked → ∀ cred ∈ before.issued, cred.key = r.publicKey → cred.enrollment = message.key) :
    Clean before after := by
  constructor
  · intro cred member new id r time held revoked key decided
    obtain ⟨revision, stored⟩ := records_of.mp held
    exact issues cred member new _ (Bucket.logged_of_get stored) r rfl revoked key time decided
  · intro id r held revoked _ cred member key
    obtain ⟨revision, stored⟩ := records_of.mp held
    exact .inl (revokes _ (Bucket.logged_of_get stored) r rfl revoked cred member key)

theorem recovery_clean (short : n < 6) :
    Clean (officeAfter sampleTexts ((recovery 201 202 210).take n))
      (officeAfter sampleTexts ((recovery 201 202 210).take (n + 1))) := by
  obtain rfl | rfl | rfl | rfl | rfl | rfl : n = 0 ∨ n = 1 ∨ n = 2 ∨ n = 3 ∨ n = 4 ∨
      n = 5 := by omega
  all_goals exact clean_of_log (by decide) (by decide)

/-- With credentials of a later second, the list covers the old ones only. -/
theorem revocation_list_exact_iff_recovered :
    Ticking (recovery 201 202 210) ∧
      ∀ cred ∈ (officeAfter sampleTexts (recovery 201 202 210)).issued, ∀ st,
      ((load sampleTexts (· != "") 0).alone
        (officeAfter sampleTexts (recovery 201 202 210)).bucket).2 = .ok st →
      (Covered st cred ↔ Revoked
        (of (officeAfter sampleTexts (recovery 201 202 210)).bucket) cred.enrollment) := by
  have ticking : Ticking (recovery 201 202 210) := ⟨by decide, by decide⟩
  refine ⟨ticking, (revocation_list_exact_iff sampleTexts (· != "") rfl 0 (recovery 201 202 210)
    ticking (recovery_vetted _ _ _)).mpr ?_ _ (prefix_refl _)⟩
  intro done turn early
  have first := prefix_iff_eq_take.mp ((prefix_append done [turn]).trans early)
  have second := prefix_iff_eq_take.mp early
  have short := early.length_le
  rw [length_append, length_singleton] at second short
  rw [second, first, length_take_of_le (by omega)]
  exact recovery_clean short

/-- New credentials in the second of the supersession are covered, though their record is
not revoked. -/
theorem recovered_credentials_covered : Ticking (recovery 201 202 203) ∧
    ∃ cred ∈ (officeAfter sampleTexts (recovery 201 202 203)).issued, ∃ st,
      ((load sampleTexts (· != "") 0).alone
        (officeAfter sampleTexts (recovery 201 202 203)).bucket).2 = .ok st ∧
      Covered st cred ∧ ¬ Revoked
        (of (officeAfter sampleTexts (recovery 201 202 203)).bucket) cred.enrollment := by
  refine ⟨⟨by decide, by decide⟩, ⟨"A", tenths 203, "enr-2"⟩,
    by decide, _, rfl, ⟨tenths 201, rfl, by decide⟩, ?_⟩
  rintro ⟨r, held, revoked⟩
  have issued : ((of (officeAfter sampleTexts (recovery 201 202 203)).bucket).records "enr-2").map
      Record.state = some .issued := by decide
  rw [held, Option.map_some, revoked] at issued
  cases issued

end Zester.Masterd
