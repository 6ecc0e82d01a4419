import Zester.Enroll.Store

/-! The enrollment endpoint and the calls that the masters make on the store. -/
namespace Zester.Enroll

structure EnrollRequest where
  peelID : String
  publicKey : String
  curvePublicKey : String
  hostname : String
  challengeID : String
  signature : String
  metadata : List (String × String)
  trustedCASPKI : String
  trustSignature : String

structure Challenge where
  peelID : String
  publicKey : String
  challenge : String

/-- The checks that the endpoint makes before it looks at the store. What they come to
depends on the challenge bucket and on cryptography, not on the enrollments. -/
structure Checks where
  /-- The error text of `ValidatePeelID` without the package name, if there is one. -/
  invalidPeelID : String → Option String
  validPublicKey : String → Bool
  validCurvePublicKey : String → Bool
  consume : String → Except String Challenge
  verifyEnrollSignature : String → String → String → String → Bool
  verifyTrustBinding : String → String → String → String → Bool
  /-- The pin of the master's own root, empty without one. -/
  caRootPin : String
  equalFold : String → String → Bool

inductive Reply where
  | error (status : Nat) (message : String)
  | enrollment (status : Nat) (id peelID : String) (state : State) (message : String)

/-- The trust binding: `TrustMismatch` and `TrustChecked` of the new record. -/
def Checks.trust (checks : Checks) (req : EnrollRequest) (challenge : Challenge) :
    Except Reply (Bool × Bool) :=
  if req.trustedCASPKI = "" then
    if checks.caRootPin = "" then .ok (false, false)
    else .error (.error 401 "trust binding required")
  else if !checks.verifyTrustBinding req.publicKey challenge.challenge req.trustedCASPKI
      req.trustSignature then
    .error (.error 401 "trust binding verification failed")
  else if checks.caRootPin = "" then .ok (false, false)
  else .ok (!checks.equalFold checks.caRootPin req.trustedCASPKI, true)

/-- Everything that is checked before the store is read. -/
def Checks.admit (checks : Checks) (req : EnrollRequest) : Except Reply (Bool × Bool) :=
  match checks.invalidPeelID req.peelID with
  | some text => .error (.error 400 ("invalid peel_id: " ++ text))
  | none =>
    if !checks.validPublicKey req.publicKey then .error (.error 400 "invalid public_key")
    else if !checks.validCurvePublicKey req.curvePublicKey then
      .error (.error 400 "invalid curve_public_key")
    else if req.challengeID = "" then .error (.error 400 "challenge_id is required")
    else if req.signature = "" then .error (.error 400 "signature is required")
    else
      match checks.consume req.challengeID with
      | .error _ => .error (.error 401 "challenge verification failed")
      | .ok challenge =>
        if challenge.peelID != req.peelID || challenge.publicKey != req.publicKey then
          .error (.error 400 "challenge binding mismatch")
        else if !checks.verifyEnrollSignature req.publicKey challenge.challenge req.signature
            req.curvePublicKey then
          .error (.error 401 "signature verification failed")
        else checks.trust req challenge

/-- What a request leaves to the outside: the random part of a new ID, the clock (for the
new record, and twice when a superseded one is retired) and the address of the sender. -/
structure Origin where
  ksuid : String
  now : Nat
  retiredAt : Nat
  stamp : Nat
  remoteIP : String

def enrollID (ksuid : String) : String := "enr-" ++ ksuid

def newRecord (req : EnrollRequest) (origin : Origin) (trustMismatch trustChecked : Bool) :
    Record where
  id := enrollID origin.ksuid
  peelID := req.peelID
  publicKey := req.publicKey
  curvePublicKey := req.curvePublicKey
  state := .pending
  hostname := req.hostname
  metadata := req.metadata
  createdAt := origin.now
  updatedAt := origin.now
  remoteAddr := origin.remoteIP
  trustedCASPKI := req.trustedCASPKI
  trustMismatch := trustMismatch
  trustChecked := trustChecked

def submitted (rec : Record) (result : Except String Unit) : Reply :=
  match result with
  | .error _ => .error 500 "failed to create enrollment"
  | .ok () =>
    .enrollment 201 rec.id rec.peelID rec.state "Enrollment submitted. Awaiting operator approval."

def pendingElsewhere (id : String) : Reply :=
  .error 409 ("a pending enrollment for this peel id already exists under a different key (" ++
    id ++ "); an operator must reject it (zester enroll reject " ++ id ++
    ") before this host can enroll")

def activeElsewhere : Reply :=
  .error 409 ("peel already has an active enrollment under a different key; " ++
    "revoke it first (zester enroll revoke) to re-enroll a new key")

def handleEnroll (texts : Texts) (checks : Checks) (req : EnrollRequest) (origin : Origin) :
    StoreM Reply :=
  match checks.admit req with
  | .error reply => return reply
  | .ok (trustMismatch, trustChecked) => do
    let newRec := newRecord req origin trustMismatch trustChecked
    match ← Store.findByPeelID texts req.peelID with
    | none => return submitted newRec (← Store.create texts newRec)
    | some existing =>
      match existing.value.state with
      | .pending =>
        if existing.value.publicKey = req.publicKey then
          return .enrollment 200 existing.value.id existing.value.peelID existing.value.state
            "Enrollment already pending."
        else
          return pendingElsewhere existing.value.id
      | .approved | .issued | .active =>
        if existing.value.publicKey = req.publicKey then
          return submitted newRec (← Store.supersede texts newRec existing origin.retiredAt
            origin.stamp)
        else
          return activeElsewhere
      | .rejected | .revoked =>
        -- an index that cannot be released makes the create fail
        let _ ← Store.releaseIndex texts req.peelID
        return submitted newRec (← Store.create texts newRec)

/-- A call that a master makes on the store. -/
inductive Call where
  | enroll (checks : Checks) (req : EnrollRequest) (origin : Origin)
  | approve (id approvedBy : String) (now stamp : Nat)
  | approveForce (id approvedBy : String) (force : Bool) (now stamp : Nat)
  | reject (id rejectedBy reason : String) (now stamp : Nat)
  | markIssued (id : String) (expiresAt now stamp : Nat)
  | markActive (id : String) (stamp : Nat)
  | revoke (id revokedBy reason : String) (now stamp : Nat)
  /-- A supersession of the record with the given ID by a new one, whatever its other data. -/
  | supersede (id : String) (newRec : Record) (origin : Origin)

namespace Call

def succeeded : Reply → Except String Unit
  | .error _ message => .error message
  | .enrollment _ _ _ _ _ => .ok ()

def program (texts : Texts) : Call → StoreM (Except String Unit)
  | .enroll checks req origin => do return succeeded (← handleEnroll texts checks req origin)
  | .approve id approvedBy now stamp => do
    return (← Store.approve texts id approvedBy now stamp).map fun _ => ()
  | .approveForce id approvedBy force now stamp => do
    return (← Store.approveForce texts id approvedBy force now stamp).map fun _ => ()
  | .reject id rejectedBy reason now stamp => do
    return (← Store.reject texts id rejectedBy reason now stamp).map fun _ => ()
  | .markIssued id expiresAt now stamp => do
    return (← Store.markIssued texts id expiresAt now stamp).map fun _ => ()
  | .markActive id stamp => do return (← Store.markActive texts id stamp).map fun _ => ()
  | .revoke id revokedBy reason now stamp => do
    return (← Store.revoke texts id revokedBy reason now stamp).map fun _ => ()
  | .supersede id newRec origin => do
    match ← Store.get texts id with
    | .error text => return .error text
    | .ok oldRec =>
      Store.supersede texts { newRec with id := enrollID origin.ksuid } oldRec origin.retiredAt
        origin.stamp

/-- The random part of the ID of the record that a call may create. -/
def ksuid? : Call → Option String
  | .enroll _ _ origin | .supersede _ _ origin => some origin.ksuid
  | _ => none

/-- The record that a call decides about and the state that it decides for it. -/
def decision : Call → Option (String × State)
  | .approve id _ _ _ | .approveForce id _ _ _ _ => some (id, .approved)
  | .reject id _ _ _ _ => some (id, .rejected)
  | .markIssued id _ _ _ => some (id, .issued)
  | .markActive id _ => some (id, .active)
  | .revoke id _ _ _ _ => some (id, .revoked)
  | .enroll _ _ _ | .supersede _ _ _ => none

/-- The call approves whatever the trust check found. -/
def forces : Call → Bool
  | .approveForce _ _ force _ _ => force
  | _ => false

end Call

/-- Any number of calls of any number of masters on one bucket. -/
def masters (texts : Texts) (calls : Nat → Call) (start : Bucket String Stored) :
    System Nat String Stored fun _ => Except String Unit :=
  ⟨start, fun i => (calls i).program texts⟩

/-- The random parts of the IDs are all different. -/
def DistinctIDs (calls : Nat → Call) : Prop :=
  ∀ i j ksuid, (calls i).ksuid? = some ksuid → (calls j).ksuid? = some ksuid → i = j

end Zester.Enroll
