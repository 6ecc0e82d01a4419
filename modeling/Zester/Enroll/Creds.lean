import Zester.Enroll.Handler

/-! The credentials endpoint, and the masters with the replies that they send. A reply is
sent some time after the last operation on the store. -/
namespace Zester.Enroll

structure IssuedCredentials where
  jwt : String
  expiresAt : Nat
  deriving DecidableEq, Repr

/-- What the endpoint needs besides the store. -/
structure Issuer where
  /-- The checks of the signature itself: its encoding, the key and the message. -/
  verify : (publicKey message signature : String) → Except String Unit
  issue : (peelID publicKey : String) → Except String IssuedCredentials
  encodeJWTForTransport : String → String
  formatTime : Nat → String

inductive CredsReply where
  | error (status : Nat) (message : String)
  | creds (peelID credsData expiresAt : String)
  deriving DecidableEq, Repr

/-- The header is `Nkey`, the public key and the signature of the enrollment ID. -/
def verifyCredsSignature (issuer : Issuer) (authHeader enrollmentID expectedPubKey : String) :
    Except String Unit :=
  if ("Nkey ".toList).isPrefixOf authHeader.toList then
    match (authHeader.toList.drop 5).span (· != ':') with
    | (_, []) => .error "enroll: invalid authorization header format"
    | (pubKey, _ :: sigB64) =>
      if String.ofList pubKey ≠ expectedPubKey then .error "enroll: public key mismatch"
      else issuer.verify (String.ofList pubKey) enrollmentID (String.ofList sigB64)
  else .error "enroll: invalid authorization header format"

/-- The record is marked as issued before the credentials are returned. -/
def handleCreds (texts : Texts) (issuer : Issuer) (id authHeader : String) (now stamp : Nat) :
    StoreM CredsReply :=
  if id = "" then return .error 400 "enrollment id required"
  else do
    match ← Store.get texts id with
    | .error _ => return .error 404 "enrollment not found"
    | .ok rec =>
      if rec.value.state ≠ .approved then return .error 403 "enrollment not in approved state"
      else
        match verifyCredsSignature issuer authHeader id rec.value.publicKey with
        | .error _ => return .error 401 "authentication failed"
        | .ok () =>
          match issuer.issue rec.value.peelID rec.value.publicKey with
          | .error _ => return .error 500 "failed to issue credentials"
          | .ok creds =>
            match ← Store.markIssued texts id creds.expiresAt now stamp with
            | .error _ => return .error 409 "credentials already issued"
            | .ok _ =>
              return .creds rec.value.peelID (issuer.encodeJWTForTransport creds.jwt)
                (issuer.formatTime creds.expiresAt)

/-- The calls that come from outside; the others are only made by the handlers. -/
def Call.isDirect : Call → Bool
  | .markIssued _ _ _ _ | .supersede _ _ _ => false
  | _ => true

inductive Request where
  | call (made : Call) (direct : made.isDirect = true)
  | creds (issuer : Issuer) (id authHeader : String) (now stamp : Nat)

inductive Outcome where
  | call (result : Except String Unit)
  | creds (reply : CredsReply)

namespace Request

def program (texts : Texts) : Request → StoreM Outcome
  | .call made _ => do return .call (← made.program texts)
  | .creds issuer id authHeader now stamp => do
    return .creds (← handleCreds texts issuer id authHeader now stamp)

def ksuid? : Request → Option String
  | .call made _ => made.ksuid?
  | .creds _ _ _ _ _ => none

/-- The enrollment whose credentials are requested. -/
def credsID? : Request → Option String
  | .call _ _ => none
  | .creds _ id _ _ _ => some id

def forces : Request → Bool
  | .call made _ => made.forces
  | .creds _ _ _ _ _ => false

end Request

/-- A reply of the credentials endpoint, with the bucket as it was when the reply was sent. -/
structure Sent where
  request : Nat
  reply : CredsReply
  bucket : Bucket String Stored

/-- The masters and the credentials replies that they have sent, newest first. -/
structure Desk where
  system : System Nat String Stored fun _ => Outcome
  sent : List Sent

namespace Desk

/-- A request makes a step on the store, or a finished one sends its reply. -/
inductive Moves (regime : Regime String Stored) : Desk → Desk → Prop where
  | work {desk : Desk} {system : System Nat String Stored fun _ => Outcome}
      (moves : desk.system.Moves regime system) : Moves regime desk ⟨system, desk.sent⟩
  | send {desk : Desk} {i : Nat} {reply : CredsReply}
      (finished : desk.system.programs i = .done (.creds reply))
      (unsent : ∀ earlier ∈ desk.sent, earlier.request ≠ i) :
      Moves regime desk ⟨desk.system, ⟨i, reply, desk.system.bucket⟩ :: desk.sent⟩

abbrev Reaches (regime : Regime String Stored) : Desk → Desk → Prop :=
  Relation.ReflTransGen (Moves regime)

end Desk

/-- Any number of requests to any number of masters, on an empty bucket. -/
def frontDesk (texts : Texts) (requests : Nat → Request) : Desk :=
  ⟨⟨.empty, fun i => (requests i).program texts⟩, []⟩

/-- The random parts of the IDs of new records are all different. -/
def DistinctRequests (requests : Nat → Request) : Prop :=
  ∀ i j ksuid, (requests i).ksuid? = some ksuid → (requests j).ksuid? = some ksuid → i = j

def handsOut (requests : Nat → Request) (id : String) (sent : Sent) : Bool :=
  match sent.reply with
  | .creds _ _ _ => (requests sent.request).credsID? == some id
  | .error _ _ => false

end Zester.Enroll
