import Zester.Lib.Relay
import Zester.Enroll.Handler

/-! The challenges of the enrollment endpoint, and the two requests that use them: one for a
new challenge, and one that spends a challenge on an enrollment. -/
namespace Zester.Enroll

/-- In nanoseconds. -/
def challengeTTL : Nat := 5 * 60 * 1000000000

structure ChallengeRecord where
  challengeID : String
  challenge : String
  peelID : String
  publicKey : String
  issuedAt : Nat
  expiresAt : Nat
  used : Bool
  deriving DecidableEq, Repr

def challengeID (ksuid : String) : String := "chl-" ++ ksuid

/-- What a new challenge leaves to the outside: the random bytes, the random part of its ID
and the clock. -/
structure Drawn where
  nonce : Except String String
  ksuid : String
  now : Nat

def Drawn.record (drawn : Drawn) (nonce peelID publicKey : String) : ChallengeRecord where
  challengeID := challengeID drawn.ksuid
  challenge := nonce
  peelID := peelID
  publicKey := publicKey
  issuedAt := drawn.now
  expiresAt := drawn.now + challengeTTL
  used := false

namespace ChallengeStore
variable (texts : Texts)

def issue (peelID publicKey : String) (drawn : Drawn) :
    Program String ChallengeRecord (Except String ChallengeRecord) :=
  match drawn.nonce with
  | .error text => return .error ("enroll: generate challenge nonce: " ++ text)
  | .ok nonce => do
    let rec_ := drawn.record nonce peelID publicKey
    match ← Program.create rec_.challengeID rec_ with
    | .error refused => return .error ("enroll: store challenge: " ++ texts.describe refused)
    | .ok _ => return .ok rec_

/-- A challenge is marked as used by compare-and-swap, and then deleted on a best effort. -/
def consume (challengeID : String) (now : Nat) :
    Program String ChallengeRecord (Except String ChallengeRecord) := do
  match ← Program.get challengeID with
  | .error refused => return .error ("enroll: challenge not found: " ++ texts.describe refused)
  | .ok entry =>
    if entry.value.used then return .error "enroll: challenge already consumed"
    else if entry.value.expiresAt < now then return .error "enroll: challenge expired"
    else
      match ← Program.update challengeID { entry.value with used := true } entry.revision with
      | .error _ => return .error "enroll: challenge already consumed"
      | .ok _ =>
        let _ ← Program.delete challengeID
        return .ok { entry.value with used := true }

end ChallengeStore

/-- The checks of a request before its challenge is touched. -/
def Checks.precheck (checks : Checks) (req : EnrollRequest) : Option Reply :=
  match checks.invalidPeelID req.peelID with
  | some text => some (.error 400 ("invalid peel_id: " ++ text))
  | none =>
    if !checks.validPublicKey req.publicKey then some (.error 400 "invalid public_key")
    else if !checks.validCurvePublicKey req.curvePublicKey then
      some (.error 400 "invalid curve_public_key")
    else if req.challengeID = "" then some (.error 400 "challenge_id is required")
    else if req.signature = "" then some (.error 400 "signature is required")
    else none

/-- The checks of a request that has consumed its challenge. -/
def Checks.holding (checks : Checks) (rec_ : ChallengeRecord) : Checks :=
  { checks with consume := fun _ => .ok ⟨rec_.peelID, rec_.publicKey, rec_.challenge⟩ }

/-- A request to some master, or the end of a challenge by the TTL of the bucket. -/
inductive Visit where
  | nonce (checks : Checks) (peelID publicKey : String) (drawn : Drawn)
  | enroll (checks : Checks) (req : EnrollRequest) (consumedAt : Nat) (origin : Origin)
  | expire (challengeID : String)

/-- What a visit comes to on the challenge bucket. -/
inductive Ticket where
  | refused (reply : Reply)
  | issued (rec_ : ChallengeRecord)
  | consumed (rec_ : ChallengeRecord)
  | expired

def Ticket.ofIssue : Except String ChallengeRecord → Ticket
  | .error _ => .refused (.error 500 "failed to issue challenge")
  | .ok rec_ => .issued rec_

def Ticket.ofConsume : Except String ChallengeRecord → Ticket
  | .error _ => .refused (.error 401 "challenge verification failed")
  | .ok rec_ => .consumed rec_

inductive Answer where
  | reply (reply : Reply)
  | nonce (challengeID challenge : String) (expiresAt : Nat)
  | none

/-- `handleNonce`, and `handleEnroll` up to the challenge. -/
def Visit.front (texts : Texts) : Visit → Program String ChallengeRecord Ticket
  | .nonce checks peelID publicKey drawn =>
    if peelID = "" ∨ publicKey = "" then
      return .refused (.error 400 "peel_id and public_key are required")
    else
      match checks.invalidPeelID peelID with
      | some text => return .refused (.error 400 ("invalid peel_id: " ++ text))
      | none =>
        if !checks.validPublicKey publicKey then return .refused (.error 400 "invalid public_key")
        else do return .ofIssue (← ChallengeStore.issue texts peelID publicKey drawn)
  | .enroll checks req consumedAt _ =>
    match checks.precheck req with
    | some reply => return .refused reply
    | none => do return .ofConsume (← ChallengeStore.consume texts req.challengeID consumedAt)
  | .expire id => do
    let _ ← Program.delete id
    return .expired

/-- The answer, and `handleEnroll` from the challenge on. -/
def Visit.back (texts : Texts) : Visit → Ticket → StoreM Answer
  | _, .refused reply => return .reply reply
  | _, .issued rec_ => return .nonce rec_.challengeID rec_.challenge rec_.expiresAt
  | .enroll checks req _ origin, .consumed rec_ => do
    return .reply (← handleEnroll texts (checks.holding rec_) req origin)
  | .nonce _ _ _ _, .consumed _ | .expire _, .consumed _ | _, .expired => return .none

/-- The challenges, the enrollments, and the requests on their way. -/
abbrev Intake := Relay Nat String ChallengeRecord String Stored Ticket Answer

/-- Any number of requests to any number of masters, before the first step. -/
def Intake.opened (texts : Texts) (visits : Nat → Visit) (enrollments : Bucket String Stored) :
    Intake :=
  ⟨.empty, enrollments, fun i => .front ((visits i).front texts), []⟩

abbrev Intake.Reaches (texts : Texts) (visits : Nat → Visit) : Intake → Intake → Prop :=
  Relay.Reaches .anything .anything fun i => (visits i).back texts

/-- The random part of the ID of the challenge that a visit may issue. -/
def Visit.ksuid? : Visit → Option String
  | .nonce _ _ _ drawn => some drawn.ksuid
  | .enroll _ _ _ _ | .expire _ => none

/-- The random parts of the IDs are all different. -/
def DistinctChallenges (visits : Nat → Visit) : Prop :=
  ∀ i j ksuid, (visits i).ksuid? = some ksuid → (visits j).ksuid? = some ksuid → i = j

end Zester.Enroll
