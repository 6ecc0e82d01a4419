import Zester.Enroll.Creds

/-! The enrollments as the store means them: records under their IDs and, for each peel, the
ID that its index entry names. As long as one call follows the other, the calls on the store
are functions on such registries. -/
namespace Zester.Enroll

structure Registry where
  records : String → Option Record
  index : String → Option String

namespace Call

/-- The record after a decision about it. -/
def change : Call → Record → Record
  | .approve _ approvedBy now stamp, r | .approveForce _ approvedBy _ now stamp, r =>
    { r with
      state := .approved, decidedAt := some now, decidedBy := approvedBy, updatedAt := stamp }
  | .reject _ rejectedBy reason now stamp, r =>
    { r with
      state := .rejected, decidedAt := some now, decidedBy := rejectedBy, rejectReason := reason,
      updatedAt := stamp }
  | .markIssued _ expiresAt now stamp, r =>
    { r with
      state := .issued, issuedAt := some now, expiresAt := some expiresAt, updatedAt := stamp }
  | .markActive _ stamp, r => { r with state := .active, updatedAt := stamp }
  | .revoke _ revokedBy reason now stamp, r =>
    { r with
      state := .revoked, decidedAt := some now, decidedBy := revokedBy, rejectReason := reason,
      updatedAt := stamp }
  | .enroll _ _ _, r | .supersede _ _ _, r => r

def applies (call : Call) (r : Record) : Bool :=
  match call.decision with
  | none => false
  | some (_, target) =>
    r.state.canTransitionTo target && (target ≠ .approved || call.forces || !r.trustMismatch)

end Call

namespace Registry

def empty : Registry := ⟨fun _ => none, fun _ => none⟩

variable (reg : Registry)

def put (r : Record) : Registry := { reg with records := Function.update reg.records r.id (some r) }

def remove (id : String) : Registry := { reg with records := Function.update reg.records id none }

def point (peelID : String) (id : Option String) : Registry :=
  { reg with index := Function.update reg.index peelID id }

def current (peelID : String) : Option Record := (reg.index peelID).bind reg.records

def create (r : Record) : Registry :=
  if reg.index r.peelID = none ∧ reg.records r.id = none then
    (reg.point r.peelID (some r.id)).put r
  else reg

def decided (call : Call) : Option Record :=
  call.decision.bind fun (id, _) =>
    (reg.records id).bind fun r => if call.applies r then some (call.change r) else none

def decide (call : Call) : Registry := (reg.decided call).elim reg reg.put

/-- What is left of a record that was superseded. -/
def retired (old : Record) (newID : String) (retiredAt stamp : Nat) : Record :=
  { Store.superseded old newID retiredAt with updatedAt := stamp }

/-- The new record takes the place of the old one in the index. -/
def replace (newRec : Record) : Registry := (reg.put newRec).point newRec.peelID (some newRec.id)

def supersede (newRec old : Record) (retiredAt stamp : Nat) : Registry :=
  if reg.index newRec.peelID = none ∨ reg.records newRec.id ≠ none then reg
  else if old.state.canTransitionTo .revoked then
    (reg.replace newRec).put (retired old newRec.id retiredAt stamp)
  else reg.replace newRec

def delete (id : String) : Registry :=
  match reg.records id with
  | none => reg
  | some r => (if r.peelID = "" then reg else reg.point r.peelID none).remove id

def enroll (checks : Checks) (req : EnrollRequest) (origin : Origin) : Registry :=
  match checks.admit req with
  | .error _ => reg
  | .ok (trustMismatch, trustChecked) =>
    let newRec := newRecord req origin trustMismatch trustChecked
    match reg.current req.peelID with
    | none => reg.create newRec
    | some existing =>
      match existing.state with
      | .pending => reg
      | .approved | .issued | .active =>
        if existing.publicKey = req.publicKey then
          reg.supersede newRec existing origin.retiredAt origin.stamp
        else reg
      | .rejected | .revoked => (reg.point req.peelID none).create newRec

end Registry

/-- An operation of the store. Records are created under an enrollment ID, for a peel that
has a name. -/
inductive Operation where
  | create (newRec : Record) (ksuid : String) (named : newRec.peelID ≠ "")
  | decide (call : Call) (decides : call.decision.isSome)
  | supersede (id : String) (newRec : Record) (origin : Origin) (named : newRec.peelID ≠ "")
  | releaseIndex (peelID : String)
  | delete (ksuid : String)

def Call.stamp : Call → Nat
  | .enroll _ _ origin | .supersede _ _ origin => origin.stamp
  | .approve _ _ _ stamp | .approveForce _ _ _ _ stamp | .reject _ _ _ _ stamp
  | .markIssued _ _ _ stamp | .markActive _ stamp | .revoke _ _ _ _ stamp => stamp

/-- What a call reads from the clock, in order. -/
def Call.readings : Call → List Nat
  | .enroll _ _ origin | .supersede _ _ origin => [origin.now, origin.retiredAt, origin.stamp]
  | .approve _ _ now stamp | .approveForce _ _ _ now stamp | .reject _ _ _ now stamp
  | .markIssued _ _ now stamp | .revoke _ _ _ now stamp => [now, stamp]
  | .markActive _ stamp => [stamp]

namespace Operation

/-- The record under the ID that was made for it. -/
def identified (newRec : Record) (ksuid : String) : Record := { newRec with id := enrollID ksuid }

def program (texts : Texts) : Operation → StoreM (Except String Unit)
  | .create newRec ksuid _ => Store.create texts (identified newRec ksuid)
  | .decide call _ => call.program texts
  | .supersede id newRec origin _ => (Call.supersede id newRec origin).program texts
  | .releaseIndex peelID => Store.releaseIndex texts peelID
  | .delete ksuid => Store.delete texts (enrollID ksuid)

/-- The times that an operation writes into records, in order. -/
def stamps : Operation → List Nat
  | .create newRec _ _ => [newRec.updatedAt]
  | .decide call _ => [call.stamp]
  | .supersede _ newRec origin _ => [newRec.updatedAt, origin.stamp]
  | .releaseIndex _ | .delete _ => []

def apply (reg : Registry) : Operation → Registry
  | .create newRec ksuid _ => reg.create (identified newRec ksuid)
  | .decide call _ => reg.decide call
  | .supersede id newRec origin _ =>
    match reg.records id with
    | none => reg
    | some old => reg.supersede (identified newRec origin.ksuid) old origin.retiredAt origin.stamp
  | .releaseIndex peelID => reg.point peelID none
  | .delete ksuid => reg.delete (enrollID ksuid)

end Operation
end Zester.Enroll
