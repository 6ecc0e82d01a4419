import Mathlib.Data.List.Defs
import Zester.Lib.Program
import Zester.Text

/-! Enrollment records, their life cycle and their store: records under their IDs and, for each
peel, an index entry with the ID of its record, all in one bucket. -/
namespace Zester.Enroll

inductive State where
  | pending
  | approved
  | rejected
  | issued
  | active
  | revoked
  deriving DecidableEq, Repr

namespace State

def text : State → String
  | .pending => "pending"
  | .approved => "approved"
  | .rejected => "rejected"
  | .issued => "issued"
  | .active => "active"
  | .revoked => "revoked"

def validTransitions : State → List State
  | .pending => [.approved, .rejected]
  | .approved => [.issued, .revoked]
  | .issued => [.active, .revoked]
  | .active => [.revoked]
  | .rejected | .revoked => []

def canTransitionTo (s target : State) : Bool := s.validTransitions.contains target

end State

/-- `Record`, with times as numbers. The revision is that of the bucket entry. -/
structure Record where
  id : String
  peelID : String
  publicKey : String
  curvePublicKey : String
  state : State
  hostname : String := ""
  metadata : List (String × String) := []
  createdAt : Nat
  updatedAt : Nat
  decidedBy : String := ""
  decidedAt : Option Nat := none
  rejectReason : String := ""
  issuedAt : Option Nat := none
  expiresAt : Option Nat := none
  remoteAddr : String := ""
  trustedCASPKI : String := ""
  trustMismatch : Bool := false
  trustChecked : Bool := false
  deriving DecidableEq, Repr

def peelIndexPrefix : String := "peel."

def indexKey (peelID : String) : String := peelIndexPrefix ++ peelID

/-- What the bucket holds: an encoded record, or the ID that an index entry names. -/
inductive Stored where
  | record (rec : Record)
  | id (id : String)
  deriving DecidableEq, Repr

abbrev StoreM := Program String Stored

/-- The error texts of the bucket and of the decoder. -/
structure Texts where
  describe : Refusal → String
  undecodable : String → String

namespace Store
variable (texts : Texts)

/-- The index entry is claimed first; a record that cannot be written gives it back. -/
def create (rec : Record) : StoreM (Except String Unit) := do
  match ← Program.create (indexKey rec.peelID) (.id rec.id) with
  | .error refused =>
    return .error ("enroll: peel " ++ rec.peelID ++ " already has an enrollment: " ++
      texts.describe refused)
  | .ok _ =>
    match ← Program.create rec.id (.record rec) with
    | .error refused =>
      let _ ← Program.delete (indexKey rec.peelID)
      return .error ("enroll: create record " ++ rec.id ++ ": " ++ texts.describe refused)
    | .ok _ => return .ok ()

def get (id : String) : StoreM (Except String (Entry Record)) := do
  match ← Program.get id with
  | .error refused => return .error ("enroll: get record " ++ id ++ ": " ++ texts.describe refused)
  | .ok entry =>
    match entry.value with
    | .id text => return .error ("enroll: decode record " ++ id ++ ": " ++ texts.undecodable text)
    | .record rec => return .ok ⟨rec, entry.revision⟩

/-- Compare-and-swap on the revision that the record was read with. -/
def update (rec : Entry Record) (now : Nat) : StoreM (Except String (Entry Record)) := do
  let updated := { rec.value with updatedAt := now }
  match ← Program.update updated.id (.record updated) rec.revision with
  | .error refused =>
    return .error ("enroll: update record " ++ updated.id ++ " (rev " ++ toString rec.revision ++
      "): " ++ texts.describe refused)
  | .ok revision => return .ok ⟨updated, revision⟩

/-- No index entry, or one whose record is gone, means no enrollment. -/
def findByPeelID (peelID : String) : StoreM (Option (Entry Record)) := do
  match ← Program.get (indexKey peelID) with
  | .error _ => return none
  | .ok entry =>
    match entry.value with
    | .record _ => return none
    | .id enrollID =>
      match ← get texts enrollID with
      | .error _ => return none
      | .ok rec => return some rec

/-- The common shape of the decisions: read the record, check it, set the new state
and what belongs to it, write it back. -/
def transition (id : String) (refuses : Record → Option String) (target : State) (cannot : String)
    (change : Record → Record) (stamp : Nat) :
    StoreM (Except String (Entry Record)) := do
  match ← get texts id with
  | .error text => return .error text
  | .ok rec =>
    match refuses rec.value with
    | some text => return .error text
    | none =>
      if rec.value.state.canTransitionTo target then
        update texts ⟨{ change rec.value with state := target }, rec.revision⟩ stamp
      else
        return .error (cannot ++ rec.value.state.text)

def approveForce (id approvedBy : String) (force : Bool) (now stamp : Nat) :
    StoreM (Except String (Entry Record)) :=
  transition texts id
    (fun rec => if rec.trustMismatch && !force then
        some ("enroll: record " ++ id ++ " is trust-mismatched (peel reported CA " ++
          rec.trustedCASPKI ++ ", not this master's root) — a possible first-contact MITM; " ++
          "approve with --force only if you have verified the node out of band")
      else none)
    .approved ("enroll: cannot approve record " ++ id ++ " in state ")
    (fun rec => { rec with decidedAt := some now, decidedBy := approvedBy }) stamp

def approve (id approvedBy : String) (now stamp : Nat) :
    StoreM (Except String (Entry Record)) :=
  approveForce texts id approvedBy false now stamp

def reject (id rejectedBy reason : String) (now stamp : Nat) :
    StoreM (Except String (Entry Record)) :=
  transition texts id (fun _ => none) .rejected
    ("enroll: cannot reject record " ++ id ++ " in state ")
    (fun rec => { rec with
      decidedAt := some now, decidedBy := rejectedBy, rejectReason := reason }) stamp

def markIssued (id : String) (expiresAt now stamp : Nat) :
    StoreM (Except String (Entry Record)) :=
  transition texts id (fun _ => none) .issued
    ("enroll: cannot mark record " ++ id ++ " as issued in state ")
    (fun rec => { rec with issuedAt := some now, expiresAt := some expiresAt }) stamp

def markActive (id : String) (stamp : Nat) : StoreM (Except String (Entry Record)) :=
  transition texts id (fun _ => none) .active
    ("enroll: cannot mark record " ++ id ++ " as active in state ") (fun rec => rec) stamp

def revoke (id revokedBy reason : String) (now stamp : Nat) :
    StoreM (Except String (Entry Record)) :=
  transition texts id (fun _ => none) .revoked
    ("enroll: cannot revoke record " ++ id ++ " in state ")
    (fun rec => { rec with
      decidedAt := some now, decidedBy := revokedBy, rejectReason := reason }) stamp

/-- The record that a supersession leaves in place of the old one. -/
def superseded (old : Record) (newID : String) (now : Nat) : Record :=
  { old with
    state := .revoked
    decidedAt := some now
    decidedBy := "system"
    rejectReason := "superseded by " ++ newID ++ " (same-key credential recovery)" }

/-- The new record is written, the index is moved to it, and the old record is
retired if that is possible. -/
def supersede (newRec : Record) (oldRec : Entry Record) (now stamp : Nat) :
    StoreM (Except String Unit) := do
  match ← Program.get (indexKey newRec.peelID) with
  | .error refused =>
    return .error ("enroll: supersede: read peel index for " ++ newRec.peelID ++ ": " ++
      texts.describe refused)
  | .ok idxEntry =>
    match ← Program.create newRec.id (.record newRec) with
    | .error refused =>
      return .error ("enroll: supersede: create record " ++ newRec.id ++ ": " ++
        texts.describe refused)
    | .ok _ =>
      match ← Program.update (indexKey newRec.peelID) (.id newRec.id) idxEntry.revision with
      | .error refused =>
        let _ ← Program.delete newRec.id
        return .error ("enroll: supersede: repoint peel index for " ++ newRec.peelID ++ ": " ++
          texts.describe refused)
      | .ok _ =>
        if oldRec.value.state.canTransitionTo .revoked then
          -- an old record that changed meanwhile is left as it is, with a warning
          let _ ← update texts ⟨superseded oldRec.value newRec.id now, oldRec.revision⟩ stamp
          return .ok ()
        else
          return .ok ()

def releaseIndex (peelID : String) : StoreM (Except String Unit) := do
  match ← Program.delete (indexKey peelID) with
  | .error refused =>
    return .error ("enroll: release peel index for " ++ peelID ++ ": " ++ texts.describe refused)
  | .ok () => return .ok ()

/-- The record goes, and with it the index entry of its peel. -/
def delete (id : String) : StoreM (Except String Unit) := do
  match ← get texts id with
  | .ok rec => if rec.value.peelID ≠ "" then let _ ← Program.delete (indexKey rec.value.peelID)
  | .error _ => pure ()
  match ← Program.delete id with
  | .error refused =>
    return .error ("enroll: delete record " ++ id ++ ": " ++ texts.describe refused)
  | .ok () => return .ok ()

/-- The readable records among the keys that are no index entries. -/
def readable (filterState : Option State) : List String → StoreM (List (Entry Record))
  | [] => return []
  | key :: keys =>
    if hasPrefix key peelIndexPrefix then readable filterState keys
    else do
      match ← get texts key with
      | .error _ => readable filterState keys
      | .ok rec =>
        if filterState.all (· = rec.value.state) then return rec :: (← readable filterState keys)
        else readable filterState keys

def list (filterState : Option State) : StoreM (Except String (List (Entry Record))) := do
  match ← Program.keys with
  | .error .noKeys => return .ok []
  | .error refused => return .error ("enroll: list keys: " ++ texts.describe refused)
  | .ok keys => return .ok (← readable texts filterState keys)

end Store
end Zester.Enroll
