import Zester.Bus.Revision
import Zester.Lib.Ranging
import Zester.Value

/-! The publisher of a file set: all files, then the manifest that lists them, then the
revision that the readers watch. -/
namespace Zester.StateFiles
open Bus

def keyManifest : String := "_manifest"

structure ManifestFile where
  key : String
  sha256 : String
  deriving DecidableEq, Repr

abbrev FileSet := Table String

/-- MessagePack on manifests, and the texts of refused operations. -/
structure Wire where
  encode : List ManifestFile → Except String String
  decode : String → Except String (List ManifestFile)
  describe : Refusal → String

/-- The entries sorted by key. The order in which the map is visited does not matter. -/
def buildManifestWith (files : FileSet) (hashFn : String → String) : List ManifestFile :=
  (files.entries.map fun file => ⟨file.1, hashFn file.2⟩).insertionSort fun a b => a.key ≤ b.key

structure Publisher where
  allowEmpty : Bool
  /-- The encoding of a file at put time; it may be different at every attempt. -/
  encode : Option ((nonce : Nat) → (key plaintext : String) → Except String String)
  hashFn : String → String

structure PublisherConfig where
  allowEmpty : Bool := false
  encodeValue : Option ((nonce : Nat) → (key plaintext : String) → Except String String) := none
  hashValue : Option (String → String) := none

def newPublisher (hashFile : String → String) (cfg : PublisherConfig) : Publisher :=
  ⟨cfg.allowEmpty, cfg.encodeValue, cfg.hashValue.getD hashFile⟩

structure Result where
  files : Nat
  changed : Bool
  deriving DecidableEq, Repr

/-- What one attempt publishes, with the order of the map and the randomness of the encoding. -/
structure Attempt where
  it : Ranging
  files : FileSet
  force : Bool
  nonce : Nat

namespace Publisher
variable (p : Publisher) (wire : Wire)

def bucketFileKeys : BusM (Except String (List String)) := do
  match ← Program.keys with
  | .error .noKeys => return .ok []
  | .error refused => return .error ("statefiles: list keys: " ++ wire.describe refused)
  | .ok keys => return .ok (keys.filter fun key => key ≠ keyRevision ∧ key ≠ keyManifest)

/-- The matched publish completed: the bump landed after the manifest and every listed key
still exists. -/
def gateIntegrityOK (manifestEntry : Entry String) (manifest : List ManifestFile) :
    BusM Bool := do
  match ← Program.get keyRevision with
  | .error _ => return false
  | .ok revEntry =>
    if revEntry.revision ≤ manifestEntry.revision then return false
    else
      match ← Program.keys with
      | .error _ => return false
      | .ok present => return manifest.all fun f => present.contains f.key

def hashGate (encoded : String) (manifest : List ManifestFile) : BusM Bool := do
  match ← Program.get keyManifest with
  | .error _ => return false
  | .ok cur => if cur.value = encoded then gateIntegrityOK cur manifest else return false

def stored (nonce : Nat) (key data : String) : Except String String :=
  match p.encode with
  | none => .ok data
  | some encode => encode nonce key data

/-- The loop that puts the files, with the number of files put so far. -/
def putFiles (nonce : Nat) (count : Nat) :
    List (Σ _ : String, String) → BusM (Except String Nat)
  | [] => return .ok count
  | ⟨key, data⟩ :: files =>
    match p.stored nonce key data with
    | .error text => return .error ("statefiles: encode " ++ key ++ ": " ++ text)
    | .ok value => do
      match ← Program.put key value with
      | .error refused =>
        return .error ("statefiles: publish " ++ key ++ ": " ++ wire.describe refused)
      | .ok _ => putFiles nonce (count + 1) files

/-- Deletes that fail are only logged. -/
def deleteKeys (files : FileSet) : List String → BusM Unit
  | [] => return ()
  | key :: keys =>
    if key ∈ files then deleteKeys files keys
    else do
      let _ ← Program.delete key
      deleteKeys files keys

def deleteStaleKeys (files : FileSet) : BusM Unit := do
  match ← bucketFileKeys wire with
  | .error _ => return ()
  | .ok keys => deleteKeys files keys

/-- Everything that an attempt writes once the gate let it pass. -/
def publishBatch (attempt : Attempt) (encoded : String) :
    BusM (Except String Result) := do
  match ← p.putFiles wire attempt.nonce 0 (attempt.it.order [0] attempt.files.entries) with
  | .error text => return .error text
  | .ok count =>
    match ← Program.put keyManifest encoded with
    | .error refused => return .error ("statefiles: publish manifest: " ++ wire.describe refused)
    | .ok _ =>
      match ← bumpRevision wire.describe with
      | .error text => return .error ("statefiles: bump revision: " ++ text)
      | .ok () =>
        deleteStaleKeys wire attempt.files
        return .ok ⟨count, true⟩

/-- An empty file set over existing files is refused. -/
def checkEmpty (files : FileSet) : BusM (Except String Unit) :=
  if files.entries = [] ∧ !p.allowEmpty then do
    match ← bucketFileKeys wire with
    | .error text => return .error text
    | .ok [] => return .ok ()
    | .ok existing =>
      return .error ("statefiles: refusing to publish empty file set over " ++
        toString existing.length ++
        " existing files (states dir empty or not yet cloned; set AllowEmpty to force)")
  else return .ok ()

def publishFiles (attempt : Attempt) : BusM (Except String Result) := do
  match ← p.checkEmpty wire attempt.files with
  | .error text => return .error text
  | .ok () =>
    let manifest := buildManifestWith attempt.files p.hashFn
    match wire.encode manifest with
    | .error text => return .error ("statefiles: encode manifest: " ++ text)
    | .ok encoded =>
      let unchanged ← if attempt.force then pure false else hashGate encoded manifest
      if unchanged then return .ok ⟨attempt.files.entries.length, false⟩
      else p.publishBatch wire attempt encoded

end Publisher
end Zester.StateFiles
