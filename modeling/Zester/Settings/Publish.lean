import Zester.Bus.Revision
import Zester.Settings.Secrets

/-! Publishing of settings files: the sanitized files, the manifest that lists
them, the pruning of files that are gone and the bump of the revision counter. -/
namespace Zester.Settings
open Bus

def manifestKey : String := "_manifest"

def masterCurvePubKey : String := "_master_curve_pub"

/-- The file of a settings tree that names the files of each peel. -/
def topKey : String := "top.zy"

structure ManifestEntry where
  key : String
  sha256 : String
  deriving DecidableEq, Repr

/-- What the code takes from other libraries: the hash in hexadecimal, MessagePack
for the manifest, and the texts of the errors of the bucket. -/
structure Codec where
  sha256 : String → String
  encode : List ManifestEntry → Except String String
  decode : String → Except String (List ManifestEntry)
  describe : Refusal → String

/-- The settings tree as it was read from disk: its files have names in `.zy`. -/
structure SettingsFiles where
  files : Table String
  suffix : ∀ key ∈ files, ".zy".toList <:+ key.toList

abbrev FileSecrets := Table (Table String)

section
variable (codec : Codec) (yaml : Yaml)

def sanitizeFiles : List (Σ _ : String, String) → Except String (List (String × SanitizedFile))
  | [] => .ok []
  | ⟨key, data⟩ :: files =>
    match sanitizeFile yaml data with
    | .error text => .error ("settings: sanitize " ++ key ++ ": " ++ text)
    | .ok sanitized =>
      match sanitizeFiles files with
      | .error text => .error text
      | .ok rest => .ok ((key, sanitized) :: rest)

def manifestOf (sanitized : List (String × SanitizedFile)) : List ManifestEntry :=
  (sanitized.map fun file => ⟨file.1, codec.sha256 file.2.content⟩).insertionSort
    fun a b => a.key ≤ b.key

def secretsOf (sanitized : List (String × SanitizedFile)) : FileSecrets :=
  sanitized.foldl (fun secrets file =>
    if file.2.secrets.keys = [] then secrets else secrets.insert file.1 file.2.secrets) ∅

/-- The bump landed after the manifest and every listed key still exists. -/
def gateIntegrityOK (manifestEntry : Entry String) (manifest : List ManifestEntry) :
    BusM Bool := do
  match ← Program.get keyRevision with
  | .error _ => return false
  | .ok revEntry =>
    if revEntry.revision ≤ manifestEntry.revision then
      return false
    else
      match ← Program.keys with
      | .error _ => return false
      | .ok present => return manifest.all fun e => present.contains e.key

/-- The hash gate: the stored manifest is the one to be published. -/
def hashGate (encoded : String) (manifest : List ManifestEntry) : BusM Bool := do
  match ← Program.get manifestKey with
  | .error _ => return false
  | .ok cur =>
    if cur.value = encoded then gateIntegrityOK cur manifest else return false

def putFiles : List (String × SanitizedFile) → BusM (Except String Unit)
  | [] => return .ok ()
  | (key, file) :: files => do
    match ← Program.put key file.content with
    | .error refused =>
      return .error ("settings: publish file " ++ key ++ " to KV: " ++ codec.describe refused)
    | .ok _ => putFiles files

def isProtectedFileKey (key : String) : Bool :=
  key == keyRevision || key == manifestKey || key == masterCurvePubKey

def staleKeys (manifest : List ManifestEntry) (listed : List String) : List String :=
  (listed.filter fun key =>
    !isProtectedFileKey key && !(manifest.map ManifestEntry.key).contains key).insertionSort (· ≤ ·)

/-- Deletes that fail are only logged. -/
def deleteKeys : List String → BusM Unit
  | [] => return ()
  | key :: keys => do
    let _ ← Program.delete key
    deleteKeys keys

def pruneStaleFiles (manifest : List ManifestEntry) : BusM Unit := do
  match ← Program.keys with
  | .error _ => return ()
  | .ok listed => deleteKeys (staleKeys manifest listed)

/-- Everything that a publish writes once the gate let it pass. -/
def publishBatch (it : Ranging) (sanitized : List (String × SanitizedFile))
    (manifest : List ManifestEntry) (encoded : String) :
    BusM (Except String (FileSecrets × Bool)) := do
  match ← putFiles codec (it.order [1] sanitized) with
  | .error text => return .error text
  | .ok () =>
    match ← Program.put manifestKey encoded with
    | .error refused => return .error ("settings: publish manifest: " ++ codec.describe refused)
    | .ok _ =>
      pruneStaleFiles manifest
      match ← bumpRevision codec.describe with
      | .error text => return .error ("settings: bump revision: " ++ text)
      | .ok () => return .ok (secretsOf sanitized, true)

/-- The secrets of the files and whether anything was written. -/
def publishRawFiles (it : Ranging) (tree : SettingsFiles) (force : Bool) :
    BusM (Except String (FileSecrets × Bool)) :=
  match sanitizeFiles yaml (it.order [0] tree.files.entries) with
  | .error text => return .error text
  | .ok sanitized =>
    let manifest := manifestOf codec sanitized
    match codec.encode manifest with
    | .error text => return .error ("settings: encode manifest: " ++ text)
    | .ok encoded => do
      let unchanged ← if force then pure false else hashGate encoded manifest
      if unchanged then
        return .ok (secretsOf sanitized, false)
      else
        publishBatch codec it sanitized manifest encoded

end
end Zester.Settings
