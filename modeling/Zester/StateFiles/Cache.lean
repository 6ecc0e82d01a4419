import Zester.Disk
import Zester.StateFiles.Publisher

/-! The cache of a published file set: a sync stages what the manifest lists next to the
live directory and swaps it in. Without a revision watch, single keys are followed. -/
namespace Zester.StateFiles
open Bus

structure Cache where
  cacheDir : String
  bucket : String
  keyPrefix : String
  ignoreKeys : List String
  decode : String → Except String (List ManifestFile)
  decodeValue : Option ((key stored : String) → Except String String)
  hashFn : String → String
  /-- Something is to be done after each sync. -/
  onSynced : Bool
  describe : Refusal → String

structure CacheConfig where
  cacheDir : String
  bucket : String := ""
  keyPrefix : String := ""
  ignoreKeys : List String := []
  decodeManifest : Option (String → Except String (List ManifestFile)) := none
  decodeValue : Option ((key stored : String) → Except String String) := none
  hashValue : Option (String → String) := none
  onSynced : Bool := false

def bucketStateFiles : String := "state-files"

/-- The cache of a configuration; without a hash of its own it takes the plain one. -/
def newCache (hashFile : String → String) (wire : Wire) (cfg : CacheConfig) : Cache where
  cacheDir := cfg.cacheDir
  bucket := if cfg.bucket = "" then bucketStateFiles else cfg.bucket
  keyPrefix := cfg.keyPrefix
  ignoreKeys := cfg.ignoreKeys
  decode := cfg.decodeManifest.getD wire.decode
  decodeValue := cfg.decodeValue
  hashFn := cfg.hashValue.getD hashFile
  onSynced := cfg.onSynced
  describe := wire.describe

/-- What a cache remembers of its syncs. -/
structure Synced where
  lastSyncedRev : Nat
  hasSynced : Bool
  deriving DecidableEq, Repr

def Synced.mark (_ : Synced) (revision : Nat) : Synced := ⟨revision, true⟩

/-- Rejects keys that would escape the directory when joined. -/
def safeKey (key : String) : Bool :=
  if key = "" || hasPrefix key "/" then false
  else
    let clean := cleanPath key.toList
    !(clean = ['.'] || clean = dotDot || (dotDot ++ ['/']).isPrefixOf clean)

/-- The data goes to a temporary file next to the target, which is then replaced. -/
def writeFile (world : World) (host : Host) (baseDir key data : String) :
    Host × Except String Unit :=
  let diskPath := joinPath [baseDir, key]
  let dir := dirPath diskPath
  match host.mkdirAll world dir with
  | (host, .error fault) => (host, .error ("mkdir " ++ dir ++ ": " ++ fault.text))
  | (host, .ok ()) =>
    match host.createTemp world dir ".zester-cache-" ".tmp" with
    | (host, .error fault) => (host, .error ("create temp in " ++ dir ++ ": " ++ fault.text))
    | (host, .ok tmpPath) =>
      match host.write world tmpPath data with
      | (host, .error fault) =>
        ((host.remove world tmpPath).1, .error ("write " ++ tmpPath ++ ": " ++ fault.text))
      | (host, .ok ()) =>
        match host.chmod world tmpPath with
        | (host, .error fault) =>
          ((host.remove world tmpPath).1, .error ("chmod " ++ tmpPath ++ ": " ++ fault.text))
        | (host, .ok ()) =>
          match host.rename world tmpPath diskPath with
          | (host, .error fault) =>
            ((host.remove world tmpPath).1,
              .error ("rename " ++ tmpPath ++ " -> " ++ diskPath ++ ": " ++ fault.text))
          | (host, .ok ()) => (host, .ok ())

namespace Cache
variable (c : Cache) (world : World)

/-- The path of a key below the directory, if the key belongs to the cache. -/
def diskPathForKey (key : String) : Option String :=
  if c.ignoreKeys.contains key then none
  else if c.keyPrefix = "" then some key
  else if hasPrefix key c.keyPrefix then
    let rel := trimPrefix key c.keyPrefix
    if rel = "" then none else some rel
  else none

def filePath (key : String) : Option String :=
  if key = keyRevision ∨ key = keyManifest then none else c.diskPathForKey key

/-- A missing manifest is legitimate only in a bucket without files. -/
def loadManifest : BusM (Except String (Option (List ManifestFile))) := do
  match ← Program.get keyManifest with
  | .error .notFound => return .ok none
  | .error refused => return .error ("statefiles: get manifest: " ++ c.describe refused)
  | .ok entry =>
    match c.decode entry.value with
    | .error text => return .error ("statefiles: decode manifest: " ++ text)
    | .ok files => return .ok (some files)

def bucketFileKeys : BusM (Except String (List String)) := do
  match ← Program.keys with
  | .error .noKeys => return .ok []
  | .error refused => return .error ("statefiles: list keys: " ++ c.describe refused)
  | .ok keys => return .ok (keys.filter fun key => (c.filePath key).isSome)

def plain (key stored : String) : Except String String :=
  match c.decodeValue with
  | none => .ok stored
  | some decodeValue => decodeValue key stored

/-- Downloads exactly the listed files of the cache into the staging directory. -/
def stageManifest (stage : String) (host : Host) (count : Nat) :
    List ManifestFile → BusM (Host × Except String Nat)
  | [] => return (host, .ok count)
  | f :: files =>
    match c.filePath f.key with
    | none => stageManifest stage host count files
    | some rel =>
      if !safeKey rel then return (host, .error ("statefiles: unsafe manifest key " ++ f.key.quote))
      else do
        match ← Program.get f.key with
        | .error refused =>
          return (host, .error ("statefiles: get " ++ f.key ++ ": " ++ c.describe refused))
        | .ok entry =>
          match c.plain f.key entry.value with
          | .error text => return (host, .error ("statefiles: decode " ++ f.key ++ ": " ++ text))
          | .ok data =>
            if c.hashFn data ≠ f.sha256 then
              return (host, .error ("statefiles: hash mismatch for " ++ f.key))
            else
              match writeFile world host stage rel data with
              | (host, .error text) =>
                return (host, .error ("statefiles: stage " ++ f.key ++ ": " ++ text))
              | (host, .ok ()) => stageManifest stage host (count + 1) files

/-- Every staged file is written into the live directory. -/
def mirrorFiles (stage : String) (host : Host) : List String → Host × Except String Unit
  | [] => (host, .ok ())
  | rel :: files =>
    match host.readFile world (joinPath [stage, rel]) with
    | (host, .error fault) => (host, .error ("statefiles: in-place sync: " ++ fault.text))
    | (host, .ok data) =>
      match writeFile world host c.cacheDir rel data with
      | (host, .error text) => (host, .error ("statefiles: in-place sync: " ++ text))
      | (host, .ok ()) => mirrorFiles stage host files

/-- Live files that were not staged are removed. -/
def pruneFiles (staged : List String) (host : Host) : List String → Host × Except String Unit
  | [] => (host, .ok ())
  | rel :: files =>
    if rel ∈ staged then pruneFiles staged host files
    else
      match host.remove world (joinPath [c.cacheDir, rel]) with
      | (host, .ok ()) | (host, .error .notExist) => pruneFiles staged host files
      | (host, .error fault) =>
        (host, .error ("statefiles: prune after in-place sync: " ++ fault.text))

/-- Directories that are not empty stay. -/
def pruneDirs (host : Host) : List String → Host
  | [] => host
  | path :: dirs => pruneDirs (host.remove world path).1 dirs

def pruneUnstaged (staged : List String) (host : Host) : Host × Except String Unit :=
  match host.walk world c.cacheDir with
  | (host, .error .notExist) => (host, .ok ())
  | (host, .error fault) => (host, .error ("statefiles: prune after in-place sync: " ++ fault.text))
  | (host, .ok entries) =>
    let files := (entries.filter Prod.snd).map Prod.fst
    let dirs :=
      (entries.filter fun entry => !entry.2).map fun entry => joinPath [c.cacheDir, entry.1]
    match c.pruneFiles world staged host files with
    | (host, .error text) => (host, .error text)
    | (host, .ok ()) =>
      -- a directory sorts before what is in it
      (pruneDirs world host (dirs.insertionSort fun a b => b ≤ a), .ok ())

def syncInPlace (stage : String) (host : Host) : Host × Except String Unit :=
  match host.walk world stage with
  | (host, .error fault) => (host, .error ("statefiles: in-place sync: " ++ fault.text))
  | (host, .ok entries) =>
    let staged := (entries.filter Prod.snd).map Prod.fst
    match c.mirrorFiles world stage host staged with
    | (host, .error text) => (host, .error text)
    | (host, .ok ()) => c.pruneUnstaged world staged host

def oldDir : String := c.cacheDir ++ ".old"

/-- Whether something is in the way of the staged tree; an empty directory is removed. -/
def clearLive (host : Host) : Host × Except String Bool :=
  match host.stat world c.cacheDir with
  | (host, .error .notExist) => (host, .ok false)
  | (host, .error fault) => (host, .error ("statefiles: stat cache dir: " ++ fault.text))
  | (host, .ok ()) =>
    match host.readDir world c.cacheDir with
    | (host, .ok []) =>
      match host.remove world c.cacheDir with
      | (host, .ok ()) => (host, .ok false)
      | (host, .error _) => (host, .ok true)
    | (host, _) => (host, .ok true)

/-- The staged tree takes the place of the live one, which comes back if that fails. -/
def moveIn (stage : String) (liveExists : Bool) (host : Host) : Host × Except String Unit :=
  match host.rename world stage c.cacheDir with
  | (host, .error fault) =>
    (if liveExists then (host.rename world c.oldDir c.cacheDir).1 else host,
      .error ("statefiles: swap in staged cache: " ++ fault.text))
  | (host, .ok ()) => (if liveExists then (host.removeAll world c.oldDir).1 else host, .ok ())

def swapIn (stage : String) (host : Host) : Host × Except String Unit :=
  match host.removeAll world c.oldDir with
  | (host, .error fault) =>
    (host, .error ("statefiles: remove stale " ++ c.oldDir ++ ": " ++ fault.text))
  | (host, .ok ()) =>
    match c.clearLive world host with
    | (host, .error text) => (host, .error text)
    | (host, .ok false) => c.moveIn world stage false host
    | (host, .ok true) =>
      match host.rename world c.cacheDir c.oldDir with
      | (host, .error .crossDevice) | (host, .error .busy) => c.syncInPlace world stage host
      | (host, .error fault) =>
        (host, .error ("statefiles: move live cache aside: " ++ fault.text))
      | (host, .ok ()) => c.moveIn world stage true host

/-- The name of a staging directory without its number. -/
def stageFront : String := "." ++ basePath c.cacheDir ++ ".sync-"

/-- The staging directory is filled and swapped in. -/
def syncStaged (files : List ManifestFile) (stage : String) (host : Host) :
    BusM (Host × Except String Nat) :=
  match host.chmod world stage with
  | (host, .error fault) => return (host, .error ("statefiles: chmod staging dir: " ++ fault.text))
  | (host, .ok ()) => do
    match ← c.stageManifest world stage host 0 files with
    | (host, .error text) => return (host, .error text)
    | (host, .ok count) =>
      match c.swapIn world stage host with
      | (host, .error text) => return (host, .error text)
      | (host, .ok ()) => return (host, .ok count)

/-- The listed files are staged, swapped in and, whatever happened, the staging directory
is removed. -/
def syncFiles (files : List ManifestFile) (host : Host) :
    BusM (Host × Except String Nat) :=
  let parent := dirPath c.cacheDir
  match host.mkdirAll world parent with
  | (host, .error fault) =>
    return (host, .error ("statefiles: create cache parent " ++ parent ++ ": " ++ fault.text))
  | (host, .ok ()) =>
    match host.mkdirTemp world parent c.stageFront with
    | (host, .error fault) =>
      return (host, .error ("statefiles: create staging dir: " ++ fault.text))
    | (host, .ok stage) => do
      let (host, result) ← c.syncStaged world files stage host
      return ((host.removeAll world stage).1, result)

/-- A full sync and the number of files. A bucket without manifest and without files leaves
everything as it is. A context that is cancelled or a bucket that cannot be opened ends the
call before its first operation. -/
def sync (host : Host) (synced : Synced) :
    BusM (Host × Synced × Except String Nat) := do
  let targetRev ← getRevision
  match ← c.loadManifest with
  | .error text => return (host, synced, .error text)
  | .ok none =>
    match ← c.bucketFileKeys with
    | .error text => return (host, synced, .error text)
    | .ok [] => return (host, synced.mark targetRev, .ok 0)
    | .ok fileKeys =>
      return (host, synced, .error ("statefiles: bucket holds " ++ toString fileKeys.length ++
        " file keys but no " ++ keyManifest ++ " key (torn or tampered publish)"))
  | .ok (some files) => do
    let (host, result) ← c.syncFiles world files host
    match result with
    | .error text => return (host, synced, .error text)
    | .ok count => return (host, synced.mark targetRev, .ok count)

end Cache

inductive KVOp where
  | put
  | delete
  | purge
  deriving DecidableEq, Repr

/-- An entry that a watcher of all keys delivers. -/
structure KVUpdate where
  key : String
  op : KVOp
  value : String

namespace Cache
variable (c : Cache) (world : World)

/-- A single update: the file is written or removed. -/
def handleUpdate (entry : KVUpdate) (host : Host) : Host :=
  match c.filePath entry.key with
  | none => host
  | some rel =>
    match entry.op with
    | .delete | .purge => (host.remove world (joinPath [c.cacheDir, rel])).1
    | .put =>
      if !safeKey rel then host
      else
        match c.plain entry.key entry.value with
        | .error _ => host
        | .ok data => (writeFile world host c.cacheDir rel data).1

/-- What the watcher of all keys does with an entry: values that are decoded, or something
to be done after a sync, call for a full sync. -/
def watchAll (entry : KVUpdate) (host : Host) (synced : Synced) :
    BusM (Host × Synced) :=
  if c.decodeValue.isSome || c.onSynced then do
    let (host, synced, _) ← c.sync world host synced
    return (host, synced)
  else return (c.handleUpdate world entry host, synced)

end Cache
end Zester.StateFiles
