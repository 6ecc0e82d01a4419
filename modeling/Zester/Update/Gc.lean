import Zester.Lib.Program
import Zester.Update.Rollout

/-! The garbage collection of published binaries: one pass over the manifests, the rollouts and
the objects. -/
namespace Zester.Update

/-- An entry of a bucket, as a pass meets it. -/
structure Stored (α : Type) where
  key : String
  /-- Nothing where the bytes cannot be decoded. -/
  value : Option α
  /-- Why it cannot be read. -/
  failure : Option String

namespace Stored

/-- A read with its decoding. -/
def read (entry : Stored α) : Except String α :=
  match entry.failure, entry.value with
  | some text, _ => .error text
  | none, none => .error "decode"
  | none, some a => .ok a

end Stored

structure Shelf (α : Type) where
  /-- Why the keys cannot be listed. -/
  failure : Option String
  entries : List (Stored α)

/-- `Keys`, which fails for an empty bucket too. -/
def Shelf.keys {α : Type} (shelf : Shelf α) : Except Refusal (List (Stored α)) :=
  match shelf.failure with
  | some text => .error (.failed text)
  | none => if shelf.entries.isEmpty then .error .noKeys else .ok shelf.entries

def refusalText : Refusal → String
  | .notFound => "nats: key not found"
  | .keyExists => "nats: key exists"
  | .wrongRevision => "nats: wrong last sequence"
  | .noKeys => "nats: no keys found"
  | .failed text => text

/-- `ManifestStore.List`: an entry that cannot be read fails the listing. -/
def manifestStoreList (shelf : Shelf BinaryManifest) : Except String (List BinaryManifest) :=
  match shelf.keys with
  | .error .noKeys => .ok []
  | .error refusal => .error ("update: list manifest keys: " ++ refusalText refusal)
  | .ok entries => (entries.filter fun entry => !hasPrefix entry.key "_").mapM fun entry =>
      match entry.read with
      | .ok m => .ok m
      | .error text =>
        .error ("update: read manifest " ++ entry.key.quote ++
          " (listing must be complete): " ++ text)

/-- `RolloutStore.List`: an entry that cannot be read is passed over. -/
def rolloutStoreList (shelf : Shelf Rollout) : Except String (List Rollout) :=
  match shelf.keys with
  | .error .noKeys => .ok []
  | .error refusal => .error ("update: rollout list keys: " ++ refusalText refusal)
  | .ok entries => .ok (entries.filterMap fun entry => entry.read.toOption)

structure ObjectInfo where
  name : String
  modTime : Int
  deriving DecidableEq

structure GCResult where
  deleted : List String := []
  orphans : List String := []
  skipped : List String := []

/-- A call of `BinaryStore.Delete`: for the binary of a manifest, or for an object without one. -/
inductive Deletion where
  | binary (m : BinaryManifest)
  | orphan (info : ObjectInfo)
  deriving DecidableEq

/-- The stores of a `BinaryGC`, with what they answer. -/
structure BinaryGC where
  manifests : Shelf BinaryManifest
  rollouts : Shelf Rollout
  binaries : Except String (List (Option ObjectInfo))
  /-- Why an object cannot be deleted. -/
  deleteBinary : String → Option String
  /-- Why a manifest cannot be deleted. -/
  deleteManifest : String → Option String

namespace BinaryGC
variable (g : BinaryGC)

def versionKey (component version : String) : String := component ++ "/" ++ version

def activeRolloutVersions : Except String (List String) := do
  let states ← rolloutStoreList g.rollouts
  return (states.filter (·.live)).map fun s => versionKey s.config.component s.config.version

/-- An object that is not there counts as deleted. -/
def objectGone (text : String) : Bool :=
  contains text.toList "not found" || contains text.toList "no message"

/-- One manifest of the first loop. -/
def reap (active : List String) (now : Int) (m : BinaryManifest) (res : GCResult) :
    List Deletion × GCResult :=
  if !m.expired now then ([], res)
  else if versionKey m.component m.version ∈ active then
    ([], { res with skipped := res.skipped ++ [m.objectKey] })
  else
    let res' :=
      if (g.deleteBinary m.objectKey).any fun text => !objectGone text then res
      else if (g.deleteManifest m.manifestKey).isSome then res
      else { res with deleted := res.deleted ++ [m.objectKey] }
    ([.binary m], res')

def reapAll (active : List String) (now : Int) :
    List BinaryManifest → GCResult → List Deletion × GCResult
  | [], res => ([], res)
  | m :: rest, res =>
    let (calls, res') := g.reap active now m res
    let (further, res'') := reapAll active now rest res'
    (calls ++ further, res'')

def orphanMinAge : Int := 3600 * secondNanos

/-- One object of the second loop. -/
def sweep (named : List String) (now : Int) (info : Option ObjectInfo) (res : GCResult) :
    List Deletion × GCResult :=
  match info with
  | none => ([], res)
  | some info =>
    if info.name ∈ named then ([], res)
    else if now - info.modTime < orphanMinAge then ([], res)
    else
      ([.orphan info],
        if (g.deleteBinary info.name).isSome then
          res else { res with orphans := res.orphans ++ [info.name] })

def sweepAll (named : List String) (now : Int) :
    List (Option ObjectInfo) → GCResult → List Deletion × GCResult
  | [], res => ([], res)
  | info :: rest, res =>
    let (calls, res') := g.sweep named now info res
    let (further, res'') := sweepAll named now rest res'
    (calls ++ further, res'')

/-- One pass, with the calls that delete an object in their order. -/
def run (now : Int) : List Deletion × Except String GCResult :=
  match manifestStoreList g.manifests with
  | .error text => ([], .error text)
  | .ok manifests =>
    match g.activeRolloutVersions with
    | .error text => ([], .error text)
    | .ok active =>
      let (calls, res) := g.reapAll active now manifests {}
      match g.binaries with
      | .error _ => (calls, .ok res)
      | .ok infos =>
        let (further, res') := g.sweepAll (manifests.map (·.objectKey)) now infos res
        (calls ++ further, .ok res')

end BinaryGC
end Zester.Update
