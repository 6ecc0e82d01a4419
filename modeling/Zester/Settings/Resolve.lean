import Zester.Settings.Publish

/-! The resolver of a peel: it loads `top.zy` and the files assigned to the peel,
checks each of them against the manifest, renders and merges them. -/
namespace Zester.Settings
open Bus

structure TargetEntry where
  pattern : String
  settingsRefs : List String

structure Environment where
  name : String
  entries : List TargetEntry

def refsOf : Node → List String
  | .sequence _ items => items.map Node.value
  | _ => []

def entriesOf : Node → List TargetEntry
  | .mapping _ pairs => pairs.map fun pair => ⟨pair.1.value, refsOf pair.2⟩
  | _ => []

/-- The environments of a parsed `top.zy`, in the order of the document. -/
def environmentsOf : Node → List Environment
  | .document (.mapping _ pairs :: _) => pairs.map fun pair => ⟨pair.1.value, entriesOf pair.2⟩
  | _ => []

/-- The references of all matching targets, each at its first place. -/
def resolveForPeel (isMatch : String → Bool) (environments : List Environment) : List String :=
  (environments.flatMap fun env => env.entries.flatMap fun entry =>
    if isMatch entry.pattern then entry.settingsRefs else []).foldl
    (fun refs ref => if refs.contains ref then refs else refs ++ [ref]) []

mutual

/-- Overlay entries win; maps on both sides are merged. -/
def mergeSettings (base : Entries) : Entries → Entries
  | [] => base
  | (k, v) :: overlay => mergeSettings (setEntry base k (mergeValue (base.lookup k) v)) overlay

def mergeValue (existing : Option Value) : Value → Value
  | .map overlay =>
    match existing with
    | some (.map base) => .map (mergeSettings base overlay)
    | _ => .map overlay
  | v => v

end

/-- `strings.Cut`: what stands before and after the first occurrence. -/
def cut (mark : List Char) : List Char → Option (List Char × List Char)
  | [] => if mark = [] then some ([], []) else none
  | c :: text =>
    if mark.isPrefixOf (c :: text) then some ([], (c :: text).drop mark.length)
    else (cut mark text).map fun parts => (c :: parts.1, parts.2)

def unknownIfEmpty (key : List Char) : String :=
  if key = [] then "(unknown)" else String.ofList key

/-- The keys of all placeholders in a text. Every round consumes a mark, so a text of
`n` characters needs at most `n` rounds. -/
def extractPlaceholderKeys : Nat → List Char → List String
  | 0, _ => []
  | rounds + 1, s =>
    match cut secretPlaceholderPrefix.toList s with
    | none => []
    | some (_, rest) =>
      match cut secretPlaceholderSuffix.toList rest with
      | none => [unknownIfEmpty rest]
      | some (key, after) => unknownIfEmpty key :: extractPlaceholderKeys rounds after

mutual

def scanUnresolvedSecrets : Value → List String
  | .str s => extractPlaceholderKeys s.length s.toList
  | .list items => scanItems items
  | .map entries => scanEntries entries
  | .keyed _ entries => scanKeyed entries
  | _ => []

def scanItems : List Value → List String
  | [] => []
  | item :: items => scanUnresolvedSecrets item ++ scanItems items

def scanEntries : Entries → List String
  | [] => []
  | (_, value) :: entries => scanUnresolvedSecrets value ++ scanEntries entries

def scanKeyed : List (Value × Value) → List String
  | [] => []
  | (_, value) :: entries => scanUnresolvedSecrets value ++ scanKeyed entries

end

/-- Sorted and without duplicates. -/
def findUnresolvedSecretKeys (v : Value) : List String :=
  (scanUnresolvedSecrets v).dedup.insertionSort (· ≤ ·)

/-- A resolver and what it takes from other libraries: the template engine, the YAML
decoder with its error texts, and the matcher of the targets. -/
structure Resolver where
  peelID : String
  yaml : Yaml
  yamlError : String → String
  isMatch : String → Entries → Bool
  renderString : String → String → Entries → Entries → Except String String

/-- The settings that a resolve returns, with the files that were parsed and rendered
for them. -/
structure Resolved where
  settings : Entries
  used : List (String × String)

/-- The result that the resolver keeps and the revision that it belongs to. -/
structure Cache where
  revision : Nat
  result : Option Resolved

def Cache.empty : Cache := ⟨0, none⟩

/-- `manifest[key]`, where there may be no manifest at all. -/
abbrev Manifest := Option (Table String)

def Manifest.lookup (manifest : Manifest) (key : String) : Option String :=
  manifest.bind fun listed => AList.lookup key listed

namespace Resolver
variable (r : Resolver) (codec : Codec)

def loadManifest : BusM (Except String Manifest) := do
  match ← Program.get manifestKey with
  | .error .notFound => return .ok none
  | .error refused =>
    return .error ("get " ++ manifestKey ++ ": bus: kv get " ++ manifestKey.quote ++ ": " ++
      codec.describe refused)
  | .ok entry =>
    match codec.decode entry.value with
    | .error text => return .error ("get " ++ manifestKey ++ ": " ++ text)
    | .ok entries =>
      return .ok (some (entries.foldl (fun listed e => listed.insert e.key e.sha256) ∅))

def verifyAgainstManifest (manifest : Manifest) (key data : String) : Except String Unit :=
  match manifest.lookup key with
  | none =>
    .error ("file " ++ key.quote ++
      " present in KV but not listed in manifest (stale or torn publish)")
  | some wantHash =>
    if codec.sha256 data = wantHash then .ok ()
    else .error ("file " ++ key.quote ++ " content hash " ++ codec.sha256 data ++
      " does not match manifest " ++ wantHash ++ " (torn publish)")

def missingText (key : String) : String :=
  "file " ++ key.quote ++ " listed in manifest but missing from KV (torn publish)"

def loadTopFile (manifest : Manifest) : BusM (Except String (Option String)) := do
  match ← Program.get topKey with
  | .error .notFound =>
    if (manifest.lookup topKey).isSome then return .error (missingText topKey) else return .ok none
  | .error refused => return .error ("get top.zy: " ++ codec.describe refused)
  | .ok entry =>
    if manifest.isNone then
      return .error ("file " ++ topKey.quote ++ " present in KV but " ++ manifestKey ++
        " key missing (torn or tampered bucket)")
    else
      match verifyAgainstManifest codec manifest topKey entry.value with
      | .error text => return .error text
      | .ok () => return .ok (some entry.value)

def resolveRefToKVKey (ref : String) : String :=
  String.intercalate "/" (splitDots ref) ++ ".zy"

/-- A file that is neither stored nor listed is skipped. -/
def loadMatchingFiles (manifest : Manifest) (files : Table String) :
    List String → BusM (Except String (Table String))
  | [] => return .ok files
  | ref :: refs => do
    let key := resolveRefToKVKey ref
    match ← Program.get key with
    | .error .notFound =>
      if (manifest.lookup key).isSome then return .error (missingText key)
      else loadMatchingFiles manifest files refs
    | .error refused =>
      return .error ("get settings file " ++ key.quote ++ ": " ++ codec.describe refused)
    | .ok entry =>
      match verifyAgainstManifest codec manifest key entry.value with
      | .error text => return .error text
      | .ok () => loadMatchingFiles manifest (files.insert key entry.value) refs

def parseTopFile (data : String) : Except String (List Environment) :=
  match r.yaml.unmarshal data with
  | none => .error ("settings: parse top.zy: " ++ r.yamlError data)
  | some doc => .ok (environmentsOf doc)

def unmarshalMap (data : String) : Except String Entries :=
  match r.yaml.read data with
  | some entries => .ok entries
  | none => .error (r.yamlError data)

/-- The loop that renders and merges the files. -/
def renderFiles (it : Ranging) (facts : Entries) (rawFiles secrets : Table String)
    (sofar : Resolved) : List String → Except String Resolved
  | [] => .ok sofar
  | ref :: refs =>
    let filePath := resolveRefToKVKey ref
    match rawFiles.lookup filePath with
    | none => renderFiles it facts rawFiles secrets sofar refs
    | some data =>
      match r.renderString filePath data facts sofar.settings with
      | .error text =>
        .error ("settings: render " ++ ref.quote ++ " for peel " ++ r.peelID ++ ": " ++ text)
      | .ok rendered =>
        match r.unmarshalMap rendered with
        | .error text => .error ("settings: parse rendered " ++ ref.quote ++ ": " ++ text)
        | .ok parsed =>
          let merged := mergeSettings sofar.settings parsed
          let merged := if secrets.keys = [] then merged else mergeSecrets it merged secrets
          renderFiles it facts rawFiles secrets ⟨merged, sofar.used ++ [(filePath, data)]⟩ refs

/-- The inputs of a resolve besides the bucket: the facts, what loading the secrets of
the peel gives, and whether the cache is invalidated before or during the call. -/
structure Call where
  it : Ranging
  facts : Entries
  loadSecrets : Except String (Table String)
  invalidatedBefore : Bool
  invalidatedDuring : Bool

def Call.secrets (call : Call) : Table String :=
  match call.loadSecrets with
  | .ok secrets => secrets
  | .error _ => ∅

def resolveFresh (call : Call) : BusM (Except String (Resolved × Bool)) := do
  match ← loadManifest codec with
  | .error text => return .error ("settings: load manifest: " ++ text)
  | .ok manifest =>
    match ← loadTopFile codec manifest with
    | .error text => return .error ("settings: load top.zy: " ++ text)
    | .ok none => return .ok (⟨[], []⟩, false)
    | .ok (some topData) =>
      match r.parseTopFile topData with
      | .error text => return .error ("settings: parse top.zy: " ++ text)
      | .ok top =>
        match resolveForPeel (r.isMatch · call.facts) top with
        | [] => return .ok (⟨[], [(topKey, topData)]⟩, false)
        | ref :: refs =>
          match ← loadMatchingFiles codec manifest ∅ (ref :: refs) with
          | .error text => return .error ("settings: load matching files: " ++ text)
          | .ok rawFiles =>
            match r.renderFiles call.it call.facts rawFiles call.secrets ⟨[], [(topKey, topData)]⟩
                (ref :: refs) with
            | .error text => return .error text
            | .ok resolved =>
              match findUnresolvedSecretKeys (.map resolved.settings) with
              | [] => return .ok (resolved, true)
              | unresolved =>
                return .error ("settings: resolve for peel " ++ r.peelID ++
                  ": unresolved secret placeholders for keys: " ++
                  String.intercalate ", " unresolved)

/-- The result and the cache after the call. Only a full resolution is cached, and only
if neither an invalidation nor a new revision came in between. -/
def resolve (call : Call) (before : Cache) :
    BusM (Except String Resolved × Cache) := do
  let cache := if call.invalidatedBefore then Cache.empty else before
  let kept := if call.invalidatedDuring then Cache.empty else cache
  let revAtStart ← getRevision
  match decide (0 < revAtStart ∧ revAtStart = cache.revision), cache.result with
  | true, some cached => return (.ok cached, kept)
  | _, _ =>
    match ← r.resolveFresh codec call with
    | .error text => return (.error text, kept)
    | .ok (resolved, false) => return (.ok resolved, kept)
    | .ok (resolved, true) =>
      let revNow ← getRevision
      if call.invalidatedDuring || revNow != revAtStart then
        return (.ok resolved, kept)
      else
        return (.ok resolved, ⟨revAtStart, some resolved⟩)

def resolveAll : List Call → Cache → BusM (List (Except String Resolved))
  | [], _ => return []
  | call :: calls, cache => do
    let (result, cache) ← r.resolve codec call cache
    let results ← resolveAll calls cache
    return result :: results

end Resolver
end Zester.Settings
