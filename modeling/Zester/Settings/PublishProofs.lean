import Zester.Bus.RevisionProofs
import Zester.Settings.Publish
import Zester.Settings.SanitizeProofs

/-! What a successful publish leaves behind. A key that was last written before the
stored manifest holds what the manifest lists; a key that was written after it
belongs to a publish that failed, and the short cut does not look at its content. -/
namespace Zester.Settings
open Bus
open Discipline.Around (alone)
open List hiding keys

variable {codec : Codec} {it : Ranging} {tree : SettingsFiles}

/-- MessagePack reads back what it wrote. -/
def Codec.Decodes (codec : Codec) : Prop :=
  ∀ manifest text, codec.encode manifest = .ok text → codec.decode text = .ok manifest

/-- Every listed key holds content with the listed hash. -/
def Lists (codec : Codec) (manifest : List ManifestEntry) (b : Bucket String String) : Prop :=
  ∀ entry ∈ manifest, ∃ file, b.get entry.key = some file ∧ codec.sha256 file.value = entry.sha256

/-- The bucket holds what its own manifest lists. -/
def Consistent (codec : Codec) (b : Bucket String String) : Prop :=
  ∀ stored manifest, b.get manifestKey = some stored → codec.decode stored.value = .ok manifest →
    Lists codec manifest b

/-- A listed key that was not written since the stored manifest holds the listed content. -/
def Settled (codec : Codec) (b : Bucket String String) : Prop :=
  ∀ stored manifest, b.get manifestKey = some stored → codec.decode stored.value = .ok manifest →
    ∀ entry ∈ manifest, ∀ file, b.get entry.key = some file → file.revision < stored.revision →
      codec.sha256 file.value = entry.sha256

section

theorem sanitizeFiles_keys (sanitizes : sanitizeFiles yaml files = .ok sanitized) :
    sanitized.map Prod.fst = files.map Sigma.fst := by
  induction files generalizing sanitized with
  | nil =>
    cases sanitizes
    rfl
  | cons file files ih =>
    obtain ⟨key, data⟩ := file
    simp only [sanitizeFiles] at sanitizes
    split at sanitizes
    · cases sanitizes
    split at sanitizes
    · cases sanitizes
    · rename_i sanitizesRest
      cases sanitizes
      simp [ih sanitizesRest]

theorem not_protected_of_suffix (suffix : ".zy".toList <:+ key.toList) :
    isProtectedFileKey key = false := by
  by_contra isProtected
  simp only [isProtectedFileKey, Bool.not_eq_false, Bool.or_eq_true, beq_iff_eq] at isProtected
  obtain (rfl | rfl) | rfl := isProtected <;> revert suffix <;> decide

variable (sanitizes : sanitizeFiles yaml (it.order [0] tree.files.entries) = .ok sanitized)
include sanitizes

theorem sanitized_nodup : (sanitized.map Prod.fst).Nodup := by
  rw [sanitizeFiles_keys sanitizes]
  exact ((it.perm [0] tree.files.entries).map Sigma.fst).nodup_iff.mpr tree.files.nodupKeys

theorem sanitized_unprotected (member : key ∈ sanitized.map Prod.fst) :
    isProtectedFileKey key = false := by
  rw [sanitizeFiles_keys sanitizes, ((it.perm [0] tree.files.entries).map Sigma.fst).mem_iff]
    at member
  exact not_protected_of_suffix (tree.suffix key (AList.mem_keys.mpr member))

end

theorem mem_manifestOf : entry ∈ manifestOf codec sanitized ↔
      ∃ file ∈ sanitized, (⟨file.1, codec.sha256 file.2.content⟩ : ManifestEntry) = entry := by
  simp [manifestOf, mem_insertionSort]

theorem key_ne_of_unprotected (free : isProtectedFileKey key = false) :
    key ≠ manifestKey ∧ key ≠ keyRevision := by
  refine ⟨?_, ?_⟩ <;> rintro rfl <;> revert free <;> decide

theorem Settled.write (settled : Settled codec b) (other : key ≠ manifestKey) :
    Settled codec (b.write key value) := by
  intro stored manifest found decoded entry member file held older
  rw [Bucket.get_write_ne other.symm] at found
  by_cases same : entry.key = key
  · -- the key is written after the manifest
    rw [same] at held
    cases value with
    | none => simp at held
    | some content =>
      cases held.symm.trans (b.get_put_self key content)
      have := Bucket.get_revision_le found
      simp only at older
      omega
  · rw [Bucket.get_write_ne same] at held
    exact settled stored manifest found decoded entry member file held older

theorem Settled.putManifest (decodes : codec.decode encoded = .ok manifest)
    (lists : Lists codec manifest b) (others : ∀ entry ∈ manifest, entry.key ≠ manifestKey) :
    Settled codec (b.write manifestKey (some encoded)) := by
  intro stored manifest' found decoded entry member file held _
  rw [Bucket.get_put_self] at found
  cases found
  cases decodes.symm.trans decoded
  rw [Bucket.get_write_ne (others entry member)] at held
  obtain ⟨listed, there, hash⟩ := lists entry member
  cases there.symm.trans held
  exact hash

def publisherAlone (codec : Codec) : Discipline Unit String String where
  regime := .failingWrites
  inv := Settled codec
  guar _ _ _ := True

theorem deleteKeys_writes (keys : List String) :
    (deleteKeys keys).Uses fun op => ∀ message ∈ op.message?, message.key ∈ keys := by
  induction keys with
  | nil => trivial
  | cons key keys ih =>
    exact ⟨by simp [Op.message?],
      fun _ => ih.imp fun op own message made => mem_cons_of_mem _ (own message made)⟩

theorem deleteKeys_spec (settled : Settled codec b) (others : manifestKey ∉ keys) :
    (publisherAlone codec).Ensures () (fun b' _ => Unmoved (· ∉ keys) b b') b (deleteKeys keys) :=
  unmoved_of_uses (deleteKeys_writes keys)
    (fun _ _ _ here settled => ⟨trivial, settled.write fun same => others (same ▸ here)⟩) settled

theorem mem_staleKeys (stale : key ∈ staleKeys manifest listed) :
    isProtectedFileKey key = false ∧ key ∉ manifest.map ManifestEntry.key := by
  simp only [staleKeys, mem_insertionSort, mem_filter, Bool.and_eq_true,
    Bool.not_eq_true', contains_eq_mem, decide_eq_false_iff_not] at stale
  exact stale.2

/-- Neither the bookkeeping nor a listed file is ever pruned. -/
def Pruned (manifest : List ManifestEntry) : Bucket String String → Bucket String String → Prop :=
  Unmoved fun key => isProtectedFileKey key = true ∨ key ∈ manifest.map ManifestEntry.key

theorem pruneStaleFiles_spec (settled : Settled codec b) :
    (publisherAlone codec).Ensures () (fun b' _ => Pruned manifest b b') b
      (pruneStaleFiles manifest) := by
  have nothing : (publisherAlone codec).Ensures () (fun b' _ => Pruned manifest b b') b
      (return ()) := alone (Unmoved.refl _ b)
  refine .keys (alone fun _ => ?_) (alone fun _ => nothing) (alone fun _ _ => nothing)
  refine (deleteKeys_spec settled ?_).weaken fun b' _ _ same key kept => same key fun stale => ?_
  · intro stale
    exact absurd (mem_staleKeys stale).1 (by decide)
  · obtain ⟨free, unlisted⟩ := mem_staleKeys stale
    exact kept.elim (by simp [free]) unlisted

def Stored (files : List (String × SanitizedFile)) (b : Bucket String String) : Prop :=
  ∀ file ∈ files, ∃ entry, b.get file.1 = some entry ∧ entry.value = file.2.content

theorem putFiles_spec (settled : Settled codec b) (distinct : (files.map Prod.fst).Nodup)
    (free : ∀ key ∈ files.map Prod.fst, key ≠ manifestKey) :
    (publisherAlone codec).Ensures () (fun b' result => ∀ answer, result = .ok answer →
      Stored files b' ∧ Unmoved (· ∉ files.map Prod.fst) b b') b (putFiles codec files) := by
  induction files generalizing b with
  | nil => exact alone fun _ _ => ⟨by simp [Stored], .refl _ b⟩
  | cons file files ih =>
    obtain ⟨key, file⟩ := file
    simp only [map_cons, nodup_cons] at distinct
    have kept : Settled codec (b.write key (some file.content)) :=
      settled.write (free key (by simp))
    refine .write (fun _ => rfl) (alone fun _ => ⟨trivial, kept⟩) (alone fun _ => ?_)
      (alone fun _ b' text _ => .error)
    refine (ih kept distinct.2 fun k member => free k (by simp [member])).weaken ?_
    intro b' result _ done answer finished
    obtain ⟨stored, unmoved⟩ := done answer finished
    refine ⟨fun other member => ?_, fun k outside => ?_⟩
    · obtain rfl | member := mem_cons.mp member
      · exact ⟨⟨file.content, b.revision + 1⟩, by rw [unmoved key distinct.1, b.get_put_self], rfl⟩
      · exact stored other member
    · simp only [map_cons, mem_cons, not_or] at outside
      rw [unmoved k outside.2, Bucket.get_write_ne outside.1]

/-- The gate finds the manifest to be published, completed by a later bump, and
every listed key. -/
def Unchanged (encoded : String) (manifest : List ManifestEntry)
    (b : Bucket String String) : Prop :=
  ∃ stored bump, b.get manifestKey = some stored ∧ stored.value = encoded ∧
    b.get keyRevision = some bump ∧ stored.revision < bump.revision ∧
    ∀ entry ∈ manifest, (b.get entry.key).isSome

theorem hashGate_eq (encoded : String) (manifest : List ManifestEntry) : hashGate encoded manifest =
      completedGate manifestKey encoded (manifest.map ManifestEntry.key) := by
  simp only [completedGate, all_map, Function.comp_def]
  rfl

theorem hashGate_spec (encoded : String) (manifest : List ManifestEntry) :
    (publisherAlone codec).Ensures ()
      (fun b' result => b' = b ∧ (result = true ↔ Unchanged encoded manifest b)) b
      (hashGate encoded manifest) := by
  rw [hashGate_eq]
  refine (completedGate_spec manifestKey encoded _ ?_).weaken fun b' result _ gate => ?_
  · exact fun op read fails => absurd (read.symm.trans fails) Bool.false_ne_true
  · simpa [Completed, Unchanged] using gate

theorem Stored.lists (perm : order.Perm sanitized) (stored : Stored order b) :
    Lists codec (manifestOf codec sanitized) b := by
  intro entry member
  obtain ⟨file, among, rfl⟩ := mem_manifestOf.mp member
  obtain ⟨content, held, same⟩ := stored file (perm.mem_iff.mpr among)
  exact ⟨content, held, by rw [same]⟩

theorem Lists.unmoved (lists : Lists codec manifest b)
    (unmoved : Unmoved named b b') (listed : ∀ entry ∈ manifest, named entry.key) :
    Lists codec manifest b' := by
  intro entry member
  rw [unmoved entry.key (listed entry member)]
  exact lists entry member

section
variable (decodes : codec.Decodes)
  (sanitizes : sanitizeFiles yaml (it.order [0] tree.files.entries) = .ok sanitized)
  (encodes : codec.encode (manifestOf codec sanitized) = .ok encoded)

include sanitizes in
theorem manifestOf_free (member : entry ∈ manifestOf codec sanitized) :
    entry.key ≠ manifestKey ∧ entry.key ≠ keyRevision := by
  obtain ⟨file, among, rfl⟩ := mem_manifestOf.mp member
  exact key_ne_of_unprotected (sanitized_unprotected sanitizes (mem_map_of_mem among))

include decodes sanitizes encodes

/-- A batch that is published to its end leaves what its manifest lists. -/
theorem publishBatch_spec (settled : Settled codec b) : (publisherAlone codec).Ensures ()
      (fun b' result => ∀ answer, result = .ok answer → Consistent codec b') b
      (publishBatch codec it sanitized (manifestOf codec sanitized) encoded) := by
  have perm := (it.perm [1] sanitized)
  refine .bind settled (putFiles_spec settled ?_ ?_) ?_
  · exact (perm.map Prod.fst).nodup_iff.mpr (sanitized_nodup sanitizes)
  · intro key member
    rw [(perm.map Prod.fst).mem_iff] at member
    exact (key_ne_of_unprotected (sanitized_unprotected sanitizes member)).1
  rintro b₁ (text | ⟨⟩) - settled₁ put
  · exact .error
  have lists : Lists codec (manifestOf codec sanitized) b₁ := (put () rfl).1.lists perm
  have kept : Settled codec (b₁.write manifestKey (some encoded)) :=
    .putManifest (decodes _ _ encodes) lists fun entry member =>
      (manifestOf_free sanitizes member).1
  refine .write (fun _ => rfl) (alone fun _ => ⟨trivial, kept⟩)
    (alone fun _ => ?_)
    (alone fun _ b' text _ => .error)
  refine .bind kept (pruneStaleFiles_spec kept) fun b₂ _ _ settled₂ pruned => ?_
  refine .bind settled₂ (bumpRevision_unmoved
    (fun _ _ settled => ⟨trivial, settled.write (by decide)⟩) settled₂) ?_
  rintro b₃ (text | ⟨⟩) - - unmoved
  · exact .error
  refine alone fun answer _ stored manifest held decoded => ?_
  -- the manifest is still the one that was put, over the files that were put
  rw [unmoved manifestKey (by decide), pruned manifestKey (.inl rfl), Bucket.get_put_self] at held
  cases held
  cases (decodes _ _ encodes).symm.trans decoded
  refine Lists.unmoved (Lists.unmoved (Lists.unmoved lists (.write b₁ manifestKey _) ?_) pruned ?_)
    unmoved ?_
  · exact fun entry member => (manifestOf_free sanitizes member).1
  · exact fun entry member => .inr (mem_map_of_mem member)
  · exact fun entry member => (manifestOf_free sanitizes member).2

end

/-- Every listed key that was written since the stored manifest holds the listed
content all the same. -/
def NewerMatch (codec : Codec) (manifest : List ManifestEntry) (b : Bucket String String) : Prop :=
  ∀ stored, b.get manifestKey = some stored → ∀ entry ∈ manifest, ∀ file,
    b.get entry.key = some file → stored.revision < file.revision →
      codec.sha256 file.value = entry.sha256

/-- Where the short cut is open, nothing that was written since the stored manifest
differs from it. -/
def ShortCutSound (codec : Codec) (yaml : Yaml) (it : Ranging) (tree : SettingsFiles) (force : Bool)
    (b : Bucket String String) : Prop :=
  ∀ sanitized encoded, sanitizeFiles yaml (it.order [0] tree.files.entries) = .ok sanitized →
    codec.encode (manifestOf codec sanitized) = .ok encoded → force = false →
    Unchanged encoded (manifestOf codec sanitized) b →
    NewerMatch codec (manifestOf codec sanitized) b

theorem consistent_iff_newerMatch (decodes : codec.decode encoded = .ok manifest)
    (free : ∀ entry ∈ manifest, entry.key ≠ manifestKey) (settled : Settled codec b)
    (unchanged : Unchanged encoded manifest b) :
    Consistent codec b ↔ NewerMatch codec manifest b := by
  obtain ⟨stored, bump, held, rfl, -, -, present⟩ := unchanged
  constructor
  · intro consistent stored' held' entry member file there _
    cases held.symm.trans held'
    obtain ⟨file', there', hash⟩ := consistent stored manifest held decodes entry member
    cases there.symm.trans there'
    exact hash
  · intro newer stored' manifest' held' decoded entry member
    cases held.symm.trans held'
    cases decodes.symm.trans decoded
    obtain ⟨file, there⟩ := Option.isSome_iff_exists.mp (present entry member)
    refine ⟨file, there, ?_⟩
    obtain older | same | since := lt_trichotomy file.revision stored.revision
    · exact settled stored manifest held decodes entry member file there older
    · exact absurd (Bucket.get_key_unique there held same) (free entry member)
    · exact newer stored held entry member file there since

theorem shortCutSound_iff
    (sanitizes : sanitizeFiles yaml (it.order [0] tree.files.entries) = .ok sanitized)
    (encodes : codec.encode (manifestOf codec sanitized) = .ok encoded) :
    ShortCutSound codec yaml it tree force b ↔
      (force = false → Unchanged encoded (manifestOf codec sanitized) b →
        NewerMatch codec (manifestOf codec sanitized) b) := by
  constructor
  · exact fun sound => sound sanitized encoded sanitizes encodes
  · intro sound sanitized' encoded' sanitizes' encodes'
    cases sanitizes.symm.trans sanitizes'
    cases encodes.symm.trans encodes'
    exact sound

/-- A publish that succeeds leaves a consistent bucket, unless the short cut passed
over what was written since the manifest. -/
theorem publishRawFiles_spec (decodes : codec.Decodes) (it : Ranging) (tree : SettingsFiles)
    (force : Bool) (settled : Settled codec b) :
    (publisherAlone codec).Ensures () (fun b' result => ∀ answer, result = .ok answer →
        (Consistent codec b' ↔ ShortCutSound codec yaml it tree force b)) b
      (publishRawFiles codec yaml it tree force) := by
  unfold publishRawFiles
  split
  · exact .error
  rename_i sanitized sanitizes
  dsimp only
  split
  · exact .error
  rename_i encoded encodes
  simp only [shortCutSound_iff sanitizes encodes]
  have batch := publishBatch_spec decodes sanitizes encodes settled
  cases force with
  | true =>
    refine batch.weaken fun b' result _ consistent answer succeeded => ?_
    exact iff_of_true (consistent answer succeeded) (by simp)
  | false =>
    refine .bind settled (hashGate_spec encoded (manifestOf codec sanitized)) ?_
    rintro _ (_ | _) - - ⟨rfl, gate⟩
    · refine batch.weaken fun b' result _ consistent answer succeeded => ?_
      exact iff_of_true (consistent answer succeeded) fun _ unchanged =>
        absurd (gate.mpr unchanged) Bool.false_ne_true
    · refine alone fun answer _ => ?_
      have unchanged := gate.mp rfl
      rw [consistent_iff_newerMatch (decodes _ _ encodes)
        (fun entry member => (manifestOf_free sanitizes member).1) settled unchanged]
      exact ⟨fun newer _ _ => newer, fun newer => newer rfl unchanged⟩

/-- The buckets that the calls of one publisher may leave behind, each of which may
fail at any of its writes or end early. -/
inductive History (codec : Codec) (yaml : Yaml) (start : Bucket String String) :
    Bucket String String → Prop where
  | start : History codec yaml start start
  | call {b b' : Bucket String String} (before : History codec yaml start b) (it : Ranging)
      (tree : SettingsFiles) (force : Bool) {rest : BusM _}
      (run : Regime.failingWrites.Runs (b, publishRawFiles codec yaml it tree force) (b', rest)) :
      History codec yaml start b'

theorem History.settled {start : Bucket String String} (decodes : codec.Decodes)
    (fresh : start.get manifestKey = none) (history : History codec yaml start b) :
    Settled codec b := by
  induction history with
  | start =>
    intro stored manifest held
    cases fresh.symm.trans held
  | call before it tree force run ih =>
    exact ((publishRawFiles_spec decodes it tree force ih).runs ih run).1

/-- A call that succeeds leaves a consistent bucket exactly when the short cut is
closed before it, or everything written since the stored manifest agrees with it. -/
theorem publish_consistent_iff (codec : Codec) (yaml : Yaml) (decodes : codec.Decodes)
    (start : Bucket String String) (fresh : start.get manifestKey = none)
    (b : Bucket String String) (history : History codec yaml start b) (it : Ranging)
    (tree : SettingsFiles) (force : Bool) (b' : Bucket String String) (answer : FileSecrets × Bool)
    (run : Regime.failingWrites.Runs (b, publishRawFiles codec yaml it tree force)
      (b', .done (.ok answer))) :
    Consistent codec b' ↔ ShortCutSound codec yaml it tree force b := by
  have settled := history.settled decodes fresh
  obtain ⟨settled', ensures⟩ :=
    (publishRawFiles_spec decodes it tree force settled).runs settled run
  exact ensures b' (.refl settled') answer rfl

def portData (port : String) : String := "port: " ++ port ++ "\n"

def topData : String := "base:\n    '*':\n        - app\n"

/-- The library on two versions of `app.zy` and on a `top.zy` that assigns it to all. -/
def sampleYaml : Yaml where
  unmarshal content :=
    if content = portData "1" then some (portDoc "1")
    else if content = portData "2" then some (portDoc "2")
    else if content = topData then
      some (.document [.mapping "!!map" [(plainText "base", .mapping "!!map"
        [(.scalar "!!str" .other "*", .sequence "!!seq" [plainText "app"])])]])
    else none
  marshal doc :=
    match doc.textAt [.item 0, .value 0] with
    | some port => .ok (portData port)
    | none => .ok topData
  decode doc := (doc.textAt [.item 0, .value 0]).map fun port =>
    [("port", .int (if port = "1" then 1 else 2))]
where
  portDoc (port : String) : Node :=
    .document [.mapping "!!map" [(plainText "port", .scalar "!!int" .plain port)]]

/-- The hashes of the sample contents; the others are kept apart. -/
def sampleHash (content : String) : String :=
  if content = portData "1" then "854e00f83420ae39530b0f44de6273fa6d71a00796233a6181de22daa3eacf4a"
  else if content = portData "2" then
    "cbb70da25ec85dde498c431b1460bed3adb2c5d0377626b2aa03465606e74bbb"
  else "?" ++ content

def sampleManifest (port : String) : List ManifestEntry :=
  [⟨"app.zy", sampleHash (portData port)⟩, ⟨topKey, sampleHash topData⟩]

def samplePacked (port : String) : String :=
  "\x92" ++ packed "app.zy" (sampleHash (portData port)) ++ packed topKey (sampleHash topData)
where
  packed (key hash : String) : String := "\x82\xa3key\xa6" ++ key ++ "\xa6sha256\xd9@" ++ hash

/-- MessagePack on the two manifests of the sample. -/
def sampleCodec : Codec where
  sha256 := sampleHash
  encode manifest :=
    if manifest = sampleManifest "1" then .ok (samplePacked "1")
    else if manifest = sampleManifest "2" then .ok (samplePacked "2")
    else .error "not a manifest of the sample"
  decode text :=
    if text = samplePacked "1" then .ok (sampleManifest "1")
    else if text = samplePacked "2" then .ok (sampleManifest "2")
    else .error "not a manifest of the sample"
  describe
    | .failed text => text
    | _ => "refused"

theorem sampleCodec_decodes : sampleCodec.Decodes := by
  intro manifest text encoded
  simp only [sampleCodec] at encoded ⊢
  split at encoded
  · cases encoded
    simp [*]
  split at encoded
  · cases encoded
    have other : samplePacked "2" ≠ samplePacked "1" := by decide
    simp [*]
  · cases encoded

def sampleTree (port : String) : SettingsFiles where
  files := (AList.insert "app.zy" (portData port) ∅).insert topKey topData
  suffix := by
    intro key member
    simp only [AList.mem_insert, AList.notMem_empty, or_false] at member
    obtain rfl | rfl := member <;> decide

def samplePublish (port : String) : BusM (Except String (FileSecrets × Bool)) :=
  publishRawFiles sampleCodec sampleYaml .listed (sampleTree port) false

def tornBucket : Bucket String String :=
  ((samplePublish "2").play ((samplePublish "1").play .empty (replicate 7 .served)).1
    [.served, .served, .served, .lost "timeout"]).1

theorem tornBucket_history : History sampleCodec sampleYaml .empty tornBucket :=
  .call (.call .start .listed (sampleTree "1") false
      (Program.play_runs (fun _ write => write) (fun _ _ => trivial) _ _ _))
    .listed (sampleTree "2") false
      (Program.play_runs (fun _ write => write) (fun _ _ => trivial) _ _ _)

theorem tornBucket_publish : ∃ secrets, Regime.failingWrites.Runs (tornBucket, samplePublish "1")
    (tornBucket, .done (.ok (secrets, false))) :=
  ⟨_, Program.play_runs (fun _ write => write) (fun _ _ => trivial) tornBucket (samplePublish "1")
    (replicate 3 .served)⟩

theorem publish_consistent_iff_torn : Consistent sampleCodec tornBucket ↔
    ShortCutSound sampleCodec sampleYaml .listed (sampleTree "1") false tornBucket := by
  obtain ⟨secrets, run⟩ := tornBucket_publish
  exact publish_consistent_iff sampleCodec sampleYaml sampleCodec_decodes .empty rfl tornBucket
    tornBucket_history .listed (sampleTree "1") false tornBucket (secrets, false) run

/-- The call succeeds while `app.zy` still holds the second version. -/
theorem short_cut_leaves_torn : ∃ answer, History sampleCodec sampleYaml .empty tornBucket ∧
    Regime.failingWrites.Runs (tornBucket, samplePublish "1") (tornBucket, .done (.ok answer)) ∧
    ¬ Consistent sampleCodec tornBucket := by
  obtain ⟨secrets, run⟩ := tornBucket_publish
  refine ⟨(secrets, false), tornBucket_history, run, fun consistent => ?_⟩
  obtain ⟨file, held, hash⟩ := consistent ⟨samplePacked "1", 3⟩ (sampleManifest "1") rfl rfl
    ⟨"app.zy", sampleHash (portData "1")⟩ (by simp [sampleManifest])
  cases held.symm.trans (show tornBucket.get "app.zy" = some ⟨portData "2", 6⟩ from rfl)
  revert hash
  decide

end Zester.Settings
