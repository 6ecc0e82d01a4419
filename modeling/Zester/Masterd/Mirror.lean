import Zester.Settings.PublishProofs
import Zester.StateFiles.DeliveryProofs

/-! Masters that do not hold the publisher lease keep their source directories at what was
published. The settings tree travels sealed to the account key that all masters share, and its
mirror checks plain digests against a manifest of keyed ones. -/
namespace Zester.Masterd
open StateFiles

/-- Boxes between curve keys; sealing is randomised. -/
structure Encryptor where
  publicKey : String
  sealBox : (nonce : Nat) → (plaintext recipientPub : String) → Except String String
  openBox : (encrypted senderPub : String) → Except String String

structure KeyBundle where
  seed : String

/-- What the code takes from other libraries: the digests in hexadecimal, the boxes of a
key and MessagePack. -/
structure Library where
  sha256 : String → String
  hmacSHA256 : (key message : String) → String
  newEncryptor : KeyBundle → Except String Encryptor
  wire : Wire

structure Config where
  filesMirror : Bool
  gitRemotes : List String
  statesDir : String
  settingsDir : String
  reactorDir : String

structure Daemon where
  cfg : Option Config
  masterEnc : Option Encryptor := none
  masterSettingsPublisher : Option Publisher := none

def bucketMasterSettings : String := "master-settings"

def bucketReactorFiles : String := "reactor-files"

variable (lib : Library)

/-- Keyed, so that the manifest of the sealed tree tells nothing about the files. -/
def masterSettingsHash (accountKP : KeyBundle) (plaintext : String) : String :=
  lib.hmacSHA256 accountKP.seed plaintext

/-- The encryptor of the account key and the publisher of the sealed tree. -/
def Daemon.startSettingsPublisher (d : Daemon) (accountKP : KeyBundle) : Except String Daemon :=
  match lib.newEncryptor accountKP with
  | .error text => .error ("create master encryptor: " ++ text)
  | .ok masterEnc => .ok { d with
      masterEnc := some masterEnc
      masterSettingsPublisher := some (newPublisher lib.sha256 {
        encodeValue :=
          some fun nonce _ plaintext => masterEnc.sealBox nonce plaintext masterEnc.publicKey
        hashValue := some (masterSettingsHash lib accountKP) }) }

/-- What the publish of the sealed tree reports to the log, if it is not skipped. -/
def Daemon.publishSealedSettings (d : Daemon) (attempt : Attempt) :
    BusM (Option (Except String Result)) :=
  match d.masterSettingsPublisher, d.cfg with
  | some publisher, some cfg =>
    if cfg.filesMirror then do
      let res ← publisher.publishFiles lib.wire attempt
      return some res
    else return none
  | _, _ => return none

structure FilesMirror where
  name : String
  cache : Cache

def statesMirror (cfg : Config) : FilesMirror where
  name := "states"
  cache := newCache lib.sha256 lib.wire { cacheDir := cfg.statesDir, bucket := bucketStateFiles }

def settingsMirror (cfg : Config) (enc : Encryptor) : FilesMirror where
  name := "settings"
  cache := newCache lib.sha256 lib.wire {
    cacheDir := cfg.settingsDir
    bucket := bucketMasterSettings
    decodeValue := some fun _ stored => enc.openBox stored enc.publicKey
    onSynced := true }

def reactorMirror (cfg : Config) : FilesMirror where
  name := "reactor"
  cache := newCache lib.sha256 lib.wire {
    cacheDir := cfg.reactorDir
    bucket := bucketReactorFiles
    keyPrefix := "reactor/" }

def Daemon.buildFilesMirrors (d : Daemon) : List FilesMirror :=
  match d.cfg with
  | none => []
  | some cfg =>
    if !cfg.filesMirror then []
    else
      (if cfg.gitRemotes = [] ∧ cfg.statesDir ≠ "" then [statesMirror lib cfg] else []) ++
      (match d.masterEnc with
        | some enc => if cfg.settingsDir ≠ "" then [settingsMirror lib cfg enc] else []
        | none => []) ++
      (if cfg.reactorDir ≠ "" then [reactorMirror lib cfg] else [])

open List

variable {lib : Library} {d : Daemon}

/-- The settings mirror reads every key, opens what it stores and hashes without a key. -/
theorem mem_buildFilesMirrors_settings (built : mirror ∈ d.buildFilesMirrors lib)
    (named : mirror.name = "settings") : ∃ cfg enc, mirror = settingsMirror lib cfg enc := by
  unfold Daemon.buildFilesMirrors at built
  split at built
  · cases built
  rename_i cfg _
  split at built
  · cases built
  simp only [mem_append] at built
  obtain (states | settings) | reactor := built
  · split at states
    · obtain rfl := mem_singleton.mp states
      have other : "states" = "settings" := named
      exact absurd other (by decide)
    · cases states
  · split at settings
    · split at settings
      · exact ⟨cfg, _, mem_singleton.mp settings⟩
      · cases settings
    · cases settings
  · split at reactor
    · obtain rfl := mem_singleton.mp reactor
      have other : "reactor" = "settings" := named
      exact absurd other (by decide)
    · cases reactor

/-- A sealed publish that succeeded stored the manifest of the keyed digests. -/
theorem publishSealedSettings_spec (started : d.startSettingsPublisher lib accountKP = .ok d') :
    publisherAlone.Ensures ()
      (fun b' reported => ∀ answer, reported = some (.ok answer) → ∃ encoded,
      lib.wire.encode (buildManifestWith attempt.files (masterSettingsHash lib accountKP)) =
      .ok encoded ∧ HoldsManifest encoded b') b (d'.publishSealedSettings lib attempt) := by
  unfold Daemon.startSettingsPublisher at started
  split at started
  · cases started
  cases started
  unfold Daemon.publishSealedSettings
  cases cfg : d.cfg with
  | none => exact Discipline.Around.alone fun _ reported => by cases reported
  | some cfg =>
    dsimp only
    split
    · refine .bind trivial publishFiles_spec fun b' result _ _ published =>
        Discipline.Around.alone ?_
      intro answer reported
      obtain ⟨encoded, encodes, manifest, -⟩ := published answer (Option.some.inj reported)
      exact ⟨encoded, encodes, manifest⟩
    · exact Discipline.Around.alone fun _ reported => by cases reported

theorem not_delivers_of_foreign (holds : HoldsManifest encoded b)
    (decoded : c.decode encoded = .ok files)
    (member : f ∈ files) (inside : c.filePath f.key = some rel)
    (foreign : ∀ data, c.hashFn data ≠ f.sha256) : ¬ Delivers c world host synced fileSet b := by
  rintro ⟨host', synced', count, synchronised, -⟩
  obtain ⟨entry, held, rfl⟩ := holds
  obtain ⟨synced'', syncs⟩ := @sync_alone c world host files b synced entry held decoded
  rw [syncs] at synchronised
  obtain ⟨-, result⟩ := Prod.mk.inj synchronised
  obtain ⟨-, succeeded⟩ := Prod.mk.inj result
  obtain ⟨-, data, -, -, sum⟩ := served_of_syncFiles (Prod.ext rfl succeeded) f member rel inside
  exact foreign data sum

theorem delivers_nothing (ready : Ready c world host) (holds : HoldsManifest encoded b)
    (decoded : c.decode encoded = .ok []) : Delivers c world host synced ∅ b := by
  obtain ⟨entry, held, rfl⟩ := holds
  obtain ⟨synced', syncs⟩ := @sync_alone c world host [] b synced entry held decoded
  have pinned : Pinned c [] := fun f member => absurd member not_mem_nil
  obtain ⟨host', count, done⟩ := @syncFiles_serves c world host [] b ready pinned
    (fun f member => absurd member not_mem_nil) .nil fun f member => absurd member not_mem_nil
  have delivered : Delivered c [] (FileTree.get host.tree (place c.cacheDir.toList))
      (FileTree.get host'.tree (place c.cacheDir.toList)) (.ok count) :=
    syncFiles_spec (swappable_of_serves ready.serves ready.named) pinned nodup_nil
      (done ▸ Program.mayReturn_alone _)
  rw [done] at syncs
  refine ⟨host', synced', count, syncs, fun place content => ?_⟩
  rw [delivered.files]
  simp [Cache.listed]

/-- A sealed settings tree that was published reaches another master exactly if it has no
files. -/
theorem settings_mirror_delivers_iff (lib : Library)
    (decodes : ∀ files text, lib.wire.encode files = .ok text → lib.wire.decode text = .ok files)
    (distinct : ∀ seed message data, lib.hmacSHA256 seed message ≠ lib.sha256 data)
    (accountKP : KeyBundle) (leader leader' standby : Daemon)
    (leads : leader.startSettingsPublisher lib accountKP = .ok leader') (mirror : FilesMirror)
    (built : mirror ∈ standby.buildFilesMirrors lib) (named : mirror.name = "settings")
    (world : World) (host : Host) (ready : Ready mirror.cache world host) (synced : Synced)
    (it : Ranging) (tree : Settings.SettingsFiles) (force : Bool) (nonce : Nat)
    (b b' : Bucket String String) (result : Result)
    (run : Regime.failingWrites.Runs
      (b, leader'.publishSealedSettings lib ⟨it, tree.files, force, nonce⟩)
      (b', .done (some (.ok result)))) :
    Delivers mirror.cache world host synced tree.files b' ↔ tree.files = ∅ := by
  obtain ⟨-, ensures⟩ := (publishSealedSettings_spec leads).runs trivial run
  obtain ⟨encoded, encodes, manifest⟩ := ensures b' (.refl trivial) result rfl
  obtain ⟨cfg, enc, rfl⟩ := mem_buildFilesMirrors_settings built named
  have decoded := decodes _ _ encodes
  constructor
  · intro delivers
    by_contra nonempty
    obtain ⟨⟨key, data⟩, among⟩ := exists_mem_of_ne_nil _ fun empty => nonempty (AList.ext empty)
    have listed : key ∈ tree.files := AList.mem_keys.mpr (mem_map_of_mem among)
    obtain ⟨notManifest, notRevision⟩ :=
      Settings.key_ne_of_unprotected (Settings.not_protected_of_suffix (tree.suffix key listed))
    have inside : (settingsMirror lib cfg enc).cache.filePath key = some key :=
      if_neg (not_or.mpr ⟨notRevision, notManifest⟩)
    exact not_delivers_of_foreign manifest decoded
      (mem_buildManifestWith.mpr ⟨key, data, AList.mem_lookup_iff.mpr among, rfl⟩) inside
      (fun other => (distinct _ _ _).symm) delivers
  · intro empty
    rw [empty] at decoded ⊢
    exact delivers_nothing ready manifest decoded

def sampleKP : KeyBundle := ⟨"SAACCOUNTSEEDOFTHESAMPLE"⟩

def keyedHash (key message : String) : String :=
  if key = sampleKP.seed ∧ message = portData "1" then
    "c5874b88f4016e4ee60f36d45272d70602229159ee18175c6bfb527dfadf683d"
  else "!" ++ key ++ message

theorem keyedHash_distinct (key message data : String) :
    keyedHash key message ≠ sampleHash data := by
  have heads : (keyedHash key message).toList.take 2 = "c5".toList ∨
      (keyedHash key message).toList.head? = some '!' := by
    unfold keyedHash
    split
    · exact .inl (by decide)
    · exact .inr (by simp)
  have others : (sampleHash data).toList.take 2 ≠ "c5".toList ∧
      (sampleHash data).toList.head? ≠ some '!' := by
    unfold sampleHash
    split
    · decide
    · split
      · decide
      · simp
  rintro same
  rw [same] at heads
  exact heads.elim others.1 others.2

def sealedManifest : List ManifestFile := [⟨"app.zy", keyedHash sampleKP.seed (portData "1")⟩]

def sealedPacked : String :=
  "\x81\xa5files\x91\x82\xa3key\xa6app.zy\xa6sha256\xd9@" ++ keyedHash sampleKP.seed (portData "1")

/-- Boxes are marked plaintexts. -/
def sampleEncryptor (kb : KeyBundle) : Encryptor where
  publicKey := "X" ++ kb.seed
  sealBox _ plaintext _ := .ok ("xkv1" ++ plaintext)
  openBox encrypted _ :=
    if hasPrefix encrypted "xkv1" then .ok (trimPrefix encrypted "xkv1")
    else .error "nkeys: invalid encrypted data"

/-- A library with these boxes, with MessagePack on the manifest of no file
and of one file. -/
def sampleLibrary : Library where
  sha256 := sampleHash
  hmacSHA256 := keyedHash
  newEncryptor kb := .ok (sampleEncryptor kb)
  wire := {
    encode := fun manifest =>
      if manifest = [] then .ok "\x81\xa5files\x90"
      else if manifest = sealedManifest then .ok sealedPacked
      else .error "not a manifest of the sample"
    decode := fun text =>
      if text = "\x81\xa5files\x90" then .ok []
      else if text = sealedPacked then .ok sealedManifest
      else .error "not a manifest of the sample"
    describe := sampleWire.describe }

theorem sampleLibrary_decodes (files : List ManifestFile) (text : String)
    (encoded : sampleLibrary.wire.encode files = .ok text) :
    sampleLibrary.wire.decode text = .ok files := by
  simp only [sampleLibrary] at encoded ⊢
  split at encoded
  · cases encoded
    simp [*]
  split at encoded
  · cases encoded
    have other : sealedPacked ≠ "\x81\xa5files\x90" := by decide
    simp [*]
  · cases encoded

def sampleConfig : Config := ⟨true, [], "", "settings", ""⟩

def sampleMaster : Daemon where
  cfg := some sampleConfig
  masterEnc := some (sampleEncryptor sampleKP)
  masterSettingsPublisher := some (newPublisher sampleHash {
    encodeValue := some fun nonce _ plaintext =>
      (sampleEncryptor sampleKP).sealBox nonce plaintext (sampleEncryptor sampleKP).publicKey
    hashValue := some (keyedHash sampleKP.seed) })

theorem sampleMaster_started :
    (Daemon.mk (some sampleConfig) none none).startSettingsPublisher sampleLibrary sampleKP =
      .ok sampleMaster := rfl

def sampleMirror : FilesMirror :=
  settingsMirror sampleLibrary sampleConfig (sampleEncryptor sampleKP)

theorem sampleMirror_built : sampleMirror ∈ sampleMaster.buildFilesMirrors sampleLibrary :=
  mem_singleton.mpr rfl

def freshHost : Host := ⟨some (.dir []), []⟩

theorem sampleMirror_ready : Ready sampleMirror.cache .calm freshHost where
  serves := fun _ _ => rfl
  named := ⟨[], "settings".toList, rfl, .inl rfl, ⟨by decide, by decide, by decide, by decide⟩⟩
  reachable := by
    intro above up content
    obtain rfl : above = [] := prefix_nil.mp up
    simp [freshHost, FileTree.look, FileTree.kind]

def sealedPublish (files : FileSet) : BusM (Option (Except String Result)) :=
  sampleMaster.publishSealedSettings sampleLibrary ⟨.listed, files, false, 0⟩

def sealedBucket (files : FileSet) : Bucket String String :=
  ((sealedPublish files).play .empty (replicate 6 .served)).1

theorem sealedPublish_runs (files : FileSet) :
    Regime.failingWrites.Runs (.empty, sealedPublish files)
    ((sealedPublish files).play .empty (replicate 6 .served)) :=
  Program.play_runs (fun _ write => write) (fun _ _ => trivial) .empty _ _

def sampleSettings : Settings.SettingsFiles where
  files := sampleFiles "1"
  suffix key member := by
    simp only [sampleFiles, AList.mem_insert, AList.notMem_empty, or_false] at member
    exact member ▸ by decide

theorem settings_mirror_delivers_iff_sample :
    ¬ Delivers sampleMirror.cache .calm freshHost ⟨0, false⟩ (sampleFiles "1")
      (sealedBucket (sampleFiles "1")) := by
  have delivers := settings_mirror_delivers_iff sampleLibrary sampleLibrary_decodes
    keyedHash_distinct sampleKP _ sampleMaster sampleMaster sampleMaster_started sampleMirror
    sampleMirror_built rfl .calm freshHost sampleMirror_ready ⟨0, false⟩ .listed sampleSettings
    false 0 .empty _ ⟨1, true⟩ (sealedPublish_runs (sampleFiles "1"))
  exact fun delivered => by cases delivers.mp delivered

/-- The settings of one file are published, and the sync of another master refuses them. -/
theorem sealed_settings_refused :
    Regime.failingWrites.Runs (.empty, sealedPublish (sampleFiles "1"))
      (sealedBucket (sampleFiles "1"), .done (some (.ok ⟨1, true⟩))) ∧
    sampleMirror ∈ sampleMaster.buildFilesMirrors sampleLibrary ∧
    ¬ Delivers sampleMirror.cache .calm freshHost ⟨0, false⟩ (sampleFiles "1")
      (sealedBucket (sampleFiles "1")) := by
  refine ⟨sealedPublish_runs _, sampleMirror_built, ?_⟩
  rintro ⟨host', synced', count, synced, -⟩
  have failed : ((sampleMirror.cache.sync .calm freshHost ⟨0, false⟩).alone
      (sealedBucket (sampleFiles "1"))).2.2.2 =
      .error "statefiles: hash mismatch for app.zy" := rfl
  rw [synced] at failed
  cases failed

end Zester.Masterd
