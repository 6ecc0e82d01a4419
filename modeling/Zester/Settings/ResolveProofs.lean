import Zester.Settings.PublishProofs
import Zester.Settings.Resolve

/-! Resolving while others publish. The manifest is read once, and each file that is
used has to match it; whatever else is in the bucket, the files of a result belong to
one batch. -/
namespace Zester.Settings
open Bus Resolver List Function AList Bucket

structure PublishCall where
  it : Ranging
  tree : SettingsFiles
  force : Bool

variable {codec : Codec} {yaml : Yaml}

/-- One of the publishes has the given sanitized files and stored their manifest. -/
def Batch (codec : Codec) (yaml : Yaml) (publishes : Nat → PublishCall)
    (b : Bucket String String) (sanitized : List (String × SanitizedFile)) : Prop :=
  ∃ n text, sanitizeFiles yaml ((publishes n).it.order [0] (publishes n).tree.files.entries) =
      .ok sanitized ∧
    codec.encode (manifestOf codec sanitized) = .ok text ∧ b.Logged manifestKey text

theorem Batch.mono (batch : Batch codec yaml publishes b sanitized) (later : b ≤ b') :
    Batch codec yaml publishes b' sanitized := by
  obtain ⟨n, text, sanitizes, encodes, logged⟩ := batch
  exact ⟨n, text, sanitizes, encodes, logged.mono later⟩

/-- The batch has a file with that key and that content. -/
def Contains (sanitized : List (String × SanitizedFile)) (file : String × String) : Prop :=
  ∃ source ∈ sanitized, source.1 = file.1 ∧ source.2.content = file.2

/-- Every file that was used has the content that one published manifest lists. -/
def FromOneBatch (codec : Codec) (yaml : Yaml) (publishes : Nat → PublishCall)
    (b : Bucket String String) (resolved : Resolved) : Prop :=
  resolved.used ≠ [] → ∃ sanitized, Batch codec yaml publishes b sanitized ∧
    ∀ file ∈ resolved.used, Contains sanitized file

theorem FromOneBatch.mono (one : FromOneBatch codec yaml publishes b resolved) (later : b ≤ b') :
    FromOneBatch codec yaml publishes b' resolved := by
  intro some
  obtain ⟨sanitized, batch, contains⟩ := one some
  exact ⟨sanitized, batch.mono later, contains⟩

/-- Only manifests of the publishes were ever stored. -/
def OnlyPublished (codec : Codec) (yaml : Yaml) (publishes : Nat → PublishCall)
    (b : Bucket String String) : Prop :=
  ∀ text, b.Logged manifestKey text → ∃ n sanitized,
    sanitizeFiles yaml ((publishes n).it.order [0] (publishes n).tree.files.entries) =
      .ok sanitized ∧ codec.encode (manifestOf codec sanitized) = .ok text

/-- Publishers and resolvers on one bucket, where any operation may fail. -/
def traffic (codec : Codec) (yaml : Yaml) (publishes : Nat → PublishCall) :
    Discipline (Nat ⊕ Nat) String String where
  regime := .anything
  inv := OnlyPublished codec yaml publishes
  guar _ _ _ := True

/-- The operation stores no manifest other than the given one. -/
def NoOtherManifest (encoded : String) {ρ : Type} (op : Op String String ρ) : Prop :=
  ∀ text, op.Stores manifestKey text → text = encoded

theorem noOther_of_key {op : Op String String ρ}
    (other : ∀ message ∈ op.message?, message.key ≠ manifestKey) : NoOtherManifest encoded op := by
  intro text stores
  cases op <;> first | exact stores.elim | exact absurd stores.1 (other _ rfl)

theorem deleteKeys_uses (keys : List String) :
    (deleteKeys keys).Uses (NoOtherManifest encoded) := by
  induction keys with
  | nil => trivial
  | cons key keys ih => exact ⟨fun _ stores => False.elim stores, fun _ => ih⟩

theorem pruneStaleFiles_uses : (pruneStaleFiles manifest).Uses (NoOtherManifest encoded) := by
  refine ⟨fun _ stores => False.elim stores, fun reply => ?_⟩
  cases reply with
  | error refused => trivial
  | ok listed => exact deleteKeys_uses _

theorem bumpAttempts_uses (describe : Refusal → String) (attempts : Nat) (lastErr : String) :
    (bumpAttempts describe attempts lastErr).Uses (NoOtherManifest encoded) :=
  (bumpAttempts_writes describe attempts lastErr).imp fun op own =>
    noOther_of_key fun message made =>
    own message made ▸ by decide

theorem gateIntegrityOK_uses (stored : Entry String) :
    (gateIntegrityOK stored manifest).Uses (NoOtherManifest encoded) := by
  refine ⟨fun _ stores => False.elim stores, fun reply => ?_⟩
  cases reply with
  | error refused => trivial
  | ok revEntry =>
    show Program.Uses _ (if revEntry.revision ≤ stored.revision then _ else _)
    split
    · trivial
    · refine ⟨fun _ stores => False.elim stores, fun reply => ?_⟩
      cases reply <;> trivial

theorem hashGate_uses (text : String) :
    (hashGate text manifest).Uses (NoOtherManifest encoded) := by
  refine ⟨fun _ stores => False.elim stores, fun reply => ?_⟩
  cases reply with
  | error refused => trivial
  | ok cur =>
    show Program.Uses _ (if cur.value = text then _ else _)
    split
    · exact gateIntegrityOK_uses cur
    · trivial

theorem putFiles_uses (free : ∀ file ∈ files, file.1 ≠ manifestKey) :
    (putFiles codec files).Uses (NoOtherManifest encoded) := by
  induction files with
  | nil => trivial
  | cons file files ih =>
    refine ⟨noOther_of_key (by simpa [Op.message?] using free file (by simp)), fun reply => ?_⟩
    cases reply with
    | error refused => trivial
    | ok revision => exact ih fun file member => free file (by simp [member])

theorem publishBatch_uses (free : ∀ file ∈ sanitized, file.1 ≠ manifestKey) :
    (publishBatch codec it sanitized manifest encoded).Uses (NoOtherManifest encoded) := by
  refine .bind (putFiles_uses fun file member => free file (by simpa using member)) fun result => ?_
  cases result with
  | error text => trivial
  | ok done =>
    refine ⟨fun text stores => stores.2.symm, fun reply => ?_⟩
    cases reply with
    | error refused => trivial
    | ok revision =>
      refine .bind (p := pruneStaleFiles manifest) pruneStaleFiles_uses fun _ => ?_
      refine .bind (p := bumpRevision codec.describe) (bumpAttempts_uses _ _ _) fun result => ?_
      cases result <;> trivial

theorem publisher_ensures (n : Nat) :
    (traffic codec yaml publishes).Ensures (.inl n) (fun _ _ => True) b
      (publishRawFiles codec yaml (publishes n).it (publishes n).tree (publishes n).force) := by
  unfold publishRawFiles
  split
  · exact fun _ _ => trivial
  rename_i sanitized sanitizes
  dsimp only
  split
  · exact fun _ _ => trivial
  rename_i encoded encodes
  have free : ∀ file ∈ sanitized, file.1 ≠ manifestKey := fun file member =>
    (key_ne_of_unprotected (sanitized_unprotected sanitizes (mem_map_of_mem member))).1
  have uses : ∀ unchanged : Bool, (if unchanged = true then
      (return .ok (secretsOf sanitized, false) : BusM _)
      else publishBatch codec (publishes n).it sanitized (manifestOf codec sanitized) encoded).Uses
        (NoOtherManifest encoded) := by
    intro unchanged
    split
    · trivial
    · exact publishBatch_uses free
  refine .of_uses (show Program.Uses (NoOtherManifest encoded) _ from ?_) ?_
  · split
    · exact uses false
    · exact .bind (hashGate_uses encoded) uses
  · intro ρ op b only published _
    refine .inr ⟨trivial, fun text logged => ?_⟩
    obtain stores | before := Op.logged_perform logged
    · exact ⟨n, sanitized, sanitizes, only text stores ▸ encodes⟩
    · exact published text before

section
variable (decodes : codec.Decodes) (collisionFree : Injective codec.sha256)

/-- The manifest lists only files of the batch. -/
def Vouches (codec : Codec) (sanitized : List (String × SanitizedFile))
    (manifest : Manifest) : Prop :=
  ∀ key hash, manifest.lookup key = some hash →
    ∃ file ∈ sanitized, file.1 = key ∧ codec.sha256 file.2.content = hash

theorem lookup_listed {entries : List ManifestEntry} {listed : Table String}
    {key hash : String}
    (found : (entries.foldl (fun listed e => listed.insert e.key e.sha256) listed).lookup key =
      some hash) : ⟨key, hash⟩ ∈ entries ∨ listed.lookup key = some hash := by
  induction entries generalizing listed with
  | nil => exact .inr found
  | cons entry entries ih =>
    obtain later | here := ih found
    · exact .inl (by simp [later])
    by_cases same : key = entry.key
    · subst same
      rw [lookup_insert] at here
      cases here
      exact .inl (by simp)
    · rw [lookup_insert_ne same] at here
      exact .inr here

include decodes in
theorem loadManifest_spec (n : Nat) :
    (traffic codec yaml publishes).Ensures (.inr n) (fun b' result => ∀ manifest,
      result = .ok manifest → manifest = none ∨
        ∃ sanitized, Batch codec yaml publishes b' sanitized ∧ Vouches codec sanitized manifest) b
      (loadManifest codec) := by
  refine .get ?_ ?_ ?_
  · intro b' around entry held
    have logged := logged_of_get held
    obtain ⟨m, sanitized, sanitizes, encodes⟩ := around.inv entry.value logged
    have decoded := decodes _ _ encodes
    simp only [decoded]
    intro b'' around' manifest loaded
    cases loaded
    refine .inr ⟨sanitized, ⟨m, entry.value, sanitizes, encodes, logged.mono around'.later⟩, ?_⟩
    intro key hash found
    obtain listed | empty := lookup_listed found
    · obtain ⟨file, member, same⟩ := mem_manifestOf.mp listed
      cases same
      exact ⟨file, member, rfl, rfl⟩
    · simp at empty
  · intro b' _ _ b'' _ manifest loaded
    cases loaded
    exact .inl rfl
  · intro b' _ _ text b'' _ manifest loaded
    cases loaded

/-- The manifest lists the file with the hash of its content. -/
def Verified (codec : Codec) (manifest : Manifest) (file : String × String) : Prop :=
  manifest.lookup file.1 = some (codec.sha256 file.2)

theorem verified_of_ok (checked : verifyAgainstManifest codec manifest key data = .ok ()) :
    Verified codec manifest (key, data) := by
  unfold verifyAgainstManifest at checked
  split at checked
  · cases checked
  rename_i listed
  split at checked
  · rename_i same
    exact listed.trans (congrArg some same.symm)
  · cases checked

include collisionFree in
/-- Equal hashes mean equal contents, so a verified file is one of the batch. -/
theorem Verified.contains (verified : Verified codec manifest file)
    (vouches : Vouches codec sanitized manifest) : Contains sanitized file := by
  obtain ⟨source, member, key, hash⟩ := vouches _ _ verified
  exact ⟨source, member, key, collisionFree hash⟩

theorem loadTopFile_spec (n : Nat) (manifest : Manifest) :
    (traffic codec yaml publishes).Ensures (.inr n) (fun _ result => ∀ data,
      result = .ok (some data) → Verified codec manifest (topKey, data)) b
      (loadTopFile codec manifest) := by
  refine .get ?_ ?_ ?_
  · intro b' _ entry _
    show Discipline.Ensures _ _ _ _ (if manifest.isNone then _ else _)
    split
    · intro _ _ data loaded
      cases loaded
    split
    · intro _ _ data loaded
      cases loaded
    · rename_i checked
      intro _ _ data loaded
      cases loaded
      exact verified_of_ok checked
  · intro b' _ _
    show Discipline.Ensures _ _ _ _ (if (manifest.lookup topKey).isSome then _ else _)
    split
    all_goals
      intro _ _ data loaded
      cases loaded
  · intro _ _ _ _ _ _ data loaded
    cases loaded

theorem loadMatchingFiles_spec (n : Nat) (manifest : Manifest) (refs : List String)
    (files : Table String)
    (sofar : ∀ key data, files.lookup key = some data → Verified codec manifest (key, data)) :
    (traffic codec yaml publishes).Ensures (.inr n) (fun _ result => ∀ loaded, result = .ok loaded →
      ∀ key data, loaded.lookup key = some data → Verified codec manifest (key, data)) b
      (loadMatchingFiles codec manifest files refs) := by
  induction refs generalizing b files with
  | nil =>
    intro b' _ loaded same
    cases same
    exact sofar
  | cons ref refs ih =>
    refine .get ?_ ?_ ?_
    · intro b' _ entry _
      dsimp only
      split
      · exact .error
      rename_i checked
      refine ih _ fun key data found => ?_
      by_cases same : key = resolveRefToKVKey ref
      · subst same
        rw [lookup_insert] at found
        cases found
        exact verified_of_ok checked
      · rw [lookup_insert_ne same] at found
        exact sofar key data found
    · intro b' _ _
      show Discipline.Ensures _ _ _ _ (if (manifest.lookup _).isSome then _ else _)
      split
      · exact .error
      · exact ih files sofar
    · exact fun _ _ _ _ => .error

theorem renderFiles_used {r : Resolver}
 {P : String × String → Prop}
    (rendered : r.renderFiles it facts rawFiles secrets sofar refs = .ok resolved)
    (before : ∀ file ∈ sofar.used, P file)
    (loaded : ∀ key data, rawFiles.lookup key = some data → P (key, data)) :
    ∀ file ∈ resolved.used, P file := by
  induction refs generalizing sofar with
  | nil =>
    cases rendered
    exact before
  | cons ref refs ih =>
    simp only [renderFiles] at rendered
    split at rendered
    · exact ih rendered before
    rename_i data found
    split at rendered
    · cases rendered
    split at rendered
    · cases rendered
    · refine ih rendered fun file member => ?_
      obtain member | rfl : file ∈ sofar.used ∨ file = _ := by simpa using member
      · exact before file member
      · exact loaded _ data found

variable (n : Nat) (r : Resolver) (call : Call)
include decodes collisionFree

theorem resolveFresh_spec (inv : OnlyPublished codec yaml publishes b) :
    (traffic codec yaml publishes).Ensures (.inr n) (fun b' result => ∀ answer,
      result = .ok answer → FromOneBatch codec yaml publishes b' answer.1) b
      (r.resolveFresh codec call) := by
  refine .bind inv (loadManifest_spec decodes n) ?_
  rintro b₁ (text | manifest) - inv₁ origin
  · exact .error
  refine .bind inv₁ (loadTopFile_spec n manifest) ?_
  rintro b₂ (text | _ | topData) later₂ inv₂ top
  · exact .error
  · intro b' _ answer same
    cases same
    exact fun some => absurd rfl some
  -- the manifest exists, since it lists the top file
  have listed := top topData rfl
  obtain ⟨sanitized, batch, vouches⟩ : ∃ sanitized,
      Batch codec yaml publishes b₁ sanitized ∧ Vouches codec sanitized manifest := by
    obtain rfl | origin := origin manifest rfl
    · cases listed
    · exact origin
  have one : ∀ {resolved : Resolved} {b'}, b₂ ≤ b' →
      (∀ file ∈ resolved.used, Verified codec manifest file) →
      FromOneBatch codec yaml publishes b' resolved := fun later verified _ =>
    ⟨sanitized, batch.mono (le_trans later₂ later), fun file member =>
      (verified file member).contains collisionFree vouches⟩
  have topUsed : ∀ file ∈ [(topKey, topData)], Verified codec manifest file := by
    simpa using listed
  dsimp only
  split
  · exact .error
  split
  · intro b' around answer same
    cases same
    exact one around.later topUsed
  refine .bind inv₂ (loadMatchingFiles_spec n manifest _ ∅ (by simp)) ?_
  rintro b₃ (text | rawFiles) later₃ - loaded
  · exact .error
  dsimp only
  split
  · exact .error
  rename_i rendered
  split
  · intro b' around answer same
    cases same
    exact one (le_trans later₃ around.later)
      (renderFiles_used rendered topUsed (loaded rawFiles rfl))
  · exact .error

omit decodes collisionFree in
theorem getRevision_spec :
    (traffic codec yaml publishes).Ensures (.inr n) (fun _ _ => True) b getRevision :=
  .get (fun _ _ _ _ _ _ => trivial) (fun _ _ _ _ _ => trivial) (fun _ _ _ _ _ _ => trivial)

/-- The cache holds nothing, or the files of one batch. -/
def Cache.Sound (codec : Codec) (yaml : Yaml) (publishes : Nat → PublishCall)
    (b : Bucket String String) (cache : Cache) : Prop :=
  ∀ resolved, cache.result = some resolved → FromOneBatch codec yaml publishes b resolved

omit decodes collisionFree in
theorem Cache.empty_sound : Cache.empty.Sound codec yaml publishes b := by
  intro resolved held
  cases held

theorem resolve_spec (inv : OnlyPublished codec yaml publishes b)
    (sound : before.Sound codec yaml publishes b) :
    (traffic codec yaml publishes).Ensures (.inr n) (fun b' answer =>
      (∀ resolved, answer.1 = .ok resolved → FromOneBatch codec yaml publishes b' resolved) ∧
        answer.2.Sound codec yaml publishes b') b (r.resolve codec call before) := by
  have cacheSound : ∀ b', b ≤ b' →
      (if call.invalidatedBefore then Cache.empty else before).Sound codec yaml publishes b' := by
    intro b' later
    split
    · exact Cache.empty_sound
    · exact fun resolved held => (sound resolved held).mono later
  have keptSound : ∀ b', b ≤ b' → (if call.invalidatedDuring then Cache.empty else
      if call.invalidatedBefore then Cache.empty else before).Sound codec yaml publishes b' := by
    intro b' later
    split
    · exact Cache.empty_sound
    · exact cacheSound b' later
  refine .bind inv (getRevision_spec n) fun b₁ revAtStart later₁ inv₁ _ => ?_
  split
  · rename_i hit held
    intro b' around
    have later := le_trans later₁ around.later
    refine ⟨fun resolved same => ?_, keptSound b' later⟩
    cases same
    exact cacheSound b' later _ held
  refine .bind inv₁ (resolveFresh_spec decodes collisionFree n r call inv₁) ?_
  rintro b₂ (text | ⟨resolved, full⟩) later₂ inv₂ fresh
  · intro b' around
    refine ⟨fun resolved failed => ?_,
      keptSound b' (le_trans (le_trans later₁ later₂) around.later)⟩
    cases failed
  have one := fresh (resolved, full) rfl
  have kept : ∀ b', b₂ ≤ b' →
      (∀ answer, (.ok resolved : Except String Resolved) = .ok answer →
        FromOneBatch codec yaml publishes b' answer) ∧
      (if call.invalidatedDuring then Cache.empty else
        if call.invalidatedBefore then Cache.empty else before).Sound codec yaml publishes b' := by
    refine fun b' later => ⟨fun answer same => ?_,
      keptSound b' (le_trans (le_trans later₁ later₂) later)⟩
    cases same
    exact one.mono later
  cases full with
  | false => exact fun b' around => kept b' around.later
  | true =>
    refine .bind inv₂ (getRevision_spec n) fun b₃ revNow later₃ _ _ => ?_
    split
    · exact fun b' around => kept b' (le_trans later₃ around.later)
    intro b' around
    have later := le_trans later₃ around.later
    refine ⟨(kept b' later).1, fun answer held => ?_⟩
    cases held
    exact one.mono later

theorem resolveAll_spec (calls : List Call) (inv : OnlyPublished codec yaml publishes b)
    (sound : cache.Sound codec yaml publishes b) :
    (traffic codec yaml publishes).Ensures (.inr n) (fun b' results =>
      ∀ resolved, .ok resolved ∈ results → FromOneBatch codec yaml publishes b' resolved) b
      (r.resolveAll codec calls cache) := by
  induction calls generalizing b cache with
  | nil => exact fun _ _ resolved member => absurd member not_mem_nil
  | cons call calls ih =>
    refine .bind inv (resolve_spec decodes collisionFree n r call inv sound) ?_
    rintro b₁ ⟨result, cache⟩ - inv₁ ⟨here, sound₁⟩
    refine .bind inv₁ (ih inv₁ sound₁) fun b₂ results later₂ _ there => ?_
    intro b' around resolved member
    obtain rfl | member := mem_cons.mp member
    · exact (here resolved rfl).mono (le_trans later₂ around.later)
    · exact (there resolved member).mono around.later

end

/-- What the publishers and the resolvers come to. -/
abbrev Outcome : Nat ⊕ Nat → Type
  | .inl _ => Except String (FileSecrets × Bool)
  | .inr _ => List (Except String Resolved)

/-- The publishers, each with one publish, and the resolvers, each with its calls. -/
def settingsSystem (codec : Codec) (yaml : Yaml) (publishes : Nat → PublishCall)
    (resolvers : Nat → Resolver) (calls : Nat → List Call) (start : Bucket String String) :
    System (Nat ⊕ Nat) String String Outcome where
  bucket := start
  programs
    | .inl n => publishRawFiles codec yaml (publishes n).it (publishes n).tree (publishes n).force
    | .inr n => (resolvers n).resolveAll codec (calls n) .empty

/-- In every interleaving of publishes and resolves, each of which may stop or fail
anywhere, a resolve that succeeds used the files of one published manifest. -/
theorem resolve_from_one_batch (codec : Codec) (yaml : Yaml) (decodes : codec.Decodes)
    (collisionFree : Injective codec.sha256) (publishes : Nat → PublishCall)
    (resolvers : Nat → Resolver) (calls : Nat → List Call) (start : Bucket String String)
    (fresh : ∀ text, ¬ start.Logged manifestKey text) (s : System (Nat ⊕ Nat) String String Outcome)
    (run : (settingsSystem codec yaml publishes resolvers calls start).Reaches .anything s)
    (n : Nat)
    (results : List (Except String Resolved)) (finished : s.programs (.inr n) = .done results)
    (resolved : Resolved) (succeeded : .ok resolved ∈ results) :
    FromOneBatch codec yaml publishes s.bucket resolved := by
  have inv : OnlyPublished codec yaml publishes start := fun text logged =>
    absurd logged (fresh text)
  let post : (i : Nat ⊕ Nat) → Bucket String String → Outcome i → Prop
    | .inl _ => fun _ _ => True
    | .inr _ => fun b results =>
      ∀ resolved, .ok resolved ∈ results → FromOneBatch codec yaml publishes b resolved
  have holds : (traffic codec yaml publishes).Holds post
      (settingsSystem codec yaml publishes resolvers calls start) := by
    refine ⟨inv, fun i => ?_⟩
    cases i with
    | inl n => exact publisher_ensures n
    | inr n =>
      exact resolveAll_spec decodes collisionFree n (resolvers n) (calls n) inv Cache.empty_sound
  exact (holds.reaches run).result finished resolved succeeded

theorem sampleHash_injective : Injective sampleHash := by
  -- the other contents are marked with a character that no hash starts with
  have marked : ∀ {text x : String}, text = "?" ++ x → text.toList.head? = some '?' := by
    rintro _ x rfl
    simp
  intro x y same
  unfold sampleHash at same
  split_ifs at same with x₁ y₁ y₂ x₂ y₁ y₂ y₁ y₂
  · rw [x₁, y₁]
  · exact absurd same (by decide)
  · exact absurd (marked same) (by decide)
  · exact absurd same (by decide)
  · rw [x₂, y₂]
  · exact absurd (marked same) (by decide)
  · exact absurd (marked same.symm) (by decide)
  · exact absurd (marked same.symm) (by decide)
  · simpa using same

def sampleResolver : Resolver where
  peelID := "web-01"
  yaml := sampleYaml
  yamlError _ := "not a file of the sample"
  isMatch pattern _ := pattern = "*"
  renderString _ source _ _ := .ok source

def sampleCall : Call where
  it := .listed
  facts := []
  loadSecrets := .ok ∅
  invalidatedBefore := false
  invalidatedDuring := false

def sampleSystem : System (Nat ⊕ Nat) String String Outcome :=
  settingsSystem sampleCodec sampleYaml
    (fun n => ⟨.listed, sampleTree (if n = 0 then "1" else "2"), false⟩)
    (fun _ => sampleResolver) (fun _ => [sampleCall]) .empty

def sampleRun : System (Nat ⊕ Nat) String String Outcome :=
  sampleSystem.play (replicate 7 (.inl 0, .served) ++ [(.inl 1, .served)] ++
    replicate 5 (.inr 0, .served))

theorem sampleRun_reached : sampleSystem.Reaches .anything sampleRun :=
  System.play_reaches (fun _ _ => trivial) _ _ (System.permitted_of (fun _ _ => trivial) _ _)

theorem resolve_from_one_batch_sample :
    FromOneBatch sampleCodec sampleYaml
      (fun n => ⟨.listed, sampleTree (if n = 0 then "1" else "2"), false⟩) sampleRun.bucket
      ⟨[("port", .int 1)], [(topKey, topData), ("app.zy", portData "1")]⟩ :=
  resolve_from_one_batch sampleCodec sampleYaml sampleCodec_decodes sampleHash_injective
    _ (fun _ => sampleResolver)
      (fun _ => [sampleCall]) .empty (fun _ => not_logged_empty) sampleRun sampleRun_reached 0
    [.ok ⟨[("port", .int 1)], [(topKey, topData), ("app.zy", portData "1")]⟩] rfl _ (by simp)

end Zester.Settings
