import Zester.Lib.Contract
import Zester.StateFiles.StagingProofs

/-! A sync among other programs on the same bucket: what it swaps in is what one manifest
lists, which was stored while the sync ran. -/
namespace Zester.StateFiles
open Bus List Function Bucket

variable {c : Cache}

/-- The keys are distinct and those of the cache are clean relative paths. -/
structure Tidy (c : Cache) (files : List ManifestFile) : Prop where
  keys : (files.map ManifestFile.key).Nodup
  clean : ∀ f ∈ files, ∀ rel, c.filePath f.key = some rel → IsClean rel

theorem toList_of_trimPrefix (begins : hasPrefix s mark = true) :
    s.toList = mark.toList ++ (trimPrefix s mark).toList := by
  unfold hasPrefix at begins
  obtain ⟨rest, split⟩ := isPrefixOf_iff_prefix.mp begins
  rw [trimPrefix, if_pos begins, ← split, String.toList_ofList, ← String.length_toList, drop_left]

theorem filePath_key (here : c.filePath key = some rel) :
    key.toList = c.keyPrefix.toList ++ rel.toList := by
  unfold Cache.filePath Cache.diskPathForKey at here
  split at here
  · cases here
  split at here
  · cases here
  split at here
  · rename_i none
    cases here
    simp [none]
  split at here
  · rename_i begins
    dsimp only at here
    split at here
    · cases here
    · cases here
      exact toList_of_trimPrefix begins
  · cases here

theorem filePath_injective (here : c.filePath key = some rel) (there : c.filePath key' = some rel) :
    key = key' :=
  String.ext ((filePath_key here).trans (filePath_key there).symm)

theorem Tidy.distinct (tidy : Tidy c files) : Distinct (c.listed files) := by
  induction files with
  | nil => exact nodup_nil
  | cons f files ih =>
    obtain ⟨new, keys⟩ := nodup_cons.mp tidy.keys
    have rest := ih ⟨keys, fun g member => tidy.clean g (mem_cons_of_mem f member)⟩
    cases here : c.filePath f.key with
    | none => simpa [Cache.listed, here] using rest
    | some rel =>
      have first : c.listed (f :: files) = (relParts rel, f.sha256) :: c.listed files := by
        simp [Cache.listed, here]
      rw [first]
      refine nodup_cons.mpr ⟨fun again => ?_, rest⟩
      -- another key with the same place would be the same key
      simp only [Cache.listed, mem_map, mem_filterMap, Option.map_eq_some_iff] at again
      obtain ⟨_, ⟨g, member, rel', there, rfl⟩, same⟩ := again
      have clean := tidy.clean f mem_cons_self rel here
      have clean' := tidy.clean g (mem_cons_of_mem f member) rel' there
      obtain rfl : rel' = rel := clean'.eq_of_relParts clean same
      exact new (mem_map.mpr ⟨g, member, filePath_injective there here⟩)

/-- What the programs on the bucket come to: the sync, and the publishers. -/
abbrev Outcome (ι : Type) : Option ι → Type
  | none => Host × Synced × Except String Nat
  | some _ => Except String Result

/-- Anything may be written at any time. -/
def unguarded (ι : Type) : Discipline (Option ι) String String where
  regime := .anything
  inv := fun _ => True
  guar := fun _ _ _ => True

theorem unguarded_keeps (i : Option ι) (b b' : Bucket String String) : (unguarded ι).Keeps i b b' :=
  .inr ⟨trivial, trivial⟩

theorem loadManifest_ensures :
    (unguarded ι).Ensures i (fun b' loaded => ∀ files, loaded = .ok (some files) →
      ∃ moment entry, b ≤ moment ∧ moment ≤ b' ∧ moment.get keyManifest = some entry ∧
        c.decode entry.value = .ok files) b c.loadManifest := by
  refine .get (fun moment around entry found => ?_) (fun _ _ _ => ?_) (fun _ _ _ text => ?_)
  · dsimp only
    split
    · intro b' _ files failed
      cases failed
    · rename_i decoded
      intro b' later files' loaded
      cases loaded
      exact ⟨moment, entry, around.later, later.later, found, decoded⟩
  · intro b' _ files none
    cases none
  · intro b' _ files failed
    cases failed

/-- The live directory is as before, or holds what a manifest of the time lists. -/
def Synchronised (c : Cache) (host : Host) (b b' : Bucket String String)
    (outcome : Host × Synced × Except String Nat) : Prop :=
  FileTree.get outcome.1.tree (place c.cacheDir.toList) =
      FileTree.get host.tree (place c.cacheDir.toList) ∨
    ∃ moment entry files, b ≤ moment ∧ moment ≤ b' ∧ moment.get keyManifest = some entry ∧
      c.decode entry.value = .ok files ∧
      Exactly c.hashFn (FileTree.get outcome.1.tree (place c.cacheDir.toList)) (c.listed files)

theorem sync_ensures (swappable : Swappable c world) (injective : Injective c.hashFn) :
    (unguarded ι).Ensures i (fun b' outcome =>
      (∀ value files, b'.Logged keyManifest value → c.decode value = .ok files → Tidy c files) →
        Synchronised c host b b' outcome) b (c.sync world host synced) := by
  refine .bind trivial (.returns (unguarded_keeps i)) fun b₁ targetRev later₁ _ _ => ?_
  refine .bind trivial loadManifest_ensures fun b₂ loaded later₂ _ manifest => ?_
  refine Discipline.Ensures.weaken (.returns (unguarded_keeps i))
    fun b' outcome _ ⟨later, returns⟩ tidy => ?_
  obtain text | _ | files := loaded
  · cases returns
    exact .inl rfl
  · obtain ⟨listed, -, returns⟩ := Program.mayReturn_bind.mp returns
    obtain text | _ | ⟨key, fileKeys⟩ := listed
    all_goals
      cases returns
      exact .inl rfl
  · obtain ⟨moment, entry, after, before, found, decoded⟩ := manifest files rfl
    obtain ⟨⟨host₁, result⟩, filled, returns⟩ := Program.mayReturn_bind.mp returns
    have logged := (logged_of_get found).mono (le_trans before later)
    have delivered := syncFiles_spec swappable (pinned_of_injective injective files)
      (tidy entry.value files logged decoded).distinct filled
    obtain text | count := result
    · cases returns
      exact .inl delivered
    · cases returns
      exact .inr ⟨moment, entry, files, le_trans later₁ after, le_trans before later, found,
        decoded, delivered⟩

/-- Whatever publishers and others do to the bucket meanwhile: after a sync the live
directory is unchanged, or holds exactly what one manifest lists that was stored at some
moment of the sync. -/
theorem sync_never_torn [DecidableEq ι] {s s' : System (Option ι) String String (Outcome ι)}
    {synced : Synced} {outcome : Host × Synced × Except String Nat}
    (swappable : Swappable c world) (collisionFree : Injective c.hashFn)
    (starts : s.programs none = c.sync world host synced) (run : s.Reaches .anything s')
    (ends : s'.programs none = .done outcome)
    (tidy : ∀ value files, s'.bucket.Logged keyManifest value → c.decode value = .ok files →
      Tidy c files) :
    Synchronised c host s.bucket s'.bucket outcome := by
  let post : (i : Option ι) → Bucket String String → Outcome ι i → Prop
    | none => fun b' outcome => (∀ value files, b'.Logged keyManifest value →
        c.decode value = .ok files → Tidy c files) → Synchronised c host s.bucket b' outcome
    | some _ => fun _ _ => True
  have holds : (unguarded ι).Holds post s := by
    refine ⟨trivial, fun i => ?_⟩
    cases i with
    | none =>
      rw [starts]
      exact sync_ensures swappable collisionFree
    | some i => exact .weaken (.returns (unguarded_keeps _)) fun _ _ _ _ => trivial
  exact (holds.reaches run).result ends tidy

def portData (port : String) : String := "port: " ++ port ++ "\n"

/-- The digests of the two sample contents; the others are kept apart. -/
def sampleHash (content : String) : String :=
  if content = portData "1" then "854e00f83420ae39530b0f44de6273fa6d71a00796233a6181de22daa3eacf4a"
  else if content = portData "2" then
    "cbb70da25ec85dde498c431b1460bed3adb2c5d0377626b2aa03465606e74bbb"
  else "?" ++ content

/-- The content that a sum is of. -/
def sampleContent (sum : String) : String :=
  if sum = sampleHash (portData "1") then portData "1"
  else if sum = sampleHash (portData "2") then portData "2"
  else String.ofList (sum.toList.drop 1)

theorem sampleHash_injective : Injective sampleHash := by
  refine @LeftInverse.injective _ _ sampleContent _ fun content => ?_
  by_cases one : content = portData "1"
  · rw [one, sampleContent, if_pos rfl]
  by_cases two : content = portData "2"
  · rw [two, sampleContent, if_neg (by decide), if_pos rfl]
  have sum : sampleHash content = "?" ++ content := by rw [sampleHash, if_neg one, if_neg two]
  have marked : ∀ digest : String, digest.toList.head? ≠ some '?' → "?" ++ content ≠ digest := by
    rintro _ unmarked rfl
    simp at unmarked
  rw [sum, sampleContent, if_neg (marked _ (by decide)), if_neg (marked _ (by decide))]
  simp

def sampleManifest (port : String) : List ManifestFile := [⟨"app.zy", sampleHash (portData port)⟩]

def samplePacked (port : String) : String :=
  "\x81\xa5files\x91\x82\xa3key\xa6app.zy\xa6sha256\xd9@" ++ sampleHash (portData port)

def sampleWire : Wire where
  encode manifest :=
    if manifest = sampleManifest "1" then .ok (samplePacked "1")
    else if manifest = sampleManifest "2" then .ok (samplePacked "2")
    else .error "not a manifest of the sample"
  decode text :=
    if text = samplePacked "1" then .ok (sampleManifest "1")
    else if text = samplePacked "2" then .ok (sampleManifest "2")
    else .error "not a manifest of the sample"
  describe
    | .failed text => text
    | _ => "refused"

def sampleCache : Cache := newCache sampleHash sampleWire { cacheDir := "states" }

def sampleHost : Host :=
  ⟨some (.dir [("states".toList, .dir [("old.zy".toList, .file "old")])]), []⟩

def samplePublisher : Publisher := newPublisher sampleHash {}

def sampleFiles (port : String) : FileSet := AList.insert "app.zy" (portData port) ∅

def sampleSystem : System (Option Unit) String String (Outcome Unit) where
  bucket := .empty
  programs
    | none => sampleCache.sync .calm sampleHost ⟨0, false⟩
    | some _ => samplePublisher.publishFiles sampleWire ⟨.listed, sampleFiles "1", true, 0⟩

def sampleScript : List (Option Unit × Luck) :=
  [(some (), .served), (none, .served), (some (), .served), (none, .served), (none, .served)]

theorem sampleCache_named : Named sampleCache :=
  ⟨[], "states".toList, rfl, .inl rfl, ⟨by decide, by decide, by decide, by decide⟩⟩

theorem sampleCache_swappable : Swappable sampleCache .calm where
  named := sampleCache_named
  aside := fun _ _ failed => by cases failed
  into := fun _ _ => rfl

theorem sampleScript_tidy
    (logged : (sampleSystem.play sampleScript).bucket.Logged keyManifest value)
    (decoded : sampleCache.decode value = .ok files) : Tidy sampleCache files := by
  have log : (sampleSystem.play sampleScript).bucket.log =
      [⟨keyManifest, some (samplePacked "1")⟩, ⟨"app.zy", some (portData "1")⟩] := rfl
  have known : value = samplePacked "1" := by simpa [Logged, log, keyManifest] using logged
  subst known
  obtain rfl : sampleManifest "1" = files := Except.ok.inj decoded
  refine ⟨by decide, fun f member rel here => ?_⟩
  obtain rfl := mem_singleton.mp member
  obtain rfl : "app.zy" = rel := Option.some.inj here
  exact ⟨by decide, by decide⟩

/-- The sync picks up what was published after its start. -/
theorem sync_never_torn_published : ∃ outcome,
    (sampleSystem.play sampleScript).programs none = .done outcome ∧
    Synchronised sampleCache sampleHost .empty (sampleSystem.play sampleScript).bucket outcome ∧
    FileTree.look outcome.1.tree ["states".toList, "app.zy".toList] = some (.file (portData "1")) ∧
    FileTree.look outcome.1.tree ["states".toList, "old.zy".toList] = none := by
  refine ⟨_, rfl, ?_, rfl, rfl⟩
  exact sync_never_torn sampleCache_swappable sampleHash_injective rfl
    (System.play_reaches (fun _ _ => trivial) sampleSystem sampleScript
      (System.permitted_of (fun _ _ => trivial) _ _)) rfl fun _ _ => sampleScript_tidy

end Zester.StateFiles
