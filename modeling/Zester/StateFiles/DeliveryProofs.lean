import Zester.StateFiles.PublisherProofs
import Zester.StateFiles.SyncProofs

/-! From a publish to a sync: with nothing in the way on the disk, a sync succeeds exactly if
the bucket holds, under every listed key, the listed content. -/
namespace Zester.StateFiles
open Bus FileTree AList
open Function
open Program (alone_get_bind alone_bind play_runs)
open List hiding count sum

variable {c : Cache} {world : World} {host : Host} {stage : String} {files : List ManifestFile}
  {b : Bucket String String}

/-- Nothing is in the way of a file below a directory. -/
def Room (root : List Text) (tree : Files) (parts : List Text) : Prop :=
  (∀ above, above <+: root ++ parts.dropLast → ∀ content, look tree above ≠ some (.file content)) ∧
  look tree (root ++ parts) ≠ some .dir

theorem room_of_fresh (nonempty : parts ≠ []) (fresh : FileTree.get tree root = some (.dir [])) :
    Room root tree parts := by
  have below : ∀ rest, rest ≠ [] → look tree (root ++ rest) = none := by
    intro rest nonempty
    rw [look_append, fresh]
    cases rest with
    | nil => exact absurd rfl nonempty
    | cons name rest => simp [look, child]
  have here : look tree root = some .dir := look_eq_dir.mpr ⟨[], fresh⟩
  refine ⟨fun above up content file => ?_, by simp [below parts nonempty]⟩
  obtain inside | ⟨rest, rfl⟩ := prefix_or_prefix_of_prefix up (prefix_append _ _)
  · by_cases same : above = root
    · rw [same, here] at file
      cases file
    · rw [look_of_below inside same (by simp [here])] at file
      cases file
  · cases rest with
    | nil =>
      rw [append_nil, here] at file
      cases file
    | cons name rest =>
      rw [below _ (by simp)] at file
      cases file

theorem Room.after (lands : Lands key)
    (done : writeFile world host stage key data = (host', .ok ()))
    (apart : Apart (relParts key) parts) (room : Room (place stage.toList) host.tree parts) :
    Room (place stage.toList) host'.tree parts := by
  obtain ⟨-, looks⟩ := writeFile_ok lands done
  obtain ⟨clear, free⟩ := room
  constructor
  · intro above up content
    rw [looks]
    split
    · rename_i same
      rw [same, prefix_append_right_inj] at up
      exact absurd (up.trans ( dropLast_prefix parts)) apart.1
    · split
      · simp
      · exact clear above up content
  · rw [looks]
    split
    · rename_i same
      rw [append_cancel_left_eq] at same
      exact absurd (same ▸ prefix_refl parts) apart.1
    · split
      · rename_i up
        rw [prefix_append_right_inj] at up
        exact absurd (up.trans ( dropLast_prefix _)) apart.2
      · exact free

/-- The bucket holds the listed content of a file of the cache. -/
def Served (c : Cache) (b : Bucket String String) (f : ManifestFile) : Prop :=
  ∀ rel, c.filePath f.key = some rel → ∃ entry data, b.get f.key = some entry ∧
    c.plain f.key entry.value = .ok data ∧ c.hashFn data = f.sha256

theorem served_of_stageManifest
    (done : ((c.stageManifest world stage host count files).alone b).2 = (host', .ok total)) :
    ∀ f ∈ files, Served c b f := by
  induction files generalizing host count with
  | nil => simp
  | cons f files ih =>
    unfold Cache.stageManifest at done
    split at done
    · rename_i outside
      intro g member rel inside
      obtain rfl | later := mem_cons.mp member
      · cases outside.symm.trans inside
      · exact ih done g later rel inside
    rename_i inside
    split at done
    · cases done
    cases held : b.get f.key with
    | none =>
      rw [Program.alone_get_bind_none held] at done
      cases done
    | some entry =>
      rw [alone_get_bind held] at done
      dsimp only at done
      split at done
      · cases done
      rename_i data opened
      split at done
      · cases done
      rename_i sum
      split at done
      · cases done
      exact forall_mem_cons.mpr ⟨fun _ _ => ⟨entry, data, held, opened, not_not.mp sum⟩, ih done⟩

theorem stageManifest_serves (serves : ∀ n op, world.fails n op = none)
    (served : ∀ f ∈ files, Served c b f)
    (safe : ∀ f ∈ files, ∀ rel, c.filePath f.key = some rel → safeKey rel = true)
    (apart : ((c.listed files).map Prod.fst).Pairwise Apart)
    (room : ∀ parts ∈ (c.listed files).map Prod.fst, Room (place stage.toList) host.tree parts) :
    ∃ host' total, ((c.stageManifest world stage host count files).alone b).2 =
      (host', .ok total) := by
  induction files generalizing host count with
  | nil => exact ⟨host, count, rfl⟩
  | cons f files ih =>
    have servedRest := fun g member => served g (mem_cons_of_mem f member)
    have safeRest := fun g member => safe g (mem_cons_of_mem f member)
    unfold Cache.stageManifest
    split
    · rename_i outside
      have same : c.listed (f :: files) = c.listed files := by simp [Cache.listed, outside]
      rw [same] at apart room
      exact ih servedRest safeRest apart room
    rename_i rel inside
    have first : c.listed (f :: files) = (relParts rel, f.sha256) :: c.listed files := by
      simp [Cache.listed, inside]
    rw [first, map_cons] at apart room
    obtain ⟨apartFirst, apart⟩ := pairwise_cons.mp apart
    have isSafe := safe f mem_cons_self rel inside
    have lands := lands_of_safeKey isSafe
    obtain ⟨entry, data, held, opened, sum⟩ := served f mem_cons_self rel inside
    obtain ⟨clear, free⟩ := room (relParts rel) mem_cons_self
    obtain ⟨host₁, written⟩ := writeFile_serves data lands serves clear free
    rw [if_neg (by simp [isSafe]), alone_get_bind held]
    simp only [opened, sum, ne_eq, not_true_eq_false, if_false, written]
    refine ih servedRest safeRest apart fun parts member => ?_
    exact Room.after lands written (apartFirst parts member) (room parts (mem_cons_of_mem _ member))

section
variable (serves : ∀ n op, world.fails n op = none)
include serves

theorem swappable_of_serves (named : Named c) : Swappable c world :=
  ⟨named, fun n fault failed => by simp [serves] at failed, fun n path => serves n _⟩

theorem clearLive_serves (sites : Sites c parent live old)
    (dir : look host.tree parent = some .dir) :
    ∃ host₁ flag, c.clearLive world host = (host₁, .ok flag) ∧
      (flag = false → look host₁.tree parent = some .dir ∧ entry host₁.tree parent =
          Function.update (entry host.tree parent) live none) ∧
      (flag = true → host₁.tree = host.tree ∧ entry host.tree parent live ≠ none) := by
  obtain ⟨host₁, seen, tree₁⟩ := Host.stat_serves (serves host.log.length (.stat c.cacheDir))
  have here : FileTree.get host.tree (place c.cacheDir.toList) = entry host.tree parent live := by
    rw [sites.livePlace, entry]
  rw [here] at seen
  unfold Cache.clearLive
  by_cases missing : entry host.tree parent live = none
  · rw [if_pos missing] at seen
    refine ⟨host₁, false, by rw [seen], fun _ => ⟨by rw [tree₁, dir], ?_⟩,
      fun flag => by cases flag⟩
    rw [tree₁, ← missing, update_eq_self]
  · rw [if_neg missing] at seen
    rw [seen]
    dsimp only
    split
    · rename_i read
      have tree₂ := (Host.readDir_reads _ _ read).trans tree₁
      split
      · rename_i host₃ removed
        obtain ⟨dir₃, entries⟩ := Host.remove_entry sites.livePlace (tree₂ ▸ dir) removed
        exact ⟨host₃, false, rfl, fun _ => ⟨dir₃, tree₂ ▸ entries⟩, fun flag => by cases flag⟩
      · rename_i host₃ _ removed
        have tree₃ := (Host.attempt_error _ _ removed).trans tree₂
        exact ⟨host₃, true, rfl, (fun flag => by cases flag), fun _ => ⟨tree₃, missing⟩⟩
    · rename_i host₂ _ _ read
      have tree₂ := (Host.readDir_reads _ _ read).trans tree₁
      exact ⟨host₂, true, rfl, (fun flag => by cases flag), fun _ => ⟨tree₂, missing⟩⟩

theorem swapIn_serves (named : Named c) (sites : Sites c parent live old)
    (stagePlace : place stage.toList = parent ++ [name]) (notLive : name ≠ live)
    (notOld : name ≠ old)
    (dir : look host.tree parent = some .dir) (held : entry host.tree parent name = some staged) :
    (c.swapIn world stage host).2 = .ok () := by
  have swappable := swappable_of_serves serves named
  have removed := Host.removeAll_serves (serves host.log.length (.removeAll c.oldDir))
  obtain ⟨dir₁, left, entries₁, gone⟩ := @Host.removeAll_entry _ _ world host _ sites.oldPlace dir
  obtain rfl := gone removed
  unfold Cache.swapIn
  generalize host.removeAll world c.oldDir = outcome at removed dir₁ entries₁
  obtain ⟨host₁, result⟩ := outcome
  subst removed
  have held₁ : entry host₁.tree parent name = some staged := by
    rw [entries₁, update_of_ne notOld, held]
  obtain ⟨host₂, flag, cleared, absent, present⟩ := clearLive_serves serves sites dir₁
  simp only [cleared]
  cases flag with
  | false =>
    obtain ⟨dir₂, entries₂⟩ := absent rfl
    exact (moveIn_arrives swappable sites stagePlace notLive dir₂
      (by rw [entries₂, update_of_ne notLive, held₁])
      (by rw [entries₂, update_self])).1
  | true =>
    obtain ⟨tree₂, there⟩ := present rfl
    obtain ⟨moved, heldLive⟩ := Option.ne_none_iff_exists'.mp there
    have oldFree : look host₂.tree (place c.oldDir.toList) = none := by
      rw [sites.oldPlace, tree₂, look_eq_none, ← entry, entries₁, update_self]
    obtain ⟨host₃, renamed⟩ : ∃ host₃,
        host₂.rename world c.cacheDir c.oldDir = (host₃, .ok ()) := by
      have here : FileTree.get host₂.tree (place c.cacheDir.toList) = some moved := by
        rw [sites.livePlace, tree₂, ← entry, heldLive]
      refine Host.rename_serves (serves _ _) here (by simp [oldFree]) (fun _ => oldFree) ?_ ?_
      · rw [sites.livePlace, sites.oldPlace]
        exact fun _ => (apart_siblings sites.differ).1
      · rw [sites.oldPlace, dropLast_concat, tree₂, dir₁]
    obtain ⟨dir₃, entries₃⟩ := Host.rename_entry sites.livePlace sites.oldPlace renamed
    simp only [renamed]
    exact (moveIn_arrives swappable sites stagePlace notLive dir₃
      (by rw [entries₃, update_of_ne notOld, update_of_ne notLive, tree₂, held₁])
      (by rw [entries₃, update_of_ne sites.differ, update_self])).1

end

/-- Nothing keeps the directory that the cache is in from being made. -/
def Reachable (c : Cache) (host : Host) : Prop :=
  ∀ above, above <+: place (dirPath c.cacheDir).toList → ∀ content,
    look host.tree above ≠ some (.file content)

/-- The disk does what it is asked to and has a place for the directory. -/
structure Ready (c : Cache) (world : World) (host : Host) : Prop where
  serves : ∀ n op, world.fails n op = none
  named : Named c
  reachable : Reachable c host

theorem syncFiles_eq (serves : ∀ n op, world.fails n op = none) (named : Named c)
    (sites : Sites c parent live old) (reachable : Reachable c host) :
    ∃ stage name host₂, place stage.toList = parent ++ [name] ∧ name ≠ live ∧ name ≠ old ∧
      entry host₂.tree parent name = some (.dir []) ∧
      ∀ files, c.syncFiles world files host = c.syncStaged world files stage host₂ >>=
        fun outcome =>
        .done ((outcome.1.removeAll world stage).1, outcome.2) := by
  obtain ⟨host₁, made⟩ :=
    Host.mkdirAll_serves (serves host.log.length (.mkdirAll (dirPath c.cacheDir)))
    reachable
  obtain ⟨tree, here, tree₁⟩ := Host.mkdirAll_ok _ _ made
  have dir₁ : look host₁.tree parent = some .dir := by
    rw [tree₁, ← sites.dirPlace, (mkdirAll_above here (prefix_refl _)).1]
  obtain ⟨host₂, created⟩ :=
    Host.create_serves (fun path => serves host₁.log.length (.mkdirTemp path))
    (sites.dirPlace ▸ dir₁)
  obtain ⟨-, -, tree₂⟩ := Host.create_ok _ _ created
  obtain ⟨name, stagePlace, notLive, notOld⟩ := sites.stagePlace _
    (Host.tempPath_numbered world host₁ (dirPath c.cacheDir) c.stageFront "")
  refine ⟨_, name, host₂, stagePlace, notLive, notOld, ?_, fun files => ?_⟩
  · rw [tree₂, stagePlace, entry_alter dir₁, update_self]
  have slashless : c.stageFront.toList.contains '/' = false := named.slashless
  have temp : host₁.mkdirTemp world (dirPath c.cacheDir) c.stageFront =
      (host₂, .ok (host₁.tempPath world (dirPath c.cacheDir) c.stageFront "")) := by
    rw [Host.mkdirTemp, slashless, if_neg Bool.false_ne_true, created]
  simp only [Cache.syncFiles, made, temp]
  rfl

theorem served_of_syncFiles
    (done : ((c.syncFiles world files host).alone b).2 = (host', .ok count)) :
    ∀ f ∈ files, Served c b f := by
  unfold Cache.syncFiles at done
  dsimp only at done
  split at done
  · cases done
  split at done
  · cases done
  rename_i stage _
  rw [alone_bind] at done
  unfold Cache.syncStaged at done
  split at done
  · cases done
  rename_i host₃ _
  rw [alone_bind] at done
  cases filled : ((c.stageManifest world stage host₃ 0 files).alone b).2 with
  | mk host₄ outcome =>
    rw [filled] at done
    cases outcome with
    | error text => cases done
    | ok total => exact served_of_stageManifest filled

theorem syncFiles_serves (ready : Ready c world host) (pinned : Pinned c files)
    (safe : ∀ f ∈ files, ∀ rel, c.filePath f.key = some rel → safeKey rel = true)
    (apart : ((c.listed files).map Prod.fst).Pairwise Apart)
    (served : ∀ f ∈ files, Served c b f) :
    ∃ host' count, ((c.syncFiles world files host).alone b).2 = (host', .ok count) := by
  obtain ⟨serves, named, reachable⟩ := ready
  obtain ⟨parent, live, old, sites⟩ := named.sites
  obtain ⟨stage, name, host₂, stagePlace, notLive, notOld, fresh, syncs⟩ :=
    syncFiles_eq serves named sites reachable
  obtain ⟨host₃, changed⟩ := Host.chmod_serves (serves host₂.log.length (.chmod stage))
  rw [← Host.chmod_ok _ _ changed] at fresh
  have here : FileTree.get host₃.tree (place stage.toList) = some (.dir []) := by
    rw [stagePlace, ← entry, fresh]
  have nonempty : ∀ parts ∈ (c.listed files).map Prod.fst, parts ≠ [] := by
    intro parts member
    simp only [Cache.listed, mem_map, mem_filterMap, Option.map_eq_some_iff] at member
    obtain ⟨_, ⟨f, among, rel, inside, rfl⟩, rfl⟩ := member
    exact (lands_of_safeKey (safe f among rel inside)).parts
  obtain ⟨host₄, total, filled⟩ :=
    @stageManifest_serves c world host₃ stage files b 0 serves served safe
    apart fun parts member => room_of_fresh (nonempty parts member) here
  obtain ⟨dir₄, -, -⟩ := stageManifest_fills pinned (apart.imp Apart.ne)
    (look_eq_dir.mpr ⟨[], here⟩) (filled ▸ Program.mayReturn_alone _)
  obtain ⟨children, held⟩ := look_eq_dir.mp dir₄
  rw [stagePlace] at dir₄ held
  have up : look host₄.tree parent = some .dir :=
    look_of_below (prefix_append parent [name]) (by simp) (by simp [dir₄])
  have swapped := swapIn_serves serves named sites stagePlace notLive notOld up held
  rw [syncs, alone_bind]
  unfold Cache.syncStaged
  simp only [changed]
  rw [alone_bind, filled]
  dsimp only
  generalize c.swapIn world stage host₄ = outcome at swapped
  obtain ⟨host₅, result⟩ := outcome
  subst swapped
  exact ⟨_, total, rfl⟩

theorem sync_alone {entry : Entry String} (held : b.get keyManifest = some entry)
    (decoded : c.decode entry.value = .ok files) :
    ∃ synced', ((c.sync world host synced).alone b).2 =
      ((((c.syncFiles world files host).alone b).2).1, synced',
        (((c.syncFiles world files host).alone b).2).2) := by
  have loaded : c.loadManifest.alone b = (b, .ok (some files)) := by
    unfold Cache.loadManifest
    rw [alone_get_bind held]
    simp only [decoded]
    rfl
  have revision : (getRevision.alone b).1 = b := by
    unfold getRevision
    cases bumped : b.get keyRevision with
    | none =>
      rw [Program.alone_get_bind_none bumped]
      rfl
    | some bump =>
      rw [alone_get_bind bumped]
      rfl
  unfold Cache.sync
  rw [alone_bind, revision, alone_bind, loaded]
  rw [alone_bind]
  generalize ((c.syncFiles world files host).alone b) = done
  obtain ⟨b', host', text | count⟩ := done
  · exact ⟨synced, rfl⟩
  · exact ⟨_, rfl⟩

section
variable {fileSet : FileSet} {synced : Synced}

/-- The directory contains exactly the files, with their contents. -/
def Contains (tree : Files) (fileSet : FileSet) : Prop :=
  ∀ place content, look tree place = some (.file content) ↔
    ∃ key, fileSet.lookup key = some content ∧ relParts key = place

/-- A sync that has the bucket to itself succeeds and fills the live directory with the files. -/
def Delivers (c : Cache) (world : World) (host : Host) (synced : Synced) (fileSet : FileSet)
    (b : Bucket String String) : Prop :=
  ∃ host' synced' count, ((c.sync world host synced).alone b).2 = (host', synced', .ok count) ∧
    Contains (FileTree.get host'.tree (place c.cacheDir.toList)) fileSet

/-- A cache of all keys that reads what the publisher writes. -/
structure Reads (c : Cache) (p : Publisher) (wire : Wire) : Prop where
  allKeys : c.keyPrefix = "" ∧ c.ignoreKeys = []
  hashFn : c.hashFn = p.hashFn
  manifest : ∀ files text, wire.encode files = .ok text → c.decode text = .ok files
  value :
    ∀ nonce key data stored, p.stored nonce key data = .ok stored → c.plain key stored = .ok data

/-- The keys are clean relative paths, none a directory of another. -/
structure Relative (fileSet : FileSet) : Prop where
  clean : ∀ key ∈ fileSet, IsClean key ∧ safeKey key = true
  flat : ∀ key ∈ fileSet, ∀ key' ∈ fileSet, relParts key <+: relParts key' → key = key'

/-- No file has a name of the bookkeeping. -/
def Unreserved (fileSet : FileSet) : Prop := keyRevision ∉ fileSet ∧ keyManifest ∉ fileSet

/-- Every key holds the content of its file. -/
def Intact (c : Cache) (fileSet : FileSet) (b : Bucket String String) : Prop :=
  ∀ key data, fileSet.lookup key = some data →
    ∃ entry, b.get key = some entry ∧ c.plain key entry.value = .ok data

theorem mem_buildManifestWith :
    f ∈ buildManifestWith fileSet hashFn ↔ ∃ key data, fileSet.lookup key = some data ∧
      f = ⟨key, hashFn data⟩ := by
  simp only [buildManifestWith, mem_insertionSort, mem_map]
  constructor
  · rintro ⟨⟨key, data⟩, member, rfl⟩
    exact ⟨key, data, mem_lookup_iff.mpr member, rfl⟩
  · rintro ⟨key, data, held, rfl⟩
    exact ⟨⟨key, data⟩, mem_lookup_iff.mp held, rfl⟩

theorem mem_of_lookup (held : fileSet.lookup key = some data) : key ∈ fileSet :=
  lookup_isSome.mp (Option.isSome_of_eq_some held)

theorem Unreserved.free (unreserved : Unreserved fileSet) (held : fileSet.lookup key = some data) :
    ¬ (key = keyRevision ∨ key = keyManifest) := by
  rintro (rfl | rfl)
  · exact unreserved.1 (mem_of_lookup held)
  · exact unreserved.2 (mem_of_lookup held)

theorem Reads.filePath (reads : Reads c p wire) :
    c.filePath key = some rel ↔ ¬ (key = keyRevision ∨ key = keyManifest) ∧ key = rel := by
  unfold Cache.filePath Cache.diskPathForKey
  simp [reads.allKeys.1, reads.allKeys.2]

theorem buildManifestWith_keys (hashFn : String → String) :
    ((buildManifestWith fileSet hashFn).map ManifestFile.key).Nodup := by
  have perm : (buildManifestWith fileSet hashFn).Perm
      (fileSet.entries.map fun file => ⟨file.1, hashFn file.2⟩) := perm_insertionSort _ _
  rw [(perm.map ManifestFile.key).nodup_iff, map_map]
  exact fileSet.nodupKeys

variable (reads : Reads c p wire) (relative : Relative fileSet)
include reads

theorem mem_listed_manifest : (parts, sum) ∈ c.listed (buildManifestWith fileSet p.hashFn) ↔
      ∃ key data, fileSet.lookup key = some data ∧ ¬ (key = keyRevision ∨ key = keyManifest) ∧
        relParts key = parts ∧ p.hashFn data = sum := by
  simp only [Cache.listed, mem_filterMap, mem_buildManifestWith, Option.map_eq_some_iff,
    reads.filePath, Prod.mk.injEq]
  constructor
  · rintro ⟨_, ⟨key, data, held, rfl⟩, _, ⟨free, rfl⟩, leads, hashed⟩
    exact ⟨key, data, held, free, leads, hashed⟩
  · rintro ⟨key, data, held, free, leads, hashed⟩
    exact ⟨_, ⟨key, data, held, rfl⟩, key, ⟨free, rfl⟩, leads, hashed⟩

include relative

theorem clean_manifest (member : f ∈ buildManifestWith fileSet p.hashFn)
    (inside : c.filePath f.key = some rel) : IsClean rel ∧ safeKey rel = true := by
  obtain ⟨key, data, held, rfl⟩ := mem_buildManifestWith.mp member
  obtain ⟨-, rfl⟩ := reads.filePath.mp inside
  exact relative.clean key (mem_of_lookup held)

theorem apart_listed_manifest :
    ((c.listed (buildManifestWith fileSet p.hashFn)).map Prod.fst).Pairwise Apart := by
  have tidy : Tidy c (buildManifestWith fileSet p.hashFn) :=
    ⟨buildManifestWith_keys _,
      fun f member rel inside => (clean_manifest reads relative member inside).1⟩
  have keys : ∀ parts ∈ (c.listed (buildManifestWith fileSet p.hashFn)).map Prod.fst,
      ∃ key ∈ fileSet, relParts key = parts := by
    intro parts member
    obtain ⟨_, among, rfl⟩ := mem_map.mp member
    obtain ⟨key, data, held, -, leads, -⟩ := (mem_listed_manifest reads).mp among
    exact ⟨key, mem_of_lookup held, leads⟩
  refine tidy.distinct.pairwise_of_forall_ne fun parts here parts' there differ => ?_
  obtain ⟨key, member, rfl⟩ := keys parts here
  obtain ⟨key', member', rfl⟩ := keys parts' there
  constructor
  · exact fun above => differ (congrArg relParts (relative.flat key member key' member' above))
  · exact fun above => differ (congrArg relParts (relative.flat key' member' key member above)).symm

theorem contains_iff_unreserved (injective : Injective c.hashFn)
    (exactly : Exactly c.hashFn tree (c.listed (buildManifestWith fileSet p.hashFn))) :
    Contains tree fileSet ↔ Unreserved fileSet := by
  have looks : ∀ parts content, look tree parts = some (.file content) ↔
      ∃ key, fileSet.lookup key = some content ∧ ¬ (key = keyRevision ∨ key = keyManifest) ∧
        relParts key = parts := by
    intro parts content
    rw [exactly.files, mem_listed_manifest reads]
    constructor
    · rintro ⟨key, data, held, free, leads, hashed⟩
      rw [← reads.hashFn] at hashed
      exact ⟨key, injective hashed ▸ held, free, leads⟩
    · rintro ⟨key, held, free, leads⟩
      exact ⟨key, content, held, free, leads, by rw [reads.hashFn]⟩
  constructor
  · intro contains
    have outside : ∀ key, key = keyRevision ∨ key = keyManifest → key ∉ fileSet := by
      intro key reserved member
      obtain ⟨data, held⟩ := Option.isSome_iff_exists.mp (lookup_isSome.mpr member)
      obtain ⟨key', held', free, leads⟩ :=
        (looks _ _).mp ((contains (relParts key) data).mpr ⟨key, held, rfl⟩)
      have same := relative.flat key' (mem_of_lookup held') key member (leads ▸ prefix_refl _)
      exact free (same ▸ reserved)
    exact ⟨outside _ (.inl rfl), outside _ (.inr rfl)⟩
  · intro unreserved parts content
    rw [looks]
    constructor
    · rintro ⟨key, held, -, leads⟩
      exact ⟨key, held, leads⟩
    · rintro ⟨key, held, leads⟩
      exact ⟨key, held, unreserved.free held, leads⟩

/-- A sync delivers the files exactly if the bucket holds what its manifest lists. -/
theorem delivers_iff_served (ready : Ready c world host) (injective : Injective c.hashFn)
    (encodes : wire.encode (buildManifestWith fileSet p.hashFn) = .ok encoded)
    (holds : HoldsManifest encoded b) : Delivers c world host synced fileSet b ↔
      (∀ f ∈ buildManifestWith fileSet p.hashFn, Served c b f) ∧ Unreserved fileSet := by
  obtain ⟨entry, held, rfl⟩ := holds
  obtain ⟨synced', syncs⟩ :=
    @sync_alone c world host _ b synced entry held (reads.manifest _ _ encodes)
  have apart := apart_listed_manifest reads relative
  have delivered : ∀ outcome,
      ((c.syncFiles world (buildManifestWith fileSet p.hashFn) host).alone b).2 = outcome →
      Delivered c (buildManifestWith fileSet p.hashFn)
        (FileTree.get host.tree (place c.cacheDir.toList))
        (FileTree.get outcome.1.tree (place c.cacheDir.toList)) outcome.2 := by
    rintro outcome rfl
    exact syncFiles_spec (swappable_of_serves ready.serves ready.named)
      (pinned_of_injective injective _)
      (apart.imp Apart.ne) (Program.mayReturn_alone _)
  have succeeds : (∃ host' count,
      ((c.syncFiles world (buildManifestWith fileSet p.hashFn) host).alone b).2 =
      (host', .ok count)) ↔ ∀ f ∈ buildManifestWith fileSet p.hashFn, Served c b f :=
    ⟨fun ⟨_, _, done⟩ => served_of_syncFiles done,
      syncFiles_serves ready (pinned_of_injective injective _)
        (fun f member rel inside => (clean_manifest reads relative member inside).2) apart⟩
  unfold Delivers
  rw [syncs, ← succeeds]
  cases done : ((c.syncFiles world (buildManifestWith fileSet p.hashFn) host).alone b).2 with
  | mk host' outcome =>
  replace delivered := delivered _ done
  obtain text | count := outcome
  · constructor
    · rintro ⟨_, _, _, failed, -⟩
      cases (Prod.mk.inj (Prod.mk.inj failed).2).2
    · rintro ⟨⟨_, _, failed⟩, -⟩
      cases (Prod.mk.inj failed).2
  · have contains := contains_iff_unreserved reads relative injective delivered
    constructor
    · rintro ⟨_, _, _, same, contained⟩
      cases same
      exact ⟨⟨_, _, rfl⟩, contains.mp contained⟩
    · rintro ⟨-, unreserved⟩
      exact ⟨_, _, _, rfl, contains.mpr unreserved⟩

omit relative in
theorem served_of_holdsFiles (holds : HoldsFiles p attempt b) :
    ∀ f ∈ buildManifestWith attempt.files p.hashFn, Served c b f := by
  intro f member rel inside
  obtain ⟨key, data, listed, rfl⟩ := mem_buildManifestWith.mp member
  obtain ⟨free, -⟩ := reads.filePath.mp inside
  obtain ⟨entry, held, stored⟩ := holds ⟨key, data⟩ (by
    simpa [mem_lookup_iff.mp listed, not_or] using free)
  exact ⟨entry, data, held, reads.value _ _ _ _ stored, by rw [reads.hashFn]⟩

omit relative in
theorem served_iff_intact (injective : Injective c.hashFn) (unreserved : Unreserved fileSet) :
    (∀ f ∈ buildManifestWith fileSet p.hashFn, Served c b f) ↔ Intact c fileSet b := by
  constructor
  · intro served key data listed
    obtain ⟨entry, data', held, opened, sum⟩ := served ⟨key, p.hashFn data⟩
      (mem_buildManifestWith.mpr ⟨key, data, listed, rfl⟩) key
      (reads.filePath.mpr ⟨unreserved.free listed, rfl⟩)
    rw [← reads.hashFn] at sum
    exact ⟨entry, held, injective sum ▸ opened⟩
  · intro intact f member rel _
    obtain ⟨key, data, listed, rfl⟩ := mem_buildManifestWith.mp member
    obtain ⟨entry, held, opened⟩ := intact key data listed
    exact ⟨entry, data, held, opened, by rw [reads.hashFn]⟩

end

/-- What a successful attempt published is delivered exactly if no file has a reserved name
and, where the gate takes the stored manifest for a completed publish of the same files, the
keys hold the contents of these files. -/
theorem publish_delivers_iff (p : Publisher) (wire : Wire) (c : Cache) (reads : Reads c p wire)
    (collisionFree : Injective c.hashFn) (world : World) (host : Host)
    (ready : Ready c world host) (synced : Synced) (b : Bucket String String) (attempt : Attempt)
    (relative : Relative attempt.files) (b' : Bucket String String) (result : Result)
    (run : Regime.failingWrites.Runs (b, p.publishFiles wire attempt) (b', .done (.ok result))) :
    Delivers c world host synced attempt.files b' ↔
      Unreserved attempt.files ∧ (Gated p wire attempt b → Intact c attempt.files b) := by
  obtain ⟨-, ensures⟩ := publishFiles_spec.runs trivial run
  obtain ⟨encoded, encodes, manifest, after⟩ := ensures b' (.refl trivial) result rfl
  rw [delivers_iff_served reads relative ready collisionFree encodes manifest]
  obtain ⟨gated, rfl⟩ | ⟨closed, holds⟩ := after
  · rw [and_comm]
    refine and_congr_right fun unreserved => ?_
    rw [served_iff_intact reads collisionFree unreserved]
    exact ⟨fun intact _ => intact, fun intact => intact gated⟩
  · have served := served_of_holdsFiles reads holds
    exact ⟨fun ⟨_, unreserved⟩ => ⟨unreserved, fun gated => absurd gated closed⟩,
      fun ⟨unreserved, _⟩ => ⟨served, unreserved⟩⟩

/-- The buckets that the attempts of one publisher may leave behind, each of which may fail
at any of its writes or end early. -/
inductive History (p : Publisher) (wire : Wire) : Bucket String String → Prop where
  | start : History p wire .empty
  | attempt {b b' : Bucket String String} (before : History p wire b) (attempt : Attempt)
      {rest : BusM (Except String Result)}
      (run : Regime.failingWrites.Runs (b, p.publishFiles wire attempt) (b', rest)) :
      History p wire b'

theorem sampleCache_reads : Reads sampleCache samplePublisher sampleWire where
  allKeys := ⟨rfl, rfl⟩
  hashFn := rfl
  manifest := by
    intro files text encoded
    simp only [sampleWire, sampleCache, newCache, Option.getD] at encoded ⊢
    split at encoded
    · cases encoded
      simp [*]
    split at encoded
    · cases encoded
      have other : samplePacked "2" ≠ samplePacked "1" := by decide
      simp [*]
    · cases encoded
  value := by
    intro nonce key data stored encoded
    cases encoded
    rfl

theorem sampleCache_ready : Ready sampleCache .calm sampleHost where
  serves := fun _ _ => rfl
  named := sampleCache_named
  reachable := by
    intro above up content
    obtain rfl : above = [] := prefix_nil.mp up
    simp [sampleHost, look, kind]

theorem sampleFiles_relative (port : String) : Relative (sampleFiles port) := by
  have key : ∀ key ∈ sampleFiles port, key = "app.zy" := by
    intro key member
    simpa only [sampleFiles, mem_insert, notMem_empty, or_false] using member
  refine ⟨fun k member => ?_,
    fun k member k' member' _ => (key k member).trans (key k' member').symm⟩
  rw [key k member]
  exact ⟨⟨by decide, by decide⟩, by decide⟩

def samplePublish (port : String) : BusM (Except String Result) :=
  samplePublisher.publishFiles sampleWire ⟨.listed, sampleFiles port, false, 0⟩

def sampleBucket : Bucket String String :=
  ((samplePublish "1").play .empty (replicate 6 .served)).1

theorem publish_delivers_iff_first :
    Delivers sampleCache .calm sampleHost ⟨0, false⟩ (sampleFiles "1") sampleBucket := by
  have run : Regime.failingWrites.Runs (.empty, samplePublish "1")
      (sampleBucket, .done (.ok ⟨1, true⟩)) :=
    play_runs (fun _ write => write) (fun _ _ => trivial) .empty (samplePublish "1")
      (replicate 6 .served)
  refine (publish_delivers_iff samplePublisher sampleWire sampleCache sampleCache_reads
    sampleHash_injective .calm sampleHost sampleCache_ready ⟨0, false⟩ .empty
    ⟨.listed, sampleFiles "1", false, 0⟩ (sampleFiles_relative "1") sampleBucket ⟨1, true⟩ run).mpr
    ⟨⟨by decide, by decide⟩, ?_⟩
  rintro ⟨-, encoded, -, stored, bump, held, -⟩
  cases held

def tornBucket : Bucket String String :=
  ((samplePublish "2").play sampleBucket [.served, .served, .lost "timeout"]).1

theorem tornBucket_history : History samplePublisher sampleWire tornBucket :=
  .attempt (.attempt .start ⟨.listed, sampleFiles "1", false, 0⟩
      (play_runs (fun _ write => write) (fun _ _ => trivial) _ _ (replicate 6 .served)))
    ⟨.listed, sampleFiles "2", false, 0⟩
    (play_runs (fun _ write => write) (fun _ _ => trivial) _ _
      [.served, .served, .lost "timeout"])

/-- Publishing the first version again succeeds, and the sync that follows fails. -/
theorem gate_leaves_torn : History samplePublisher sampleWire tornBucket ∧
    Regime.failingWrites.Runs (tornBucket, samplePublish "1") (tornBucket, .done (.ok ⟨1, false⟩)) ∧
    ¬ Delivers sampleCache .calm sampleHost ⟨0, false⟩ (sampleFiles "1") tornBucket := by
  refine ⟨tornBucket_history, ?_, ?_⟩
  · exact play_runs (fun _ write => write) (fun _ _ => trivial) tornBucket (samplePublish "1")
      (replicate 3 .served)
  rintro ⟨host', synced', count, synced, -⟩
  have failed : ((sampleCache.sync .calm sampleHost ⟨0, false⟩).alone tornBucket).2.2.2 =
      .error "statefiles: hash mismatch for app.zy" := rfl
  rw [synced] at failed
  cases failed

end Zester.StateFiles
