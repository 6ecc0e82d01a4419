import Zester.StateFiles.WriteProofs

/-! Which paths a cache touches. A key that passes the safety check leads below the
directory that it is joined to; the removal of a single key makes no such check. -/
namespace Zester.StateFiles
open List hiding count

/-- The path leads to the directory or to something below it. -/
def Inside (dir path : String) : Prop :=
  ∃ rest, place path.toList = place dir.toList ++ rest ∧ ∀ part ∈ rest, IsName part

namespace Inside

theorem refl (dir : String) : Inside dir dir := ⟨[], by simp, by simp⟩

theorem join (stays : Stays dir rel) : Inside dir (joinPath [dir, rel]) :=
  ⟨relParts rel, place_joinPath stays, relParts_names stays.1⟩

theorem entry (inside : Inside dir path) (nonempty : path ≠ "") (isName : IsName name.toList) :
    Inside dir (entryPath path name) := by
  obtain ⟨rest, leads, names⟩ := inside
  exact ⟨rest ++ [name.toList], by rw [place_entryPath nonempty isName, leads, append_assoc],
    forall_mem_append.mpr ⟨names, by simpa using isName⟩⟩

end Inside

theorem Lands.inside (lands : Lands key) (dir : String) : Inside dir (joinPath [dir, key]) :=
  .join (lands.stays dir)

theorem Lands.inside_dir (lands : Lands key) (dir : String) :
    Inside dir (dirPath (joinPath [dir, key])) :=
  ⟨_, lands.place_dir dir, fun part member =>
    relParts_names lands.low part (dropLast_subset _ member)⟩

variable {c : Cache} {world : World} {host : Host}

/-- The directories of the cache: the live one, the one that is moved aside and those for
staging. -/
def IsRoot (c : Cache) (root : String) : Prop :=
  root = c.cacheDir ∨ root = c.oldDir ∨ IsStage c root

/-- The path lies inside one of the directories of the cache. -/
def Own (c : Cache) (path : String) : Prop := ∃ root, IsRoot c root ∧ Inside root path

theorem IsRoot.own (isRoot : IsRoot c root) : Own c root :=
  ⟨root, isRoot, .refl root⟩

/-- What an operation writes or removes belongs to the cache; the directory that the cache
is in may be created. -/
def Contained (c : Cache) : DiskOp → Prop
  | .mkdirAll path => Own c path ∨ path = dirPath c.cacheDir
  | .mkdirTemp path | .createTemp path | .chmod path | .write path | .remove path
  | .removeAll path => Own c path
  | .rename old new => Own c old ∧ Own c new
  | .stat _ | .readDir _ | .readFile _ | .walk _ => True

/-- Only contained operations were added to the log. -/
def Adds (c : Cache) (host host' : Host) : Prop := ∀ op ∈ host'.log, op ∈ host.log ∨ Contained c op

theorem Adds.refl (host : Host) : Adds c host host := fun _ member => .inl member

theorem Adds.trans (first : Adds c host host') (second : Adds c host' host'') :
    Adds c host host'' :=
  fun op member => (second op member).elim (first op) .inr

theorem adds_of_log (log : host'.log = op :: host.log) (contained : Contained c op) :
    Adds c host host' := by
  intro other member
  rw [log] at member
  obtain rfl | earlier := mem_cons.mp member
  · exact .inr contained
  · exact .inl earlier

theorem adds_attempt (contained : Contained c op) : Adds c host (host.attempt world op act).1 :=
  adds_of_log (Host.log_attempt op act) contained

theorem adds_create {op : String → DiskOp}
    (contained : Contained c (op (host.tempPath world dir front back))) :
    Adds c host (host.create world op dir front back entry).1 :=
  adds_of_log (Host.log_attempt _ _) contained

theorem adds_removeAll (own : Own c path) : Adds c host (host.removeAll world path).1 :=
  adds_of_log (Host.log_removeAll path) own

theorem Adds.step (same : host.attempt world op act = (host', answer))
    (contained : Contained c op) : Adds c host host' := by
  have adds : Adds c host (host.attempt world op act).1 := adds_attempt contained
  rwa [same] at adds

theorem adds_remove (own : Own c path) : Adds c host (host.remove world path).1 :=
  adds_attempt own

theorem own_temp (isRoot : IsRoot c root) (lands : Lands key)
    (temp : IsTemp (dirPath (joinPath [root, key])) tmp) : Own c tmp := by
  obtain ⟨k, rfl⟩ := temp
  exact ⟨root, isRoot, (lands.inside_dir root).entry (dirPath_ne_empty _) (isName_temp k)⟩

theorem writeFile_adds (isRoot : IsRoot c root) (lands : Lands key) :
    Adds c host (writeFile world host root key data).1 := by
  have target : Own c (joinPath [root, key]) := ⟨root, isRoot, lands.inside root⟩
  have parent : Own c (dirPath (joinPath [root, key])) := ⟨root, isRoot, lands.inside_dir root⟩
  have own := fun tmp => @own_temp c root key tmp isRoot lands
  refine writeFile_relates rfl .trans ?_ ?_ ?_ ?_ ?_ ?_
  · exact fun host => adds_attempt (.inl parent)
  · intro host
    exact adds_create (own _ (Host.tempPath_numbered world host _ _ _))
  · exact fun host tmp temp => adds_attempt (own tmp temp)
  · exact fun host tmp temp => adds_attempt (own tmp temp)
  · exact fun host tmp temp => adds_attempt ⟨own tmp temp, target⟩
  · exact fun host tmp temp => adds_remove (own tmp temp)

section
variable {stage : String}

theorem isRoot_live : IsRoot c c.cacheDir := .inl rfl
theorem isRoot_old : IsRoot c c.oldDir := .inr (.inl rfl)

theorem mirrorFiles_adds (lands : ∀ rel ∈ files, Lands rel) :
    Adds c host (c.mirrorFiles world stage host files).1 := by
  induction files generalizing host with
  | nil => exact .refl host
  | cons rel files ih =>
    unfold Cache.mirrorFiles
    split
    · rename_i read
      exact .step read trivial
    rename_i host₁ data read
    refine (Adds.step read trivial).trans ?_
    have writes :=
      @writeFile_adds c world host₁ c.cacheDir rel data isRoot_live (lands rel (by simp))
    split
    · rename_i written
      rwa [written] at writes
    · rename_i written
      rw [written] at writes
      exact writes.trans (ih fun other member => lands other (by simp [member]))

theorem pruneFiles_adds {staged files : List String} (lands : ∀ rel ∈ files, Lands rel) :
    Adds c host (c.pruneFiles world staged host files).1 := by
  induction files generalizing host with
  | nil => exact .refl host
  | cons rel files ih =>
    have rest := fun host : Host => @ih host fun other member => lands other (by simp [member])
    have own : Own c (joinPath [c.cacheDir, rel]) :=
      ⟨_, isRoot_live, (lands rel (by simp)).inside c.cacheDir⟩
    unfold Cache.pruneFiles
    split
    · exact rest host
    split <;> rename_i removed
    · exact (Adds.step removed own).trans (rest _)
    · exact (Adds.step removed own).trans (rest _)
    · exact .step removed own

theorem pruneDirs_adds (own : ∀ path ∈ dirs, Own c path) :
    Adds c host (Cache.pruneDirs world host dirs) := by
  induction dirs generalizing host with
  | nil => exact .refl host
  | cons path dirs ih =>
    exact (adds_remove (own path (by simp))).trans
      (ih fun other member => own other (by simp [member]))

theorem walk_lands (walked : host.walk world path = (host', .ok entries))
    (member : (rel, isFile) ∈ entries) : Lands rel := by
  have carried := Host.attempt_ok world host walked
  split at carried
  · cases carried
  rename_i found _
  obtain ⟨-, rfl⟩ := Prod.mk.inj (Except.ok.inj carried)
  simp only [mem_map, mem_filter, all_eq_true, decide_eq_true_eq] at member
  obtain ⟨entry, ⟨below, names⟩, same⟩ := member
  cases same
  exact lands_of_names names (FileTree.walk_ne_nil below)

theorem walk_files_lands (walked : host.walk world path = (host', .ok entries)) :
    ∀ rel ∈ (entries.filter Prod.snd).map Prod.fst, Lands rel := by
  intro rel member
  simp only [mem_map, mem_filter] at member
  obtain ⟨entry, ⟨among, -⟩, rfl⟩ := member
  exact walk_lands walked among

theorem pruneUnstaged_adds : Adds c host (c.pruneUnstaged world staged host).1 := by
  unfold Cache.pruneUnstaged
  split <;> rename_i walked
  · exact .step walked trivial
  · exact .step walked trivial
  rename_i host₁ entries
  refine (Adds.step walked trivial).trans ?_
  dsimp only
  have prunes := @pruneFiles_adds c world host₁ staged _ (walk_files_lands walked)
  split
  · rename_i pruned
    rwa [pruned] at prunes
  rename_i pruned
  rw [pruned] at prunes
  refine prunes.trans (pruneDirs_adds fun path member => ?_)
  simp only [mem_insertionSort, mem_map, mem_filter] at member
  obtain ⟨entry, ⟨among, -⟩, rfl⟩ := member
  exact ⟨_, isRoot_live, (walk_lands walked among).inside c.cacheDir⟩

theorem syncInPlace_adds : Adds c host (c.syncInPlace world stage host).1 := by
  unfold Cache.syncInPlace
  split
  · rename_i walked
    exact .step walked trivial
  rename_i host₁ entries walked
  refine (Adds.step walked trivial).trans ?_
  dsimp only
  have mirrors := @mirrorFiles_adds c world host₁ stage _ (walk_files_lands walked)
  split
  · rename_i mirrored
    rwa [mirrored] at mirrors
  · rename_i mirrored
    rw [mirrored] at mirrors
    exact mirrors.trans pruneUnstaged_adds

theorem clearLive_adds : Adds c host (c.clearLive world host).1 := by
  have live : Own c c.cacheDir := isRoot_live.own
  unfold Cache.clearLive
  split <;> rename_i seen
  · exact .step seen trivial
  · exact .step seen trivial
  refine (Adds.step seen trivial).trans ?_
  split <;> rename_i read
  · refine (Adds.step read trivial).trans ?_
    split <;> rename_i removed <;> exact .step removed live
  · exact .step read trivial

theorem moveIn_adds (isStage : IsStage c stage) (liveExists : Bool) :
    Adds c host (c.moveIn world stage liveExists host).1 := by
  have staged : Own c stage := IsRoot.own (.inr (.inr isStage))
  have live : Own c c.cacheDir := isRoot_live.own
  have old : Own c c.oldDir := isRoot_old.own
  unfold Cache.moveIn
  split <;> rename_i moved <;> refine (Adds.step moved ⟨staged, live⟩).trans ?_ <;> split
  · exact adds_attempt ⟨old, live⟩
  · exact .refl _
  · exact adds_removeAll old
  · exact .refl _

theorem swapIn_adds (isStage : IsStage c stage) : Adds c host (c.swapIn world stage host).1 := by
  have live : Own c c.cacheDir := isRoot_live.own
  have old : Own c c.oldDir := isRoot_old.own
  have removes : Adds c host (host.removeAll world c.oldDir).1 := adds_removeAll old
  unfold Cache.swapIn
  split
  · rename_i removed
    rwa [removed] at removes
  rename_i host₁ removed
  rw [removed] at removes
  refine removes.trans ?_
  have clears := @clearLive_adds c world host₁
  split
  · rename_i cleared
    rwa [cleared] at clears
  · rename_i cleared
    rw [cleared] at clears
    exact clears.trans (moveIn_adds isStage false)
  rename_i cleared
  rw [cleared] at clears
  refine clears.trans ?_
  split <;> rename_i moved
  · exact (Adds.step moved ⟨live, old⟩).trans syncInPlace_adds
  · exact (Adds.step moved ⟨live, old⟩).trans syncInPlace_adds
  · exact .step moved ⟨live, old⟩
  · exact (Adds.step moved ⟨live, old⟩).trans (moveIn_adds isStage true)

end

theorem stageManifest_adds (isStage : IsStage c stage)
    (returns : (c.stageManifest world stage host count files).MayReturn (host', result)) :
    Adds c host host' :=
  stageManifest_relates .refl .trans
    (fun _ _ _ lands => writeFile_adds (.inr (.inr isStage)) lands) returns

theorem syncStaged_adds (isStage : IsStage c stage)
    (returns : (c.syncStaged world files stage host).MayReturn (host', result)) :
    Adds c host host' := by
  have staged : Own c stage := IsRoot.own (.inr (.inr isStage))
  unfold Cache.syncStaged at returns
  split at returns
  · rename_i changed
    cases returns
    exact .step changed staged
  rename_i changed
  refine (Adds.step changed staged).trans ?_
  obtain ⟨⟨host₂, outcome⟩, filled, returns⟩ := Program.mayReturn_bind.mp returns
  refine (stageManifest_adds isStage filled).trans ?_
  have swaps := @swapIn_adds c world host₂ stage isStage
  cases outcome with
  | error text =>
    cases returns
    exact .refl _
  | ok count =>
    dsimp only at returns
    split at returns
    · rename_i swapped
      cases returns
      rwa [swapped] at swaps
    · rename_i swapped
      cases returns
      rwa [swapped] at swaps

theorem syncFiles_adds
    (returns : (c.syncFiles world files host).MayReturn (host', result)) : Adds c host host' := by
  unfold Cache.syncFiles at returns
  dsimp only at returns
  split at returns
  · rename_i made
    cases returns
    exact .step made (.inr rfl)
  rename_i host₁ made
  refine (Adds.step made (.inr rfl)).trans ?_
  have isStage : IsStage c (host₁.tempPath world (dirPath c.cacheDir) c.stageFront "") :=
    Host.tempPath_numbered world host₁ (dirPath c.cacheDir) c.stageFront ""
  have staged := IsRoot.own (.inr (.inr isStage))
  split at returns
  · rename_i created
    cases returns
    cases slashless : c.stageFront.toList.contains '/' with
    | false =>
      rw [Host.mkdirTemp, slashless, if_neg Bool.false_ne_true] at created
      have adds := @adds_create c world host₁ _ _ "" (.dir []) .mkdirTemp staged
      rwa [created] at adds
    | true =>
      rw [Host.mkdirTemp, slashless, if_pos rfl] at created
      cases created
      exact .refl _
  rename_i stage created
  obtain ⟨slashless, made⟩ := Host.mkdirTemp_ok _ _ created
  obtain ⟨rfl, -⟩ := Host.create_ok _ _ made
  have adds := @adds_create c world host₁ _ _ "" (.dir []) .mkdirTemp staged
  rw [made] at adds
  refine adds.trans ?_
  obtain ⟨⟨host₃, outcome⟩, filled, returns⟩ := Program.mayReturn_bind.mp returns
  cases returns
  exact (syncStaged_adds isStage filled).trans (adds_removeAll staged)

theorem sync_adds
    (returns : (c.sync world host synced).MayReturn (host', synced', result)) :
    Adds c host host' := by
  obtain ⟨targetRev, -, returns⟩ := Program.mayReturn_bind.mp returns
  obtain ⟨loaded, -, returns⟩ := Program.mayReturn_bind.mp returns
  obtain text | _ | files := loaded
  · cases returns
    exact .refl _
  · obtain ⟨listed, -, returns⟩ := Program.mayReturn_bind.mp returns
    obtain text | _ | ⟨key, fileKeys⟩ := listed
    all_goals
      cases returns
      exact .refl _
  · obtain ⟨⟨host₁, outcome⟩, filled, returns⟩ := Program.mayReturn_bind.mp returns
    obtain text | count := outcome
    all_goals
      cases returns
      exact syncFiles_adds filled

/-- A single key that is removed does not lead out of the directory. -/
def Harmless (c : Cache) (entry : KVUpdate) : Prop :=
  c.decodeValue = none → c.onSynced = false → entry.op ≠ .put →
    ∀ rel, c.filePath entry.key = some rel → Stays c.cacheDir rel

theorem handleUpdate_adds
    (stays : entry.op ≠ .put → ∀ rel, c.filePath entry.key = some rel → Stays c.cacheDir rel) :
    Adds c host (c.handleUpdate world entry host) := by
  unfold Cache.handleUpdate
  split
  · exact .refl host
  rename_i rel here
  have removes (deletes : entry.op ≠ .put) :
      Adds c host (host.remove world (joinPath [c.cacheDir, rel])).1 :=
    adds_remove ⟨_, isRoot_live, .join (stays deletes rel here)⟩
  split
  · rename_i deletes
    exact removes (by simp [deletes])
  · rename_i purges
    exact removes (by simp [purges])
  · split
    · exact .refl host
    rename_i safe
    split
    · exact .refl host
    · exact writeFile_adds isRoot_live (lands_of_safeKey (by simpa using safe))

theorem watchAll_adds (harmless : Harmless c entry)
    (returns : (c.watchAll world entry host synced).MayReturn (host', synced')) :
    Adds c host host' := by
  unfold Cache.watchAll at returns
  split at returns
  · obtain ⟨⟨host₁, synced₁, outcome⟩, synced, returns⟩ := Program.mayReturn_bind.mp returns
    cases returns
    exact sync_adds synced
  · rename_i single
    simp only [Bool.or_eq_true, not_or, Option.isSome_iff_ne_none, ne_eq, not_not, Bool.not_eq_true]
      at single
    cases returns
    exact handleUpdate_adds (harmless single.1 single.2)

/-- What a cache does at a time. -/
inductive Activity where
  | sync
  | event (entry : KVUpdate)

def Acts (c : Cache) (world : World) : Activity → Host × Synced → Host × Synced → Prop
  | .sync, s, s' => ∃ result, (c.sync world s.1 s.2).MayReturn (s'.1, s'.2, result)
  | .event entry, s, s' => (c.watchAll world entry s.1 s.2).MayReturn s'

/-- An activity that is no removal of a key that leads out of the directory. -/
def HarmlessStep (c : Cache) (world : World) (s s' : Host × Synced) : Prop :=
  ∃ activity, Acts c world activity s s' ∧ ∀ entry, activity = .event entry → Harmless c entry

theorem harmlessStep_adds (step : HarmlessStep c world s s') : Adds c s.1 s'.1 := by
  obtain ⟨activity, acts, harmless⟩ := step
  cases activity with
  | sync =>
    obtain ⟨result, returns⟩ := acts
    exact sync_adds returns
  | event entry => exact watchAll_adds (harmless entry rfl) acts

/-- Whatever the manifests list and the entries are, a cache works inside its directories
as long as no removal of a single key leads out. -/
theorem cache_stays_inside {s s' : Host × Synced} (fresh : s.1.log = [])
    (runs : Relation.ReflTransGen (HarmlessStep c world) s s') :
    ∀ op ∈ s'.1.log, Contained c op := by
  have adds : Adds c s.1 s'.1 := by
    induction runs with
    | refl => exact .refl _
    | tail _ step ih => exact ih.trans (harmlessStep_adds step)
  intro op member
  obtain earlier | contained := adds op member
  · rw [fresh] at earlier
    cases earlier
  · exact contained

def stateFiles : Cache :=
  newCache id ⟨fun _ => .error "", fun _ => .ok [], fun _ => ""⟩
    { cacheDir := "/var/cache/zester/states" }

theorem cache_stays_inside_removed :
    Contained stateFiles (.remove "/var/cache/zester/states/web/nginx.zy") := by
  have harmless : Harmless stateFiles ⟨"web/nginx.zy", .delete, ""⟩ := by
    intro _ _ _ rel here
    obtain rfl : "web/nginx.zy" = rel := Option.some.inj here
    exact ⟨by decide, fun _ => by decide⟩
  have step : HarmlessStep stateFiles .calm (⟨none, []⟩, ⟨0, false⟩)
      (⟨none, [.remove (joinPath ["/var/cache/zester/states", "web/nginx.zy"])]⟩, ⟨0, false⟩) :=
    ⟨.event ⟨"web/nginx.zy", .delete, ""⟩, rfl,
      fun entry same => Activity.event.inj same ▸ harmless⟩
  have target : joinPath ["/var/cache/zester/states", "web/nginx.zy"] =
      "/var/cache/zester/states/web/nginx.zy" := by decide
  have inside := cache_stays_inside rfl (.single step) _ (mem_singleton.mpr rfl)
  rwa [target] at inside

def neighbour : Host :=
  ⟨some (.dir [([], .dir [("var".toList, .dir [("cache".toList, .dir [("zester".toList,
    .dir [("x".toList, .file "kept")])])])])]), []⟩

/-- The removal of a key with dots takes away a file that is not in the cache. -/
theorem removed_key_leads_out :
    ∃ s, Acts stateFiles .calm (.event ⟨"a/../../x", .delete, ""⟩) (neighbour, ⟨0, false⟩) s ∧
      FileTree.look neighbour.tree (place "/var/cache/zester/x".toList) = some (.file "kept") ∧
      FileTree.look s.1.tree (place "/var/cache/zester/x".toList) = none ∧
      ¬ ∀ op ∈ s.1.log, Contained stateFiles op := by
  have target : joinPath ["/var/cache/zester/states", "a/../../x"] = "/var/cache/zester/x" := by
    decide
  refine ⟨_, rfl, by decide, by decide, fun inside => ?_⟩
  obtain ⟨root, isRoot, rest, leads, -⟩ : Own stateFiles "/var/cache/zester/x" := by
    have own := inside (.remove (joinPath ["/var/cache/zester/states", "a/../../x"]))
      (mem_singleton.mpr rfl)
    rwa [target] at own
  have begins : place root.toList <+: place "/var/cache/zester/x".toList := ⟨rest, leads.symm⟩
  obtain rfl | rfl | ⟨number, rfl⟩ := isRoot
  · exact absurd begins (by decide)
  · exact absurd begins (by decide)
  · have name : IsName (stateFiles.stageFront ++ toString number ++ "").toList :=
      isName_numbered (by decide) (by decide) (by decide) number
    have dir : place (dirPath stateFiles.cacheDir).toList =
        [[], "var".toList, "cache".toList, "zester".toList] := by decide
    have file : place "/var/cache/zester/x".toList =
        [[], "var".toList, "cache".toList, "zester".toList, "x".toList] := by decide
    rw [place_entryPath (dirPath_ne_empty _) name, dir, file] at begins
    have front : stateFiles.stageFront = ".states.sync-" := by decide
    simp [front] at begins

end Zester.StateFiles
