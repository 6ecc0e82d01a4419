import Zester.StateFiles.WriteProofs

/-! A sync fills a staging directory with what a manifest lists and swaps it in, or leaves
the live directory as it is. -/
namespace Zester.StateFiles
open FileTree
open Function
open List hiding count
open Host

variable {c : Cache} {world : World} {host : Host} {stage : String}

def Named (c : Cache) : Prop :=
  ∃ front base, c.cacheDir.toList = front ++ base ∧ (front = [] ∨ front.getLast? = some '/') ∧
    IsName base

/-- The directories of a cache are entries of one directory, under different names. -/
structure Sites (c : Cache) (parent : List Text) (live old : Text) : Prop where
  differ : live ≠ old
  dirPlace : place (dirPath c.cacheDir).toList = parent
  livePlace : place c.cacheDir.toList = parent ++ [live]
  oldPlace : place c.oldDir.toList = parent ++ [old]
  stagePlace : ∀ stage, IsStage c stage →
    ∃ name, place stage.toList = parent ++ [name] ∧ name ≠ live ∧ name ≠ old

theorem stageFront_chars (split : c.cacheDir.toList = front ++ base)
    (slash : front = [] ∨ front.getLast? = some '/') (isName : IsName base) :
    c.stageFront.toList = '.' :: base ++ ".sync-".toList := by
  rw [Cache.stageFront, basePath_base split slash isName]
  simp

theorem Named.slashless (named : Named c) : c.stageFront.toList.contains '/' = false := by
  obtain ⟨front, base, split, slash, isName⟩ := named
  simp [stageFront_chars split slash isName, isName.slashless]

theorem Named.sites (named : Named c) : ∃ parent live old, Sites c parent live old := by
  obtain ⟨front, base, split, slash, isName⟩ := named
  have oldPath : c.oldDir.toList = front ++ (base ++ ".old".toList) := by
    rw [Cache.oldDir, String.toList_append, split, append_assoc]
  have oldName : IsName (base ++ ".old".toList) := by
    refine ⟨by simp, ?_, ?_, ?_⟩
    · exact fun short => by simpa using congrArg length short
    · exact fun short => by simpa [dotDot] using congrArg length short
    · simp [isName.slashless]
  have stageFront := stageFront_chars split slash isName
  refine ⟨place front, base, base ++ ".old".toList, by simp, ?_, ?_, ?_, ?_⟩
  · rw [dirPath_base split slash isName.slashless, place_ofList_cleanPath]
  · rw [split, place_base slash isName]
  · rw [oldPath, place_base slash oldName]
  · rintro stage ⟨number, rfl⟩
    have name : IsName (c.stageFront ++ toString number ++ "").toList :=
      isName_numbered (by simp [stageFront]) (by simp [stageFront, isName.slashless])
        (by simp) number
    refine ⟨(c.stageFront ++ toString number ++ "").toList, ?_, ?_, ?_⟩
    · rw [place_entryPath (dirPath_ne_empty _) name, dirPath_base split slash isName.slashless,
        place_ofList_cleanPath]
    -- the names have different lengths
    · intro same
      have sizes := congrArg length same
      simp only [String.toList_append, stageFront, length_append, length_cons] at sizes
      omega
    · intro same
      have sizes := congrArg length same
      simp only [String.toList_append, stageFront, length_append, length_cons,
        show ".old".toList.length = 4 from rfl, show ".sync-".toList.length = 6 from rfl] at sizes
      omega

section
variable {parent : List Text}

/-- The live directory can be renamed: nothing keeps it in place, and what is moved into
its place arrives. -/
structure Swappable (c : Cache) (world : World) : Prop where
  named : Named c
  aside : ∀ n fault, world.fails n (.rename c.cacheDir c.oldDir) = some fault →
    fault ≠ .crossDevice ∧ fault ≠ .busy
  into : ∀ n path, world.fails n (.rename path c.cacheDir) = none

/-- The live directory may be gone only if it was empty. -/
theorem clearLive_spec (sites : Sites c parent live old) (dir : look host.tree parent = some .dir)
    (cleared : c.clearLive world host = (host', result)) :
    host'.tree = host.tree ∨ (result = .ok false ∧ look host'.tree parent = some .dir ∧
        entry host'.tree parent = update (entry host.tree parent) live none) := by
  unfold Cache.clearLive at cleared
  split at cleared
  · rename_i seen
    cases cleared
    exact .inl (stat_reads _ _ seen)
  · rename_i seen
    cases cleared
    exact .inl (stat_reads _ _ seen)
  rename_i seen
  have tree₁ := stat_reads _ _ seen
  split at cleared
  · rename_i read
    have tree₂ := (readDir_reads _ _ read).trans tree₁
    split at cleared
    · rename_i removed
      cases cleared
      obtain ⟨dir₃, entries⟩ := remove_entry sites.livePlace (tree₂ ▸ dir) removed
      exact .inr ⟨rfl, dir₃, tree₂ ▸ entries⟩
    · rename_i removed
      cases cleared
      exact .inl ((attempt_error _ _ removed).trans tree₂)
  · rename_i read
    cases cleared
    exact .inl ((readDir_reads _ _ read).trans tree₁)

theorem moveIn_arrives {liveExists : Bool} {name : Text} {staged : FileTree Text String}
    (swappable : Swappable c world) (sites : Sites c parent live old)
    (stagePlace : place stage.toList = parent ++ [name]) (notLive : name ≠ live)
    (dir : look host.tree parent = some .dir)
    (held : entry host.tree parent name = some staged)
    (free : entry host.tree parent live = none) :
    (c.moveIn world stage liveExists host).2 = .ok () ∧
      entry (c.moveIn world stage liveExists host).1.tree parent live = some staged := by
  obtain ⟨host₁, moved⟩ : ∃ host₁, host.rename world stage c.cacheDir = (host₁, .ok ()) := by
    have here : FileTree.get host.tree (place stage.toList) = some staged := stagePlace ▸ held
    refine rename_serves (swappable.into _ _) here ?_ ?_ ?_ ?_
    · rw [sites.livePlace, look_eq_none.mpr free]
      simp
    · exact fun _ => by rw [sites.livePlace, look_eq_none.mpr free]
    · rw [stagePlace, sites.livePlace]
      exact fun _ => (apart_siblings notLive).1
    · rw [sites.livePlace, dropLast_concat, dir]
  obtain ⟨dir₁, entries⟩ := rename_entry stagePlace sites.livePlace moved
  have arrived : entry host₁.tree parent live = some staged := by
    rw [entries, update_self, held]
  unfold Cache.moveIn
  rw [moved]
  cases liveExists with
  | false => exact ⟨rfl, arrived⟩
  | true =>
    obtain ⟨-, left, after, -⟩ := @removeAll_entry _ _ world host₁ _ sites.oldPlace dir₁
    refine ⟨rfl, ?_⟩
    change entry (host₁.removeAll world c.oldDir).1.tree parent live = some staged
    rw [after, update_of_ne sites.differ, arrived]

theorem moveIn_spec (sites : Sites c parent live old)
    (stagePlace : place stage.toList = parent ++ [name])
    (moved : c.moveIn world stage false host = (host', result)) :
    (result = .ok () ∧ entry host'.tree parent live = entry host.tree parent name) ∨
      ((∃ text, result = .error text) ∧ host'.tree = host.tree) := by
  unfold Cache.moveIn at moved
  split at moved
  · rename_i renamed
    cases moved
    exact .inr ⟨⟨_, rfl⟩, attempt_error _ _ renamed⟩
  · rename_i renamed
    cases moved
    obtain ⟨-, entries⟩ := rename_entry stagePlace sites.livePlace renamed
    exact .inl ⟨rfl, by rw [if_neg Bool.false_ne_true, entries, update_self]⟩

/-- The staged tree is swapped in, or the live directory is as before. -/
theorem swapIn_spec (swappable : Swappable c world) (sites : Sites c parent live old)
    (stagePlace : place stage.toList = parent ++ [name]) (notLive : name ≠ live)
    (notOld : name ≠ old)
    (dir : look host.tree parent = some .dir) (held : entry host.tree parent name = some staged)
    (swapped : c.swapIn world stage host = (host', result)) :
    (result = .ok () ∧ entry host'.tree parent live = some staged) ∨
      ((∃ text, result = .error text) ∧
        entry host'.tree parent live = entry host.tree parent live) := by
  obtain ⟨dir₁, left, entries₁, -⟩ := @removeAll_entry _ _ world host _ sites.oldPlace dir
  unfold Cache.swapIn at swapped
  split at swapped
  · rename_i removed
    cases swapped
    rw [removed] at entries₁
    exact .inr ⟨⟨_, rfl⟩, by rw [entries₁, update_of_ne sites.differ]⟩
  rename_i host₁ removed
  rw [removed] at dir₁ entries₁
  have held₁ : entry host₁.tree parent name = some staged := by
    rw [entries₁, update_of_ne notOld, held]
  have live₁ : entry host₁.tree parent live = entry host.tree parent live := by
    rw [entries₁, update_of_ne sites.differ]
  split at swapped
  · rename_i cleared
    cases swapped
    obtain same | ⟨ok, -⟩ := clearLive_spec sites dir₁ cleared
    · exact .inr ⟨⟨_, rfl⟩, by rw [same, live₁]⟩
    · cases ok
  · rename_i host₂ cleared
    obtain same | ⟨-, dir₂, entries₂⟩ := clearLive_spec sites dir₁ cleared
    · obtain ⟨ok, arrived⟩ | ⟨failed, unchanged⟩ := moveIn_spec sites stagePlace swapped
      · exact .inl ⟨ok, by rw [arrived, same, held₁]⟩
      · exact .inr ⟨failed, by rw [unchanged, same, live₁]⟩
    · -- the live directory was empty and is gone
      have arrives :=
        @moveIn_arrives c world host₂ stage parent live old false name staged swappable
        sites stagePlace notLive dir₂ (by rw [entries₂, update_of_ne notLive, held₁])
        (by rw [entries₂, update_self])
      rw [swapped] at arrives
      exact .inl arrives
  · rename_i host₂ cleared
    have same : host₂.tree = host₁.tree := by
      obtain same | ⟨ok, -⟩ := clearLive_spec sites dir₁ cleared
      · exact same
      · cases ok
    have stuck (fault : Fault) (host₃ : Host)
        (failed : host₂.rename world c.cacheDir c.oldDir = (host₃, .error fault)) :
        fault ≠ .crossDevice ∧ fault ≠ .busy :=
      (rename_fault _ _ failed).elim (swappable.aside _ fault) id
    split at swapped
    · rename_i failed
      exact absurd rfl (stuck _ _ failed).1
    · rename_i failed
      exact absurd rfl (stuck _ _ failed).2
    · rename_i failed
      cases swapped
      exact .inr ⟨⟨_, rfl⟩, by rw [attempt_error _ _ failed, same, live₁]⟩
    · rename_i host₃ moved
      obtain ⟨dir₃, entries₃⟩ := rename_entry sites.livePlace sites.oldPlace moved
      have arrives := @moveIn_arrives c world host₃ stage parent live old true name staged swappable
        sites stagePlace notLive dir₃
        (by rw [entries₃, update_of_ne notOld, update_of_ne notLive, same, held₁])
        (by rw [entries₃, update_of_ne sites.differ, update_self])
      rw [swapped] at arrives
      exact .inl arrives

end

/-- The places below the directory that a manifest lists, with the sums of the contents. -/
def Cache.listed (c : Cache) (files : List ManifestFile) : List (List Text × String) :=
  files.filterMap fun f => (c.filePath f.key).map fun rel => (relParts rel, f.sha256)

/-- The directory holds exactly the listed files. -/
structure Exactly (hashFn : String → String) (tree : Files) (listed : List (List Text × String)) :
    Prop where
  files : ∀ place content, look tree place = some (.file content) ↔ (place, hashFn content) ∈ listed
  sums : ∀ entry ∈ listed, ∃ content, hashFn content = entry.2

/-- No place is listed twice. -/
def Distinct (listed : List (List Text × String)) : Prop := (listed.map Prod.fst).Nodup

/-- Each listed sum is the sum of at most one content. -/
def Pinned (c : Cache) (files : List ManifestFile) : Prop :=
  ∀ f ∈ files, ∀ content content', c.hashFn content = f.sha256 → c.hashFn content' = f.sha256 →
    content = content'

theorem pinned_of_injective (injective : Injective c.hashFn) (files : List ManifestFile) :
    Pinned c files :=
  fun _ _ _ _ sum sum' => injective (sum.trans sum'.symm)

theorem stageManifest_fills (pinned : Pinned c files) (distinct : Distinct (c.listed files))
    (dir : look host.tree (place stage.toList) = some .dir)
    (returns : (c.stageManifest world stage host count files).MayReturn (host', .ok total)) :
    look host'.tree (place stage.toList) = some .dir ∧
      (∀ entry ∈ c.listed files, ∃ content, c.hashFn content = entry.2) ∧
      ∀ below content, look host'.tree (place stage.toList ++ below) = some (.file content) ↔
        (below, c.hashFn content) ∈ c.listed files ∨ (below ∉ (c.listed files).map Prod.fst ∧
          look host.tree (place stage.toList ++ below) = some (.file content)) := by
  induction files generalizing host count with
  | nil =>
    cases returns
    exact ⟨dir, by simp [Cache.listed], by simp [Cache.listed]⟩
  | cons f files ih =>
    unfold Cache.stageManifest at returns
    split at returns
    · rename_i outside
      have same : c.listed (f :: files) = c.listed files := by simp [Cache.listed, outside]
      rw [same] at distinct ⊢
      exact ih (fun g member => pinned g (mem_cons_of_mem f member)) distinct dir returns
    rename_i rel inside
    split at returns
    · cases (Prod.mk.inj returns).2
    rename_i safe
    have lands : Lands rel := lands_of_safeKey (by simpa using safe)
    obtain ⟨reply, -, returns⟩ := Program.mayReturn_bind.mp returns
    split at returns
    · cases (Prod.mk.inj returns).2
    split at returns
    · cases (Prod.mk.inj returns).2
    rename_i data _
    split at returns
    · cases (Prod.mk.inj returns).2
    rename_i sum
    rw [not_not] at sum
    split at returns
    · cases (Prod.mk.inj returns).2
    rename_i written
    have first : c.listed (f :: files) = (relParts rel, f.sha256) :: c.listed files := by
      simp [Cache.listed, inside]
    rw [first] at distinct ⊢
    obtain ⟨new, distinct⟩ := nodup_cons.mp distinct
    obtain ⟨dir', sums, filled⟩ := ih
      (fun g member => pinned g (mem_cons_of_mem f member)) distinct (writeFile_root lands written)
      returns
    refine ⟨dir', ?_, fun below content => ?_⟩
    · exact forall_mem_cons.mpr ⟨⟨data, sum⟩, sums⟩
    have hashed : c.hashFn content = f.sha256 ↔ content = data :=
      ⟨fun hash => pinned f mem_cons_self content data hash sum, fun same => same ▸ sum⟩
    rw [filled, writeFile_files lands written]
    simp only [append_cancel_left_eq, ne_eq, mem_cons, Prod.mk.injEq, map_cons, not_or,
      hashed]
    by_cases here : below = relParts rel
    · subst here
      have gone : (relParts rel, c.hashFn content) ∉ c.listed files :=
        fun member => new (mem_map.mpr ⟨_, member, rfl⟩)
      simp [gone, new]
    · simp [here]

/-- The live directory is as before or, after a success, holds exactly the listed files. -/
def Delivered (c : Cache) (files : List ManifestFile) (before after : Files) :
    Except String Nat → Prop
  | .ok _ => Exactly c.hashFn after (c.listed files)
  | .error _ => after = before

theorem syncStaged_spec (swappable : Swappable c world) (sites : Sites c parent live old)
    (pinned : Pinned c files)
    (distinct : Distinct (c.listed files)) (stagePlace : place stage.toList = parent ++ [name])
    (notLive : name ≠ live) (notOld : name ≠ old)
    (fresh : entry host.tree parent name = some (.dir []))
    (returns : (c.syncStaged world files stage host).MayReturn (host', result)) :
    Delivered c files (entry host.tree parent live) (entry host'.tree parent live) result := by
  unfold Cache.syncStaged at returns
  split at returns
  · rename_i changed
    cases returns
    exact congrArg (entry · parent live) (attempt_error _ _ changed)
  rename_i host₁ changed
  rw [← chmod_ok _ _ changed] at fresh ⊢
  obtain ⟨⟨host₂, outcome⟩, filled, returns⟩ := Program.mayReturn_bind.mp returns
  have apart : SameApart (place stage.toList) host₁.tree host₂.tree :=
    stageManifest_relates (R := fun host host' =>
      SameApart (place stage.toList) host.tree host'.tree)
      (fun _ => .refl _) .trans (fun _ _ _ lands => writeFile_apart lands) filled
  have live₂ : entry host₂.tree parent live = entry host₁.tree parent live :=
    apart _ (stagePlace ▸ apart_siblings notLive)
  cases outcome with
  | error text =>
    cases returns
    exact live₂
  | ok count =>
    have dir : look host₁.tree (place stage.toList) = some .dir :=
      look_eq_dir.mpr ⟨[], stagePlace ▸ fresh⟩
    obtain ⟨dir₂, sums, files₂⟩ := stageManifest_fills pinned distinct dir filled
    obtain ⟨children, held⟩ := look_eq_dir.mp dir₂
    have empty : ∀ below content,
        look host₁.tree (place stage.toList ++ below) ≠ some (.file content) := by
      intro below content
      rw [look_append, show FileTree.get host₁.tree (place stage.toList) = some (.dir []) from
        stagePlace ▸ fresh]
      cases below <;> simp [look, kind, child]
    have exactly : Exactly c.hashFn (some (.dir children)) (c.listed files) := by
      refine ⟨fun below content => ?_, sums⟩
      rw [← held, ← look_append, files₂]
      simp [empty below content]
    have dirUp : look host₂.tree parent = some .dir :=
      look_of_below (prefix_append _ _) (by simp)
        (show look host₂.tree (parent ++ [name]) ≠ none by simp [← stagePlace, dir₂])
    dsimp only at returns
    split at returns
    · rename_i swapped
      cases returns
      obtain ⟨ok, -⟩ | ⟨-, unchanged⟩ := swapIn_spec swappable sites stagePlace notLive notOld dirUp
        (stagePlace ▸ held) swapped
      · cases ok
      · exact unchanged.trans live₂
    · rename_i swapped
      cases returns
      obtain ⟨-, arrived⟩ | ⟨⟨text, failed⟩, -⟩ :=
        swapIn_spec swappable sites stagePlace notLive notOld
        dirUp (stagePlace ▸ held) swapped
      · rw [arrived]
        exact exactly
      · cases failed

/-- The directory of the cache is one entry away from the staging directory. -/
theorem syncFiles_spec (swappable : Swappable c world) (pinned : Pinned c files)
    (distinct : Distinct (c.listed files))
    (returns : (c.syncFiles world files host).MayReturn (host', result)) :
    Delivered c files (FileTree.get host.tree (place c.cacheDir.toList))
      (FileTree.get host'.tree (place c.cacheDir.toList)) result := by
  obtain ⟨parent, live, old, sites⟩ := swappable.named.sites
  rw [sites.livePlace]
  change Delivered c files (entry host.tree parent live) (entry host'.tree parent live) result
  unfold Cache.syncFiles at returns
  dsimp only at returns
  split at returns
  · rename_i made
    cases returns
    exact congrArg (entry · parent live) (attempt_error _ _ made)
  rename_i host₁ made
  obtain ⟨tree, here, tree₁⟩ := mkdirAll_ok _ _ made
  rw [sites.dirPlace] at here
  have dir₁ : look host₁.tree parent = some .dir := by
    rw [tree₁, (mkdirAll_above here (prefix_refl _)).1]
  have live₁ : entry host₁.tree parent live = entry host.tree parent live := by
    rw [entry, tree₁, mkdirAll_get here (not_below_itself parent live), entry]
  rw [← live₁]
  split at returns
  · rename_i created
    cases returns
    exact congrArg (entry · parent live) (mkdirTemp_error _ _ created)
  rename_i host₂ stage created
  obtain ⟨-, created⟩ := mkdirTemp_ok _ _ created
  obtain ⟨isTemp, -, tree₂⟩ := create_ok _ _ created
  obtain ⟨name, stagePlace, notLive, notOld⟩ := sites.stagePlace stage
    (isTemp ▸ tempPath_numbered world host₁ _ _ _)
  rw [stagePlace] at tree₂
  have entries₂ : entry host₂.tree parent =
      update (entry host₁.tree parent) name (some (.dir [])) := by
    rw [tree₂, entry_alter dir₁]
  obtain ⟨⟨host₃, outcome⟩, filled, returns⟩ := Program.mayReturn_bind.mp returns
  cases returns
  have delivered := syncStaged_spec swappable sites pinned distinct stagePlace notLive notOld
    (by rw [entries₂, update_self]) filled
  have kept : entry (host₃.removeAll world stage).1.tree parent live =
      entry host₃.tree parent live :=
    SameApart.removeAll (prefix_refl _) _ (stagePlace ▸ apart_siblings notLive)
  rw [entries₂, update_of_ne (Ne.symm notLive)] at delivered
  rwa [kept]

end Zester.StateFiles
