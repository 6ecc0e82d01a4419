import Zester.DiskProofs
import Zester.StateFiles.Cache

/-! Writing one file of a cache: where its key leads, which operations the write makes and
how the tree looks after it. -/
namespace Zester.StateFiles
open FileTree (look look_mkdirAll)
open List hiding count

/-- The key names something below the directory that it is joined to. -/
structure Lands (key : String) : Prop where
  nonempty : key ≠ ""
  relative : key.toList.head? ≠ some '/'
  low : climbs key = false
  parts : relParts key ≠ []

theorem lands_of_safeKey (safe : safeKey key = true) : Lands key := by
  unfold safeKey at safe
  split at safe
  · cases safe
  rename_i relative
  simp only [Bool.or_eq_true, decide_eq_true_eq, not_or] at relative
  obtain ⟨nonempty, rootless⟩ := relative
  have head : key.toList.head? ≠ some '/' := by
    intro root
    cases chars : key.toList with
    | nil => simp [chars] at root
    | cons c rest =>
      obtain rfl : c = '/' := by simpa [chars] using root
      exact rootless (by simp [hasPrefix, chars])
  have kept : cleanParts false key.toList ≠ [] := by
    intro empty
    simp [cleanPath_of_empty head empty] at safe
  have cleanEq := cleanPath_of_relative head kept
  obtain ⟨names, climbed, out, proper, -⟩ := cleaned_cleanParts false key.toList
  refine ⟨nonempty, head, ?_, by simpa [relParts] using kept⟩
  cases climbed with
  | zero =>
    have named : dotDot ∉ names := fun member => (proper dotDot member).notDotDot rfl
    simpa [climbs, relParts, out] using named
  | succ climbed =>
    -- the cleaned key would begin with the dots
    rw [out, reverse_append, reverse_replicate, replicate_succ, cons_append]
      at cleanEq
    cases more : replicate climbed dotDot ++ names.reverse with
    | nil =>
      rw [more] at cleanEq
      simp [cleanEq, intercalate, dotDot] at safe
    | cons next rest =>
      rw [more] at cleanEq
      simp [cleanEq, intercalate, intersperse, dotDot] at safe

theorem lands_of_names (proper : ∀ part ∈ names, IsName part) (nonempty : names ≠ []) :
    Lands (String.ofList (['/'].intercalate names)) := by
  have parts := relParts_of_names proper nonempty
  refine ⟨?_, ?_, ?_, by rwa [parts]⟩
  · intro empty
    rw [empty] at parts
    exact nonempty parts.symm
  · rw [String.toList_ofList]
    exact head_intercalate fun part member =>
      ⟨(proper part member).nonempty, (proper part member).slashless⟩
  · rw [climbs, parts]
    simpa using fun member => (proper dotDot member).notDotDot rfl

theorem Lands.stays (lands : Lands key) (dir : String) : Stays dir key :=
  ⟨lands.low, fun _ => lands.relative⟩

theorem Lands.place_dir (lands : Lands key) (dir : String) :
    place (dirPath (joinPath [dir, key])).toList = place dir.toList ++ (relParts key).dropLast := by
  have joined := place_joinPath (lands.stays dir)
  obtain ⟨path, clean⟩ : ∃ path, joinPath [dir, key] = String.ofList (cleanPath path) := by
    unfold joinPath
    split
    · rename_i none
      simp only [filter_cons, lands.nonempty, ne_eq, not_false_eq_true, decide_true,
        if_true] at none
      split at none <;> simp at none
    · exact ⟨_, rfl⟩
  rw [clean, place_ofList_cleanPath, ← dropLast_append_getLast lands.parts, ← append_assoc]
    at joined
  rw [clean]
  exact place_dirPath joined (relParts_names lands.low _ (getLast_mem lands.parts))

def IsStage (c : Cache) (stage : String) : Prop :=
  ∃ number : Nat, stage = entryPath (dirPath c.cacheDir) (c.stageFront ++ toString number ++ "")

def IsTemp (dir tmp : String) : Prop :=
  ∃ k : Nat, tmp = entryPath dir (".zester-cache-" ++ toString k ++ ".tmp")

theorem isName_temp (k : Nat) : IsName (".zester-cache-" ++ toString k ++ ".tmp").toList :=
  isName_numbered (by decide) (by decide) (by decide) k

theorem writeFile_relates {R : Host → Host → Prop} (isDir : dir = dirPath (joinPath [root, key]))
    (trans : ∀ {host host' host''}, R host host' → R host' host'' → R host host'')
    (mkdirAll : ∀ host : Host, R host (host.mkdirAll world dir).1)
    (createTemp : ∀ host : Host, R host (host.createTemp world dir ".zester-cache-" ".tmp").1)
    (write : ∀ (host : Host) tmp, IsTemp dir tmp → R host (host.write world tmp data).1)
    (chmod : ∀ (host : Host) tmp, IsTemp dir tmp → R host (host.chmod world tmp).1)
    (rename : ∀ (host : Host) tmp, IsTemp dir tmp →
      R host (host.rename world tmp (joinPath [root, key])).1)
    (remove : ∀ (host : Host) tmp, IsTemp dir tmp → R host (host.remove world tmp).1) :
    R host (writeFile world host root key data).1 := by
  subst isDir
  unfold writeFile
  dsimp only
  have made := mkdirAll host
  split
  · rename_i same
    rwa [same] at made
  rename_i host₁ same
  rw [same] at made
  refine trans made ?_
  have created := createTemp host₁
  split
  · rename_i same
    rwa [same] at created
  rename_i host₂ tmpPath same
  rw [same] at created
  refine trans created ?_
  have temp : IsTemp (dirPath (joinPath [root, key])) tmpPath := by
    obtain ⟨rfl, -⟩ := Host.create_ok _ _ same
    exact Host.tempPath_numbered world host₁ _ _ _
  have written := write host₂ tmpPath temp
  split
  · rename_i same
    rw [same] at written
    exact trans written (remove _ tmpPath temp)
  rename_i host₃ same
  rw [same] at written
  refine trans written ?_
  have changed := chmod host₃ tmpPath temp
  split
  · rename_i same
    rw [same] at changed
    exact trans changed (remove _ tmpPath temp)
  rename_i host₄ same
  rw [same] at changed
  refine trans changed ?_
  have moved := rename host₄ tmpPath temp
  split <;> rename_i same
  · rw [same] at moved
    exact trans moved (remove _ tmpPath temp)
  · rwa [same] at moved

section
variable (lands : Lands key)
include lands

theorem Lands.prefix_dir (root : String) :
    place root.toList <+: place (dirPath (joinPath [root, key])).toList :=
  ⟨_, (lands.place_dir root).symm⟩

theorem Lands.prefix_temp (temp : IsTemp (dirPath (joinPath [root, key])) tmp) :
    place root.toList <+: place tmp.toList := by
  obtain ⟨k, rfl⟩ := temp
  rw [place_entryPath (dirPath_ne_empty _) (isName_temp k)]
  exact (lands.prefix_dir root).trans (prefix_append _ _)

/-- A write changes nothing apart from the directory that it is for. -/
theorem writeFile_apart :
    SameApart (place root.toList) host.tree (writeFile world host root key data).1.tree := by
  have target : place root.toList <+: place (joinPath [root, key]).toList :=
    ⟨_, (place_joinPath (lands.stays root)).symm⟩
  refine writeFile_relates
    (R := fun host host' => SameApart (place root.toList) host.tree host'.tree)
    rfl .trans ?_ ?_ ?_ ?_ ?_ ?_
  · exact fun host => .mkdirAll (lands.prefix_dir root)
  · intro host
    exact .create (lands.prefix_temp (Host.tempPath_numbered world host _ _ _))
  · exact fun host tmp temp => .write (lands.prefix_temp temp)
  · exact fun host tmp _ => .chmod
  · exact fun host tmp temp => .rename (lands.prefix_temp temp) target
  · exact fun host tmp temp => .remove (lands.prefix_temp temp)

theorem Lands.place_target (root : String) :
    ∃ name, IsName name ∧ place (joinPath [root, key]).toList =
      place root.toList ++ (relParts key).dropLast ++ [name] ∧
      relParts key = (relParts key).dropLast ++ [name] := by
  have split := (dropLast_append_getLast lands.parts).symm
  refine ⟨(relParts key).getLast lands.parts,
    relParts_names lands.low _ (getLast_mem lands.parts), ?_, split⟩
  rw [place_joinPath (lands.stays root), append_assoc, ← split]

/-- A write that succeeds makes the directories above its file and changes nothing else. -/
theorem writeFile_ok (done : writeFile world host root key data = (host', .ok ())) :
    (∀ above, above <+: place root.toList ++ (relParts key).dropLast → ∀ content,
      look host.tree above ≠ some (.file content)) ∧
    ∀ other, look host'.tree other =
      if other = place root.toList ++ relParts key then some (.file data)
      else if other <+: place root.toList ++ (relParts key).dropLast then some .dir
      else look host.tree other := by
  obtain ⟨name, -, target, split⟩ := lands.place_target root
  have parent := lands.place_dir root
  unfold writeFile at done
  dsimp only at done
  split at done
  · cases done
  rename_i host₁ made
  split at done
  · cases done
  rename_i tmpPath created
  split at done
  · cases done
  rename_i written
  split at done
  · cases done
  rename_i changed
  split at done
  · cases done
  rename_i moved
  cases done
  obtain ⟨tree, here, tree₁⟩ := Host.mkdirAll_ok _ _ made
  obtain ⟨isTemp, dir, tree₂⟩ := Host.create_ok _ _ created
  obtain ⟨temp, -, tempPlace, fresh⟩ :=
    Host.tempPath_free world host₁ (dirPath_ne_empty _) isName_temp dir
  have tree₃ := Host.write_ok _ _ written
  have tree₄ := Host.chmod_ok _ _ changed
  obtain ⟨tree', held, notDir, tree₅⟩ := Host.rename_ok _ _ moved
  rw [parent] at here dir fresh tempPlace
  rw [← isTemp] at tempPlace
  rw [tempPlace] at tree₂ tree₃ held tree₅
  rw [target] at notDir tree₅
  rw [tree₄] at held notDir tree₅
  refine ⟨fun above up => (FileTree.mkdirAll_above here up).2, fun other => ?_⟩
  have looks := FileTree.look_replace dir fresh tree₂ tree₃ held notDir other
  rw [tree₅, looks, tree₁, look_mkdirAll here, append_assoc, ← split]

end

theorem writeFile_serves (data : String) (lands : Lands key)
    (serves : ∀ n op, world.fails n op = none)
    (clear : ∀ above, above <+: place root.toList ++ (relParts key).dropLast → ∀ content,
      look host.tree above ≠ some (.file content))
    (free : look host.tree (place root.toList ++ relParts key) ≠ some .dir) :
    ∃ host', writeFile world host root key data = (host', .ok ()) := by
  obtain ⟨name, -, target, split⟩ := lands.place_target root
  have parent := lands.place_dir root
  obtain ⟨host₁, made⟩ :=
    Host.mkdirAll_serves (serves _ (.mkdirAll (dirPath (joinPath [root, key]))))
    (parent.symm ▸ clear)
  obtain ⟨tree, here, tree₁⟩ := Host.mkdirAll_ok _ _ made
  rw [parent] at here
  have looks := look_mkdirAll here
  rw [← tree₁] at looks
  have isDir : look host₁.tree (place root.toList ++ (relParts key).dropLast) = some .dir := by
    rw [looks, if_pos (prefix_refl _)]
  have stillFree : look host₁.tree (place root.toList ++ (relParts key).dropLast ++ [name]) ≠
      some .dir := by
    rw [looks, if_neg (FileTree.not_below_itself _ name), append_assoc, ← split]
    exact free
  obtain ⟨host₂, tmp, host₃, host₄, host₅, created, written, changed, moved⟩ :=
    Host.replace_serves data serves (dirPath_ne_empty _) isName_temp parent target isDir stillFree
  refine ⟨host₅, ?_⟩
  simp only [writeFile, made, created, written, changed, moved]

theorem writeFile_files (lands : Lands key)
    (done : writeFile world host root key data = (host', .ok ())) (other : List Text)
    (content : String) : look host'.tree other = some (.file content) ↔
      (other = place root.toList ++ relParts key ∧ content = data) ∨
        (other ≠ place root.toList ++ relParts key ∧
          look host.tree other = some (.file content)) := by
  obtain ⟨clear, looks⟩ := writeFile_ok lands done
  rw [looks]
  split
  · rename_i same
    simp [same, eq_comm]
  rename_i differs
  split
  · rename_i above
    simp [differs, clear other above content]
  · simp [differs]

theorem writeFile_root (lands : Lands key)
    (done : writeFile world host root key data = (host', .ok ())) :
    look host'.tree (place root.toList) = some .dir := by
  rw [(writeFile_ok lands done).2, if_neg, if_pos (prefix_append _ _)]
  simpa using lands.parts

section
variable {c : Cache}

theorem stageManifest_relates {R : Host → Host → Prop} (refl : ∀ host, R host host)
    (trans : ∀ {host host' host''}, R host host' → R host' host'' → R host host'')
    (writes : ∀ host rel data, Lands rel → R host (writeFile world host stage rel data).1)
    (returns : (c.stageManifest world stage host count files).MayReturn (host', result)) :
    R host host' := by
  induction files generalizing host count with
  | nil =>
    cases returns
    exact refl _
  | cons f files ih =>
    unfold Cache.stageManifest at returns
    split at returns
    · exact ih returns
    rename_i rel _
    split at returns
    · cases returns
      exact refl _
    rename_i safe
    have lands : Lands rel := lands_of_safeKey (by simpa using safe)
    obtain ⟨reply, -, returns⟩ := Program.mayReturn_bind.mp returns
    split at returns
    · cases returns
      exact refl _
    split at returns
    · cases returns
      exact refl _
    rename_i data _
    split at returns
    · cases returns
      exact refl _
    have writing := writes host rel data lands
    split at returns
    · rename_i written
      cases returns
      rwa [written] at writing
    · rename_i written
      rw [written] at writing
      exact trans writing (ih returns)

end
end Zester.StateFiles
