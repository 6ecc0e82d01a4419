import Mathlib.Data.List.Nodup
import Mathlib.Data.List.Perm.Subperm
import Zester.Disk

/-! What the operations of a file system do to its tree and its log. -/
namespace Zester
open FileTree List Function
variable {act : Files → Except Fault (Files × α)} {entry : FileTree Text String} {dir : String}
namespace Host
variable (world : World) (host : Host)

section
variable {world host}

theorem log_attempt (op : DiskOp) (act : Files → Except Fault (Files × α)) :
    (attempt world host op act).1.log = op :: host.log := by
  unfold attempt
  split
  · rfl
  · split <;> rfl

theorem log_removeAll (path : String) :
    (removeAll world host path).1.log = .removeAll path :: host.log := by
  unfold removeAll
  dsimp only
  split <;> rfl

theorem freeName_numbered (taken : List Text) (front back : String) (tries number : Nat) :
    ∃ k : Nat, freeName taken front back tries number = front ++ toString k ++ back := by
  induction tries generalizing number with
  | zero => exact ⟨number, rfl⟩
  | succ tries ih =>
    unfold freeName
    dsimp only
    split
    · exact ih (number + 1)
    · exact ⟨number, rfl⟩

theorem numbered_injective {i j : Nat}
    (same : front ++ toString i ++ back = front ++ toString j ++ back) : i = j := by
  have chars := congrArg String.toList same
  simp only [String.toList_append, append_cancel_right_eq, append_cancel_left_eq,
    show ∀ n : Nat, toString n = Nat.repr n from fun _ => rfl, Nat.toList_repr] at chars
  rw [← @Nat.ofDigitChars_toDigits 10 i (by decide) (by decide), chars,
    Nat.ofDigitChars_toDigits (by decide) (by decide)]

/-- A name that is taken in the end was searched for among taken names only. -/
theorem taken_of_freeName (found : (freeName taken front back tries number).toList ∈ taken) :
    ∀ k ≤ tries, (front ++ toString (number + k) ++ back).toList ∈ taken := by
  induction tries generalizing number with
  | zero =>
    intro k few
    obtain rfl : k = 0 := by omega
    exact found
  | succ tries ih =>
    unfold freeName at found
    dsimp only at found
    split at found
    · rename_i here
      intro k few
      cases k with
      | zero => exact here
      | succ k => simpa [Nat.add_assoc, Nat.add_comm 1 k] using ih found k (by omega)
    · rename_i free
      exact absurd found free

/-- There are more numbers to try than names that are taken. -/
theorem freeName_free (taken : List Text) (front back : String) (number : Nat) :
    (freeName taken front back taken.length number).toList ∉ taken := by
  intro found
  have all := taken_of_freeName found
  let tried :=
    (range (taken.length + 1)).map fun k => (front ++ toString (number + k) ++ back).toList
  have distinct : tried.Nodup := by
    refine Nodup.map (fun i j same => ?_) nodup_range
    have := numbered_injective (String.ext same)
    omega
  have among : tried ⊆ taken := by
    intro name member
    obtain ⟨k, few, rfl⟩ := mem_map.mp member
    exact all k (by have := mem_range.mp few; omega)
  have few := (distinct.subperm among).length_le
  simp only [tried, length_map, length_range] at few
  omega

theorem tempPath_numbered (world : World) (host : Host) (dir front back : String) :
    ∃ k : Nat, tempPath world host dir front back =
      entryPath dir (front ++ toString k ++ back) := by
  obtain ⟨k, numbered⟩ := freeName_numbered (names host.tree dir) front back
    (names host.tree dir).length (world.number host.log.length)
  exact ⟨k, by rw [tempPath, numbered]⟩

end

theorem attempt_ok (done : attempt world host op act = (host', .ok answer)) :
    act host.tree = .ok (host'.tree, answer) := by
  unfold attempt at done
  split at done
  · cases done
  split at done
  · cases done
  · rename_i answer' carried
    cases done
    exact carried

theorem attempt_error (done : attempt world host op act = (host', .error fault)) :
    host'.tree = host.tree := by
  unfold attempt at done
  split at done
  · cases done
    rfl
  · split at done
    · cases done
      rfl
    · cases done

theorem attempt_fault (done : attempt world host op act = (host', .error fault)) :
    world.fails host.log.length op = some fault ∨ act host.tree = .error fault := by
  unfold attempt at done
  split at done
  · rename_i fails
    cases done
    exact .inl fails
  · split at done
    · rename_i refused
      cases done
      exact .inr refused
    · cases done

theorem attempt_reads (reads : ∀ tree answer, act host.tree = .ok (tree, answer) → tree = host.tree)
    (done : attempt world host op act = (host', result)) : host'.tree = host.tree := by
  cases result with
  | error fault => exact attempt_error world host done
  | ok answer => exact reads _ _ (attempt_ok world host done)

theorem tree_of_ok (same : (.ok (t, answer) : Except Fault (Files × α)) = .ok (t', answer')) :
    t' = t := by
  cases same
  rfl

theorem stat_reads (seen : stat world host path = (host', result)) : host'.tree = host.tree := by
  refine attempt_reads world host (fun tree answer carried => ?_) seen
  split at carried
  · cases carried
  · exact tree_of_ok carried

theorem readDir_reads (read : readDir world host path = (host', result)) :
    host'.tree = host.tree := by
  refine attempt_reads world host (fun tree answer carried => ?_) read
  split at carried
  · cases carried
  · cases carried
  · exact tree_of_ok carried

theorem create_ok {op : String → DiskOp}
    (created : create world host op dir front back entry = (host', .ok path)) :
    path = tempPath world host dir front back ∧ look host.tree (place dir.toList) = some .dir ∧
      host'.tree = alter (fun _ => some entry) host.tree (place path.toList) := by
  unfold create at created
  have carried := attempt_ok world host created
  split at carried
  · rename_i dir
    obtain ⟨tree, rfl⟩ := Prod.mk.inj (Except.ok.inj carried)
    exact ⟨rfl, dir, tree.symm⟩
  · cases carried

theorem tempPath_free (nonempty : dir ≠ "")
    (isName : ∀ number : Nat, IsName (front ++ toString number ++ back).toList)
    (isDir : look host.tree (place dir.toList) = some .dir) :
    ∃ name, IsName name ∧
      place (tempPath world host dir front back).toList = place dir.toList ++ [name] ∧
      look host.tree (place dir.toList ++ [name]) = none := by
  obtain ⟨children, held⟩ := look_eq_dir.mp isDir
  have taken : names host.tree dir = children.map Prod.fst := by rw [names, held]
  obtain ⟨k, numbered⟩ := freeName_numbered (names host.tree dir) front back
    (names host.tree dir).length (world.number host.log.length)
  have free := freeName_free (names host.tree dir) front back (world.number host.log.length)
  rw [numbered, taken] at free
  refine ⟨_, isName k, ?_, ?_⟩
  · rw [tempPath, numbered, place_entryPath nonempty (isName k)]
  · rw [look_append, held, look_eq_none, get_dir_cons, child_eq_none free,
      get_none]

theorem mkdirAll_ok (made : mkdirAll world host path = (host', .ok ())) :
    ∃ tree, FileTree.mkdirAll host.tree (place path.toList) = some tree ∧
      host'.tree = some tree := by
  have carried := attempt_ok world host made
  split at carried
  · cases carried
  · rename_i tree here
    exact ⟨tree, here, tree_of_ok carried⟩

theorem chmod_ok (changed : chmod world host path = (host', .ok ())) : host'.tree = host.tree :=
  tree_of_ok (attempt_ok world host changed)

theorem write_ok (written : write world host path data = (host', .ok ())) :
    host'.tree = alter (fun _ => some (.file data)) host.tree (place path.toList) := by
  have carried := attempt_ok world host written
  split at carried
  · exact tree_of_ok carried
  · cases carried

theorem rename_ok (moved : rename world host old new = (host', .ok ())) :
    ∃ tree, FileTree.get host.tree (place old.toList) = some tree ∧
      look host.tree (place new.toList) ≠ some .dir ∧
      host'.tree = alter (fun _ => some tree)
        (alter (fun _ => none) host.tree (place old.toList)) (place new.toList) := by
  have carried := attempt_ok world host moved
  dsimp only at carried
  split at carried
  · cases carried
  rename_i tree held
  split at carried
  · cases carried
  · cases carried
  · rename_i notDir _
    split at carried
    · cases carried
    split at carried
    · cases carried
    · exact ⟨tree, held, notDir, tree_of_ok carried⟩

/-- The tree itself never keeps a directory from being renamed. -/
theorem rename_fault (failed : rename world host old new = (host', .error fault)) :
    world.fails host.log.length (.rename old new) = some fault ∨
      (fault ≠ .crossDevice ∧ fault ≠ .busy) := by
  refine (attempt_fault world host failed).imp_right fun refused => ?_
  dsimp only at refused
  repeat' split at refused
  all_goals cases refused <;> simp

theorem mkdirTemp_error (failed : mkdirTemp world host dir front = (host', .error fault)) :
    host'.tree = host.tree := by
  unfold mkdirTemp at failed
  split at failed
  · cases failed
    rfl
  · unfold create at failed
    exact attempt_error world host failed

theorem mkdirTemp_ok (made : mkdirTemp world host dir front = (host', .ok path)) :
    front.toList.contains '/' = false ∧
      create world host .mkdirTemp dir front "" (.dir []) = (host', .ok path) := by
  unfold mkdirTemp at made
  split at made
  · cases made
  · rename_i slashless
    exact ⟨by simpa using slashless, made⟩

section
variable {world host} {path : String}

theorem remove_ok (removed : remove world host path = (host', .ok ())) :
    host'.tree = alter (fun _ => none) host.tree (place path.toList) := by
  have carried := attempt_ok world host removed
  split at carried
  · cases carried
  · cases carried
  · exact tree_of_ok carried

section
variable (leads : place path.toList = parent ++ [name])
include leads

theorem removeAll_entry (dir : look host.tree parent = some .dir) :
    look (removeAll world host path).1.tree parent = some .dir ∧
      ∃ left, FileTree.entry (removeAll world host path).1.tree parent =
          update (FileTree.entry host.tree parent) name left ∧
        ((removeAll world host path).2 = .ok () → left = none) := by
  unfold removeAll
  dsimp only
  rw [leads]
  split
  · exact ⟨look_alter_parent.trans dir, _, entry_alter dir, fun ok => by cases ok⟩
  · exact ⟨look_alter_parent.trans dir, none, entry_alter dir, fun _ => rfl⟩

theorem remove_entry (dir : look host.tree parent = some .dir)
    (removed : remove world host path = (host', .ok ())) :
    look host'.tree parent = some .dir ∧ FileTree.entry host'.tree parent =
        update (FileTree.entry host.tree parent) name none := by
  rw [remove_ok removed, leads]
  exact ⟨look_alter_parent.trans dir, entry_alter dir⟩

theorem rename_entry (leads' : place new.toList = parent ++ [target])
    (moved : rename world host path new = (host', .ok ())) :
    look host'.tree parent = some .dir ∧ FileTree.entry host'.tree parent =
        update (update (FileTree.entry host.tree parent) name none) target
          (FileTree.entry host.tree parent name) := by
  obtain ⟨tree, held, -, after⟩ := rename_ok world host moved
  rw [leads] at held
  have dir : look host.tree parent = some .dir :=
    look_of_below (prefix_append _ _) (by simp)
      (show look host.tree (parent ++ [name]) ≠ none by simp [look, held])
  have dir' : look (alter (fun _ => none) host.tree (parent ++ [name])) parent =
      some .dir := look_alter_parent.trans dir
  rw [after, leads, leads']
  refine ⟨look_alter_parent.trans dir', ?_⟩
  rw [entry_alter dir', entry_alter dir, ← held]
  rfl

end

end

section
variable {world host}

/-- Where nothing from outside fails, the tree decides. -/
theorem attempt_serves {tree : Files} (serves : world.fails host.log.length op = none)
    (carried : act host.tree = .ok (tree, answer)) :
    ∃ host', attempt world host op act = (host', .ok answer) :=
  ⟨⟨tree, op :: host.log⟩, by simp only [attempt, serves, carried]⟩

theorem mkdirAll_serves (serves : world.fails host.log.length (.mkdirAll path) = none)
    (clear : ∀ above, above <+: place path.toList → ∀ content, look host.tree above ≠
      some (.file content)) : ∃ host', mkdirAll world host path = (host', .ok ()) := by
  obtain ⟨tree, made⟩ := mkdirAll_isSome clear
  exact attempt_serves serves (by rw [made])

theorem create_serves {op : String → DiskOp}
    (serves : ∀ path, world.fails host.log.length (op path) = none)
    (isDir : look host.tree (place dir.toList) = some .dir) :
    ∃ host', create world host op dir front back entry =
      (host', .ok (tempPath world host dir front back)) := by
  unfold create
  exact attempt_serves (serves _) (if_pos isDir)

theorem chmod_serves (serves : world.fails host.log.length (.chmod path) = none) :
    ∃ host', chmod world host path = (host', .ok ()) :=
  attempt_serves serves rfl

theorem write_serves (data : String) (serves : world.fails host.log.length (.write path) = none)
    (held : look host.tree (place path.toList) = some (.file content)) :
    ∃ host', write world host path data = (host', .ok ()) :=
  attempt_serves serves (by rw [held])

theorem rename_serves (serves : world.fails host.log.length (.rename old new) = none)
    (held : FileTree.get host.tree (place old.toList) = some moved)
    (free : look host.tree (place new.toList) ≠ some .dir)
    (fits : kind moved = .dir → look host.tree (place new.toList) = none)
    (apart : place old.toList ≠ place new.toList → ¬ place old.toList <+: place new.toList)
    (isDir : look host.tree (place new.toList).dropLast = some .dir) :
    ∃ host', rename world host old new = (host', .ok ()) := by
  apply attempt_serves serves
  dsimp only
  rw [held]
  dsimp only
  split
  · rename_i here
    exact absurd here free
  · rename_i here dir
    rw [fits dir] at here
    cases here
  · rw [if_neg (fun inside => apart inside.1 inside.2), if_neg (not_not.mpr isDir)]

theorem stat_serves (serves : world.fails host.log.length (.stat path) = none) :
    ∃ host', stat world host path = (host', if FileTree.get host.tree (place path.toList) = none
      then .error .notExist else .ok ()) ∧ host'.tree = host.tree := by
  refine ⟨⟨host.tree, .stat path :: host.log⟩, ?_, rfl⟩
  unfold stat attempt
  rw [serves]
  cases here : FileTree.get host.tree (place path.toList) <;> simp [here]

theorem removeAll_serves (serves : world.fails host.log.length (.removeAll path) = none) :
    (removeAll world host path).2 = .ok () := by
  unfold removeAll
  dsimp only
  rw [serves]

/-- A temporary file is created, filled and moved to its place in the same directory. -/
theorem replace_serves (data : String)
    (serves : ∀ n op, world.fails n op = none) (nonempty : dir ≠ "")
    (isName : ∀ number : Nat, IsName (front ++ toString number ++ back).toList)
    (dirPlace : place dir.toList = parent) (targetPlace : place target.toList = parent ++ [name])
    (isDir : look host.tree parent = some .dir)
    (free : look host.tree (parent ++ [name]) ≠ some .dir) :
    ∃ host₂ tmp host₃ host₄ host₅, createTemp world host dir front back = (host₂, .ok tmp) ∧
      write world host₂ tmp data = (host₃, .ok ()) ∧ chmod world host₃ tmp = (host₄, .ok ()) ∧
      rename world host₄ tmp target = (host₅, .ok ()) := by
  subst dirPlace
  obtain ⟨temp, -, tempPlace, fresh⟩ := tempPath_free world host nonempty isName isDir
  obtain ⟨host₂, created⟩ := create_serves (fun path => serves _ (.createTemp path)) isDir
  obtain ⟨-, -, tree₂⟩ := create_ok _ _ created
  rw [tempPlace] at tree₂
  have looks₂ := look_alter_file "" isDir (by rw [fresh]; simp)
  rw [← tree₂] at looks₂
  have dir₂ : look host₂.tree (place dir.toList) = some .dir := by
    rw [looks₂, if_neg (by simp), isDir]
  obtain ⟨host₃, written⟩ := write_serves data (serves _ _)
    (tempPlace.symm ▸ (looks₂ _).trans (if_pos rfl))
  have tree₃ := write_ok _ _ written
  rw [tempPlace] at tree₃
  have looks₃ := look_alter_file data dir₂ (by rw [looks₂, if_pos rfl]; simp)
  rw [← tree₃] at looks₃
  obtain ⟨host₄, changed⟩ := chmod_serves (serves host₃.log.length _)
  have tree₄ := chmod_ok _ _ changed
  have held : FileTree.get host₄.tree (place dir.toList ++ [temp]) = some (.file data) := by
    rw [tree₄, ← look_eq_file, looks₃, if_pos rfl]
  have free₄ : look host₄.tree (place target.toList) ≠ some .dir := by
    rw [targetPlace, tree₄, looks₃]
    split
    · simp
    · rename_i other
      rwa [looks₂, if_neg other]
  have apart : place dir.toList ++ [temp] ≠ place dir.toList ++ [name] →
      ¬ place dir.toList ++ [temp] <+: place dir.toList ++ [name] :=
    fun differs => (apart_siblings fun same => differs (by rw [same])).1
  have dir₄ : look host₄.tree (place target.toList).dropLast = some .dir := by
    rw [targetPlace, dropLast_concat, tree₄, looks₃, if_neg (by simp), dir₂]
  obtain ⟨host₅, moved⟩ := rename_serves (serves host₄.log.length (.rename _ target))
    (tempPlace.symm ▸ held) free₄ (fun dir => by cases dir)
      (tempPlace.symm ▸ targetPlace.symm ▸ apart) dir₄
  exact ⟨host₂, _, host₃, host₄, host₅, created, written, changed, moved⟩

end
end Host

section
variable {host : Host}

/-- What lies apart from a place is as before. -/
def SameApart (base : List Text) (tree tree' : Files) : Prop :=
  ∀ other, Apart base other → FileTree.get tree' other = FileTree.get tree other

namespace SameApart

theorem refl (tree : Files) : SameApart base tree tree := fun _ _ => rfl

theorem trans (first : SameApart base tree tree') (second : SameApart base tree' tree'') :
    SameApart base tree tree'' :=
  fun other apart => (second other apart).trans (first other apart)

theorem alter {place : List Text} (below : base <+: place) :
    SameApart base tree (alter change tree place) :=
  fun _ apart => get_alter_apart (apart.symm.below below).symm

theorem of_attempt (acts : ∀ tree' answer, act host.tree = .ok (tree', answer) →
      SameApart base host.tree tree') :
    SameApart base host.tree (host.attempt world op act).1.tree := by
  unfold Host.attempt
  split
  · exact .refl _
  split
  · exact .refl _
  · rename_i carried
    exact acts _ _ carried

theorem mkdirAll (below : base <+: place path.toList) :
    SameApart base host.tree (host.mkdirAll world path).1.tree := by
  refine of_attempt fun tree' answer carried => ?_
  split at carried
  · cases carried
  · rename_i here
    cases carried
    exact fun other apart => mkdirAll_get here (apart.symm.below below).1

theorem create {op : String → DiskOp}
    (below : base <+: place (host.tempPath world dir front back).toList) :
    SameApart base host.tree (host.create world op dir front back entry).1.tree := by
  refine of_attempt fun tree' answer carried => ?_
  split at carried
  · cases carried
    exact alter below
  · cases carried

theorem chmod : SameApart base host.tree (host.chmod world path).1.tree := by
  refine of_attempt fun tree' answer carried => ?_
  cases carried
  exact .refl _

theorem write (below : base <+: place path.toList) :
    SameApart base host.tree (host.write world path data).1.tree := by
  refine of_attempt fun tree' answer carried => ?_
  split at carried
  · cases carried
    exact alter below
  · cases carried

theorem remove (below : base <+: place path.toList) :
    SameApart base host.tree (host.remove world path).1.tree := by
  refine of_attempt fun tree' answer carried => ?_
  split at carried
  · cases carried
  · cases carried
  · cases carried
    exact alter below

theorem rename (below : base <+: place old.toList) (below' : base <+: place new.toList) :
    SameApart base host.tree (host.rename world old new).1.tree := by
  cases moved : host.rename world old new with
  | mk host' result =>
    cases result with
    | error fault =>
      rw [show host'.tree = host.tree from Host.attempt_error world host moved]
      exact .refl _
    | ok _ =>
      obtain ⟨tree, -, -, same⟩ := Host.rename_ok world host moved
      rw [same]
      exact (alter below).trans (alter below')

theorem removeAll (below : base <+: place path.toList) :
    SameApart base host.tree (host.removeAll world path).1.tree := by
  unfold Host.removeAll
  dsimp only
  split <;> exact alter below

end SameApart
end
end Zester
