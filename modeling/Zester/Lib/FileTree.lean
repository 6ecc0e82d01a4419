import Mathlib.Data.List.Basic

/-! Directory trees. A place is a list of names; what is at a place is a file, a
directory or nothing. -/

inductive FileTree (ν β : Type) where
  | file (content : β)
  | dir (children : List (ν × FileTree ν β))

namespace FileTree
open List Function

/-- What is at a place. -/
abbrev Spot (ν β : Type) := Option (FileTree ν β)

mutual

/-- Everything below, with its place and, for a file, its content. -/
def walk : FileTree ν β → List (List ν × Option β)
  | .file _ => []
  | .dir children => walkChildren children

def walkChildren : List (ν × FileTree ν β) → List (List ν × Option β)
  | [] => []
  | (name, tree) :: children =>
    ([name], match tree with
      | .file content => some content
      | .dir _ => none) ::
      (walk tree).map (fun entry => (name :: entry.1, entry.2)) ++ walkChildren children

end

theorem walkChildren_ne_nil (member : entry ∈ walkChildren children) : entry.1 ≠ [] := by
  induction children with
  | nil => simp [walkChildren] at member
  | cons first children ih =>
    obtain ⟨name, tree⟩ := first
    simp only [walkChildren, cons_append, mem_cons, mem_append, mem_map] at member
    obtain rfl | ⟨below, -, rfl⟩ | later := member
    · simp
    · simp
    · exact ih later

theorem walk_ne_nil (member : entry ∈ walk tree) : entry.1 ≠ [] := by
  cases tree with
  | file content => simp [walk] at member
  | dir children => exact walkChildren_ne_nil (by simpa [walk] using member)

/-- Neither place lies at or below the other. -/
def Apart (place other : List ν) : Prop := ¬ place <+: other ∧ ¬ other <+: place

theorem Apart.symm (apart : Apart place other) : Apart other place := ⟨apart.2, apart.1⟩

theorem Apart.ne (apart : Apart place other) : place ≠ other :=
  fun same => apart.1 (same ▸ prefix_refl _)

theorem Apart.below (apart : Apart other base) (below : base <+: place) : Apart other place := by
  refine ⟨fun above => ?_, fun under => apart.2 (below.trans under)⟩
  obtain inside | outside := prefix_or_prefix_of_prefix above below
  · exact apart.1 inside
  · exact apart.2 outside

theorem apart_siblings (differs : name ≠ name') : Apart (base ++ [name]) (base ++ [name']) := by
  simp [Apart, prefix_append_right_inj, differs, differs.symm]

theorem not_below_itself (parent : List ν) (name : ν) : ¬ parent ++ [name] <+: parent := by
  intro up
  have := up.length_le
  rw [length_append, length_singleton] at this
  omega

variable [DecidableEq ν]

section

def child : List (ν × FileTree ν β) → ν → Spot ν β
  | [], _ => none
  | (other, tree) :: children, name => if other = name then some tree else child children name

def setChild (children : List (ν × FileTree ν β)) (name : ν) (spot : Spot ν β) :
    List (ν × FileTree ν β) :=
  let others := children.filter fun entry => entry.1 ≠ name
  match spot with
  | none => others
  | some tree => (name, tree) :: others

variable {children : List (ν × FileTree ν β)}

theorem child_filter_self : child (children.filter fun entry => entry.1 ≠ name) name = none := by
  induction children with
  | nil => rfl
  | cons entry children ih =>
    obtain ⟨first, tree⟩ := entry
    by_cases same : first = name
    · simpa [same] using ih
    · simpa [same, child] using ih

theorem child_filter_ne (differs : other ≠ name) :
    child (children.filter fun entry => entry.1 ≠ name) other = child children other := by
  induction children with
  | nil => rfl
  | cons entry children ih =>
    obtain ⟨first, tree⟩ := entry
    by_cases same : first = name
    · have elsewhere : first ≠ other := fun here => differs (here.symm.trans same)
      simpa [same, child, elsewhere, differs.symm] using ih
    · by_cases here : first = other
      · simp [child, here, differs]
      · simpa [same, child, here] using ih

@[simp] theorem child_setChild_self (spot : Spot ν β) :
    child (setChild children name spot) name = spot := by
  cases spot with
  | none => exact child_filter_self
  | some tree => simp [setChild, child]

@[simp] theorem child_setChild_ne (differs : other ≠ name) (spot : Spot ν β) :
    child (setChild children name spot) other = child children other := by
  cases spot with
  | none => exact child_filter_ne differs
  | some tree =>
    simp only [setChild, child, differs.symm, if_false]
    exact child_filter_ne differs

theorem child_eq_none (free : name ∉ children.map Prod.fst) : child children name = none := by
  induction children with
  | nil => rfl
  | cons first children ih =>
    simp only [map_cons, mem_cons, not_or] at free
    rw [child, if_neg (Ne.symm free.1), ih free.2]

end

def get : Spot ν β → List ν → Spot ν β
  | spot, [] => spot
  | some (.dir children), name :: place => get (child children name) place
  | _, _ :: _ => none

inductive Kind (β : Type) where
  | dir
  | file (content : β)
  deriving DecidableEq

def kind : FileTree ν β → Kind β
  | .file content => .file content
  | .dir _ => .dir

def look (spot : Spot ν β) (place : List ν) : Option (Kind β) := (get spot place).map kind

/-- Changes what is at a place, where its parent is a directory. -/
def alter (change : Spot ν β → Spot ν β) : Spot ν β → List ν → Spot ν β
  | spot, [] => change spot
  | some (.dir children), name :: place =>
    some (.dir (setChild children name (alter change (child children name) place)))
  | spot, _ :: _ => spot

/-- Creates a directory with all its parents, unless a file is in the way. -/
def mkdirAll : Spot ν β → List ν → Spot ν β
  | some (.file _), _ => none
  | none, [] => some (.dir [])
  | some (.dir children), [] => some (.dir children)
  | none, name :: place => (mkdirAll none place).map fun tree => .dir [(name, tree)]
  | some (.dir children), name :: place =>
    (mkdirAll (child children name) place).map fun tree => .dir (setChild children name (some tree))

section
variable {place : List ν}

@[simp] theorem get_nil (spot : Spot ν β) : get spot [] = spot := by
  rw [get]

@[simp] theorem get_none (place : List ν) : get (none : Spot ν β) place = none := by
  cases place <;> rfl

@[simp] theorem get_file_cons (content : β) (name : ν) (place : List ν) :
    get (some (.file content) : Spot ν β) (name :: place) = none := rfl

@[simp] theorem get_dir_cons (children : List (ν × FileTree ν β)) (name : ν) (place : List ν) :
    get (some (.dir children)) (name :: place) = get (child children name) place := rfl

theorem get_append (spot : Spot ν β) (place other : List ν) :
    get spot (place ++ other) = get (get spot place) other := by
  induction place generalizing spot with
  | nil => simp
  | cons name place ih =>
    obtain _ | content | children := spot
    · simp
    · simp
    · simpa using ih (child children name)

theorem look_append (spot : Spot ν β) (place other : List ν) :
    look spot (place ++ other) = look (get spot place) other := by
  simp only [look, get_append]

@[simp] theorem look_none (place : List ν) : look (none : Spot ν β) place = none := by
  simp [look]

theorem look_eq_dir :
    look spot place = some .dir ↔ ∃ children, get spot place = some (.dir children) := by
  rcases here : get spot place with _ | content | children <;> simp [look, here, kind]

theorem look_eq_file :
    look spot place = some (.file content) ↔ get spot place = some (.file content) := by
  rcases here : get spot place with _ | content' | children <;> simp [look, here, kind]

theorem look_eq_none : look spot place = none ↔ get spot place = none := by
  simp [look]

theorem look_of_below (above : place <+: other) (strict : place ≠ other)
    (there : look spot other ≠ none) : look spot place = some .dir := by
  obtain ⟨rest, rfl⟩ := above
  rw [look_append] at there
  cases rest with
  | nil => simp at strict
  | cons name rest =>
    rw [look_eq_dir]
    rcases here : get spot place with _ | content | children
    · simp [here] at there
    · simp [here, look] at there
    · exact ⟨children, rfl⟩

end

section
variable {spot : Spot ν β} {name : ν}

theorem get_alter_here (dir : look spot parent = some .dir) :
    get (alter change spot (parent ++ [name])) (parent ++ [name]) =
      change (get spot (parent ++ [name])) := by
  induction parent generalizing spot with
  | nil =>
    obtain ⟨children, here⟩ := look_eq_dir.mp dir
    rw [get_nil] at here
    simp [here, alter]
  | cons first parent ih =>
    obtain _ | content | children := spot
    · simp at dir
    · simp [look] at dir
    · simp only [cons_append, alter, get_dir_cons, child_setChild_self]
      exact ih (by simpa [look] using dir)

/-- A change shows at the place, below it, and in the directories above it. -/
theorem get_alter_of_not_below (outside : ¬ place <+: other) :
    get (alter change spot place) other = get spot other ∨
      other <+: place ∧ look (alter change spot place) other = look spot other := by
  induction place generalizing spot other with
  | nil => exact absurd nil_prefix outside
  | cons first place ih =>
    obtain _ | content | children := spot
    · exact .inl rfl
    · exact .inl rfl
    · cases other with
      | nil => exact .inr ⟨List.nil_prefix, rfl⟩
      | cons name other =>
        by_cases same : name = first
        · subst same
          have below : ¬ place <+: other := fun above => outside (by simpa using above)
          simpa [look, alter] using @ih (child children name) other below
        · exact .inl (by simp [alter, child_setChild_ne same])

theorem look_alter_of_not_below (outside : ¬ place <+: other) :
    look (alter change spot place) other = look spot other := by
  obtain same | ⟨-, same⟩ := get_alter_of_not_below outside
  · rw [look, same, look]
  · exact same

theorem get_alter_apart (apart : Apart place other) :
    get (alter change spot place) other = get spot other :=
  (get_alter_of_not_below apart.1).resolve_right fun above => apart.2 above.1

/-- What a change of one place does to what is seen. -/
theorem look_alter (dir : look spot parent = some .dir) (rest : List ν) :
    look (alter change spot (parent ++ [name])) (parent ++ [name] ++ rest) =
      look (change (get spot (parent ++ [name]))) rest := by
  rw [look_append, get_alter_here dir]

def entry (spot : Spot ν β) (parent : List ν) (name : ν) : Spot ν β := get spot (parent ++ [name])

theorem look_alter_parent : look (alter change spot (parent ++ [name])) parent = look spot parent :=
  look_alter_of_not_below (not_below_itself parent name)

theorem entry_alter (dir : look spot parent = some .dir) :
    entry (alter change spot (parent ++ [name])) parent =
      update (entry spot parent) name (change (entry spot parent name)) := by
  funext other
  by_cases same : other = name
  · subst same
    rw [update_self, entry, get_alter_here dir, entry]
  · rw [update_of_ne same, entry, get_alter_apart (apart_siblings (Ne.symm same)), entry]

end

section
variable {place other : List ν}

theorem mkdirAll_isSome (clear : ∀ above, above <+: place → ∀ content,
      look spot above ≠ some (.file content)) : ∃ tree, mkdirAll spot place = some tree := by
  induction place generalizing spot with
  | nil =>
    obtain _ | content | children := spot
    · exact ⟨_, rfl⟩
    · exact absurd rfl (clear [] nil_prefix content)
    · exact ⟨_, rfl⟩
  | cons name place ih =>
    obtain _ | content | children := spot
    · obtain ⟨tree, made⟩ := @ih none (by simp)
      exact ⟨_, by rw [mkdirAll, made]; rfl⟩
    · exact absurd rfl (clear [] nil_prefix content)
    · obtain ⟨tree, made⟩ := @ih (child children name) fun above up content =>
        clear (name :: above) (by simpa using up) content
      exact ⟨_, by rw [mkdirAll, made]; rfl⟩

/-- A place with nothing becomes an empty directory first. -/
theorem mkdirAll_cons (made : mkdirAll spot (name :: place) = some tree) :
    ∃ children sub, mkdirAll (child children name) place = some sub ∧
      tree = .dir (setChild children name (some sub)) ∧
      (∀ content, look spot [] ≠ some (.file content)) ∧
      ∀ first other, get spot (first :: other) = get (child children first) other := by
  obtain _ | content | children := spot
  · obtain ⟨sub, below, rfl⟩ := Option.map_eq_some_iff.mp made
    exact ⟨[], sub, below, rfl, by simp, by simp [child]⟩
  · cases made
  · obtain ⟨sub, below, rfl⟩ := Option.map_eq_some_iff.mp made
    exact ⟨children, sub, below, rfl, by simp [look, kind], fun _ _ => rfl⟩

theorem mkdirAll_get (made : mkdirAll spot place = some tree) (outside : ¬ other <+: place) :
    get (some tree) other = get spot other := by
  cases other with
  | nil => exact absurd nil_prefix outside
  | cons name other =>
    induction place generalizing spot tree name other with
    | nil => obtain _ | content | children := spot <;> cases made <;> simp [child]
    | cons first place ih =>
      obtain ⟨children, sub, below, rfl, -, same⟩ := mkdirAll_cons made
      rw [same, get_dir_cons]
      by_cases here : name = first
      · subst here
        rw [child_setChild_self]
        cases other with
        | nil => simp at outside
        | cons name' other => exact ih below name' other fun above => outside (by simpa using above)
      · rw [child_setChild_ne here]

theorem mkdirAll_above (made : mkdirAll spot place = some tree) (above : other <+: place) :
    look (some tree) other = some .dir ∧ ∀ content, look spot other ≠ some (.file content) := by
  induction place generalizing spot tree other with
  | nil =>
    obtain rfl := prefix_nil.mp above
    obtain _ | content | children := spot <;> cases made <;> simp [look, kind]
  | cons first place ih =>
    obtain ⟨children, sub, below, rfl, clear, same⟩ := mkdirAll_cons made
    cases other with
    | nil => exact ⟨rfl, clear⟩
    | cons name other =>
      obtain ⟨rfl, up⟩ := cons_prefix_cons.mp above
      simpa [look, same] using ih below up

theorem look_mkdirAll (made : mkdirAll spot place = some tree) (other : List ν)
    [Decidable (other <+: place)] :
    look (some tree) other = if other <+: place then some .dir else look spot other := by
  split
  · rename_i above
    exact (mkdirAll_above made above).1
  · rename_i outside
    rw [look, mkdirAll_get made outside, look]

end

section
variable {spot : Spot ν β}

theorem look_below_of_not_dir (notDir : look spot place ≠ some .dir) (nonempty : rest ≠ []) :
    look spot (place ++ rest) = none := by
  by_contra there
  exact notDir (look_of_below (prefix_append place rest) (by simp [nonempty]) there)

theorem look_alter_file (content : β) (dir : look spot parent = some .dir)
    (notDir : look spot (parent ++ [name]) ≠ some .dir) (other : List ν) :
    look (alter (fun _ => some (.file content)) spot (parent ++ [name])) other =
      if other = parent ++ [name] then some (.file content) else look spot other := by
  by_cases below : parent ++ [name] <+: other
  · obtain ⟨rest, rfl⟩ := below
    rw [look_alter dir]
    cases rest with
    | nil => simp [look, kind]
    | cons first rest =>
      rw [look_below_of_not_dir notDir (by simp)]
      simp [look]
  · rw [look_alter_of_not_below below, if_neg]
    rintro rfl
    exact below (prefix_refl _)

theorem look_alter_none (dir : look spot parent = some .dir) (other : List ν)
    [Decidable (parent ++ [name] <+: other)] :
    look (alter (fun _ => none) spot (parent ++ [name])) other =
      if parent ++ [name] <+: other then none else look spot other := by
  split
  · rename_i below
    obtain ⟨rest, rfl⟩ := below
    rw [look_alter dir, look_none]
  · rename_i outside
    exact look_alter_of_not_below outside

/-- A file that is written under a name of its own and then moved to its place. -/
theorem look_replace (dir : look spot parent = some .dir)
    (fresh : look spot (parent ++ [temp]) = none)
    (created : tree₁ = alter (fun _ => some (.file draft)) spot (parent ++ [temp]))
    (written : tree₂ = alter (fun _ => some (.file content)) tree₁ (parent ++ [temp]))
    (holds : get tree₂ (parent ++ [temp]) = some moved)
    (notDir : look tree₂ (parent ++ [name]) ≠ some .dir) (other : List ν) :
    look (alter (fun _ => some moved) (alter (fun _ => none) tree₂ (parent ++ [temp]))
        (parent ++ [name])) other =
      if other = parent ++ [name] then some (.file content) else look spot other := by
  have apart : parent ≠ parent ++ [temp] := by simp
  have first : ∀ other, look tree₁ other =
      if other = parent ++ [temp] then some (.file draft) else look spot other := by
    rw [created]
    exact look_alter_file draft dir (by simp [fresh])
  have second : ∀ other, look tree₂ other =
      if other = parent ++ [temp] then some (.file content) else look spot other := by
    intro other
    rw [written, look_alter_file content (by rw [first, if_neg apart, dir])
      (by simp [first]), first]
    split <;> rfl
  obtain rfl : moved = .file content := by
    have here := second (parent ++ [temp])
    rw [if_pos rfl, look_eq_file, holds] at here
    exact Option.some.inj here
  have dir₂ : look tree₂ parent = some .dir := by rw [second, if_neg apart, dir]
  -- without the temporary file the tree looks as it did
  have third : ∀ other, look (alter (fun _ => none) tree₂ (parent ++ [temp])) other =
      look spot other := by
    intro other
    classical
    rw [look_alter_none dir₂]
    split
    · rename_i below
      obtain ⟨rest, rfl⟩ := below
      cases rest with
      | nil => simpa using fresh.symm
      | cons first rest => rw [look_below_of_not_dir (by simp [fresh]) (by simp)]
    · rename_i outside
      rw [second, if_neg]
      rintro rfl
      exact outside (prefix_refl _)
  have free : look spot (parent ++ [name]) ≠ some .dir := by
    by_cases same : parent ++ [name] = parent ++ [temp]
    · simp [same, fresh]
    · rwa [second, if_neg same] at notDir
  rw [look_alter_file content (by rw [third, dir]) (by rwa [third]), third]

end
end FileTree
