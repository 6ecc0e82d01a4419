import Zester.Settings.ReadingProofs

/-! The round trip of secrets. A secret is restored along the dots of its key, so
it comes back to its place where no key on the way holds a dot and no sequence
lies above it, nor a mapping with a key that is no string. -/
namespace Zester.Settings
open List Option AList
open Value

mutual

/-- The encrypted mapping values of a tree in document order, each with its
dotted key and its text. -/
def encryptedValues (pre : String) : Node → List (String × String)
  | .mapping _ pairs => encryptedPairs pre pairs
  | .sequence _ items | .document items => encryptedItems pre items
  | .scalar _ _ _ | .aliasNode _ => []

def encryptedPairs (pre : String) : List (Node × Node) → List (String × String)
  | [] => []
  | (key, node) :: pairs =>
    (if node.tag = encryptedTag then [(pre ++ key.value, node.value)] else []) ++
      encryptedValues (pre ++ key.value ++ ".") node ++ encryptedPairs pre pairs

def encryptedItems (pre : String) : List Node → List (String × String)
  | [] => []
  | node :: items => encryptedValues pre node ++ encryptedItems pre items

end

mutual

theorem sanitizeNodes_secrets (pre : String) :
    ∀ node, (sanitizeNodes pre node).2 = encryptedValues pre node
  | .mapping tag pairs => by simp [sanitizeNodes, encryptedValues, sanitizePairs_secrets pre pairs]
  | .sequence tag items => by simp [sanitizeNodes, encryptedValues, sanitizeItems_secrets pre items]
  | .document content => by
    simp [sanitizeNodes, encryptedValues, sanitizeItems_secrets pre content]
  | .scalar _ _ _ => rfl
  | .aliasNode _ => rfl

theorem sanitizePairs_secrets (pre : String) :
    ∀ pairs, (sanitizePairs pre pairs).2 = encryptedPairs pre pairs
  | [] => rfl
  | (key, node) :: pairs => by
    simp [sanitizePairs, encryptedPairs, takeSecret,
      sanitizeNodes_secrets (pre ++ key.value ++ ".") node, sanitizePairs_secrets pre pairs]

theorem sanitizeItems_secrets (pre : String) :
    ∀ items, (sanitizeItems pre items).2 = encryptedItems pre items
  | [] => rfl
  | node :: items => by
    simp [sanitizeItems, encryptedItems, sanitizeNodes_secrets pre node,
      sanitizeItems_secrets pre items]

end

theorem subset_encryptedPairs (member : pair ∈ pairs) :
    takeSecret (pre ++ pair.1.value) pair.2 ++ encryptedValues (pre ++ pair.1.value ++ ".") pair.2 ⊆
      encryptedPairs pre pairs := by
  induction pairs with
  | nil => contradiction
  | cons head pairs ih =>
    rcases mem_cons.mp member with rfl | member
    · exact subset_append_left _ _
    · exact Subset.trans (ih member) (subset_append_right _ _)

theorem subset_encryptedItems (member : item ∈ items) :
    encryptedValues pre item ⊆ encryptedItems pre items := by
  induction items with
  | nil => contradiction
  | cons head items ih =>
    rcases mem_cons.mp member with rfl | member
    · exact subset_append_left _ _
    · exact Subset.trans (ih member) (subset_append_right _ _)

namespace Place
variable {place next : Place}

/-- The secrets that the walk lists at the place and below it. -/
def secrets (place : Place) : List (String × String) :=
  (place.key.elim [] fun key => takeSecret key place.node) ++ encryptedValues place.pre place.node

theorem enter_secrets (entered : place.enter resolve step = some next) :
    next.secrets ⊆ place.secrets := by
  refine Subset.trans ?_ (subset_append_right _ _)
  obtain ⟨pairs, pair, form, member, rfl, -⟩ | ⟨items, item, i, form, member, -, rfl⟩ :=
    enter_cases entered
  · cases node : place.node with
    | mapping tag others =>
      rw [node] at form
      cases form
      exact subset_encryptedPairs member
    | _ =>
      rw [node] at form
      cases form
  · cases node : place.node with
    | sequence tag others =>
      rw [node] at form
      cases form
      exact subset_encryptedItems member
    | _ =>
      rw [node] at form
      cases form

theorem visit_secrets (path : Path) (visited : place.visit resolve path = some next) :
    next.secrets ⊆ place.secrets := by
  induction path generalizing place with
  | nil =>
    cases visited
    exact Subset.refl _
  | cons step path ih =>
    rw [visit_cons] at visited
    obtain ⟨middle, entered, visited⟩ := bind_eq_some_iff.mp visited
    exact Subset.trans (ih visited) (enter_secrets entered)

theorem enter_field {key : String} (entered : place.enter resolve (.field key) = some next) :
    next.pre = place.pre ++ key ++ "." ∧ next.key = some (place.pre ++ key) := by
  obtain ⟨pairs, pair, -, -, rfl, named⟩ | ⟨_, _, _, -, -, other, -⟩ := enter_cases entered
  · cases named key rfl
    exact ⟨rfl, rfl⟩
  · cases other

theorem visit_fields (parts : List String) (nonempty : parts ≠ [])
    (visited : place.visit resolve (fields parts) = some next) :
    next.key.map String.toList =
      some (place.pre.toList ++ ['.'].intercalate (parts.map String.toList)) := by
  induction parts generalizing place with
  | nil => contradiction
  | cons part parts ih =>
    rw [fields, map_cons, visit_cons] at visited
    obtain ⟨middle, entered, visited⟩ := bind_eq_some_iff.mp visited
    obtain ⟨pre, own⟩ := enter_field entered
    cases parts with
    | nil =>
      cases visited
      simp [own]
    | cons part' parts =>
      rw [ih (by simp) visited, pre]
      simp [intercalate_cons_cons]

end Place

theorem splitDots_ne_nil (key : String) : splitDots key ≠ [] := by
  simp [splitDots]

theorem intercalate_splitDots (key : String) :
    ['.'].intercalate ((splitDots key).map String.toList) = key.toList := by
  simp [splitDots, Function.comp_def, intercalate_splitOn]

theorem visit_splitDots {place : Place}
    (visited : (Place.root root).visit resolve (fields (splitDots key)) = some place) :
    place.key = some key := by
  have own := Place.visit_fields _ (splitDots_ne_nil key) visited
  obtain ⟨full, found, same⟩ := map_eq_some_iff.mp own
  rw [found, some.injEq]
  apply String.toList_injective
  rw [same, intercalate_splitDots]
  rfl

theorem secretsMap_of_mem (member : secret ∈ assignments) : secret.1 ∈ secretsMap assignments := by
  have grows : ∀ (assignments : List (String × String)) (secrets : Table String),
      (secret.1 ∈ secrets ∨ secret ∈ assignments) →
      secret.1 ∈ assignments.foldl
          (fun secrets entry => secrets.insert entry.1 entry.2) secrets := by
    intro assignments
    induction assignments with
    | nil => simp
    | cons entry assignments ih =>
      intro secrets known
      refine ih _ ?_
      rw [mem_insert]
      rcases known with known | known
      · exact .inl (.inr known)
      · rcases mem_cons.mp known with rfl | known
        · exact .inl (.inl rfl)
        · exact .inr known
  exact grows assignments ∅ (.inr member)

/-- Secrets that stand in `original` as strings, merged into settings that have
scalars there, change nothing but these scalars. -/
theorem observe_merged {original : Value} (secrets : List (Sigma fun _ : String => String))
    (settings : Entries)
    (strings : ∀ secret ∈ secrets,
      original.observe (fields (splitDots secret.1)) = some (.scalar (.str secret.2)))
    (scalars : ∀ secret ∈ secrets, ∃ v,
      (Value.map settings).observe (fields (splitDots secret.1)) = some (.scalar v)) (path : Path) :
    (Value.map (secrets.foldl (fun result secret =>
        setNestedValue result (splitDots secret.1) (.str secret.2)) settings)).observe path =
      if ∃ secret ∈ secrets, path = fields (splitDots secret.1) then original.observe path
      else (Value.map settings).observe path := by
  induction secrets generalizing settings with
  | nil => simp
  | cons secret secrets ih =>
    obtain ⟨string, strings⟩ := forall_mem_cons.mp strings
    obtain ⟨⟨old, stood⟩, scalars⟩ := forall_mem_cons.mp scalars
    have set := observe_setNestedValue settings _ (splitDots_ne_nil secret.1) stood secret.2
    rw [foldl_cons, ih _ strings fun other member => ?_]
    · rw [set]
      by_cases later : ∃ other ∈ secrets, path = fields (splitDots other.1)
      · have any : ∃ other ∈ secret :: secrets, path = fields (splitDots other.1) :=
          later.imp fun other h => ⟨mem_cons_of_mem _ h.1, h.2⟩
        rw [if_pos later, if_pos any]
      · by_cases here : path = fields (splitDots secret.1)
        · have any : ∃ other ∈ secret :: secrets, path = fields (splitDots other.1) :=
            ⟨secret, mem_cons_self, here⟩
          rw [if_neg later, if_pos here, if_pos any, here, string]
        · have none : ¬ ∃ other ∈ secret :: secrets, path = fields (splitDots other.1) := by
            rintro ⟨other, member, same⟩
            rcases mem_cons.mp member with rfl | member
            · exact here same
            · exact later ⟨other, member, same⟩
          rw [if_neg later, if_neg here, if_neg none]
    · obtain ⟨v, shown⟩ := scalars other member
      rw [set]
      split
      · exact ⟨_, rfl⟩
      · exact ⟨v, shown⟩

/-- Where secrets come back to their place. -/
structure Restorable (resolve : Resolve) (root : Node) (original : Entries) : Prop where
  /-- Along the dots of its key, through maps with string keys, the original holds the text
  of the last encrypted mapping value with that key, as a string. -/
  dots : ∀ key text, (secretsMap (encryptedValues "" root)).lookup key = some text →
    (Value.map original).observe (fields (splitDots key)) = some (.scalar (.str text))
  /-- An encrypted mapping value elsewhere (a dot in a key on its path, or a sequence or a
  mapping with other keys above it) reads as its own placeholder. -/
  elsewhere : ∀ path place key style text, (Place.root root).visit resolve path = some place →
    place.node = .scalar encryptedTag style text → place.key = some key →
    path ≠ fields (splitDots key) → resolve "" style text = some ⟨.str (placeholder key), rfl⟩
  /-- The tag of an encrypted sequence item changes nothing for the decoder. -/
  items : ∀ path place style text, (Place.root root).visit resolve path = some place →
    place.node = .scalar encryptedTag style text → place.key = none →
    resolve encryptedTag style text = resolve "" style text

section
variable {resolve : Resolve} {original : Entries}
  (both : BothRead resolve root settings original)
include both

theorem BothRead.observe_value
    (shown : (Value.map original).observe (fields (splitDots key)) = some (.scalar w)) :
    ∃ v, (Value.map settings).observe (fields (splitDots key)) = some (.scalar v) := by
  rw [both.original] at shown
  rw [both.sanitized]
  obtain ⟨place, visited, shown⟩ := bind_eq_some_iff.mp shown
  rw [visited, bind_some]
  by_cases other : ∀ style text, place.node ≠ .scalar encryptedTag style text
  · exact ⟨w, (Place.shape_sanitize both.scalars other).trans shown⟩
  push Not at other
  obtain ⟨style, text, node⟩ := other
  have read := Place.read_sanitize_value both.scalars node (visit_splitDots visited)
  refine ⟨.str (placeholder key), ?_⟩
  rw [Place.shape_leaf (Place.sanitize_leaf node).1, read, map_some]

theorem observe_mergeSecrets (it : Ranging)
    (dots : ∀ key text, (secretsMap (encryptedValues "" root)).lookup key = some text →
      (Value.map original).observe (fields (splitDots key)) = some (.scalar (.str text)))
    (path : Path) :
    (Value.map (mergeSecrets it settings (secretsMap (encryptedValues "" root)))).observe path =
      if ∃ key ∈ secretsMap (encryptedValues "" root), path = fields (splitDots key) then
        (Value.map original).observe path
      else (Value.map settings).observe path := by
  have strings : ∀ secret ∈ it.order [0] (secretsMap (encryptedValues "" root)).entries,
      (Value.map original).observe (fields (splitDots secret.1)) =
          some (.scalar (.str secret.2)) := by
    intro secret member
    exact dots secret.1 secret.2 (mem_lookup_iff.mpr ((it.mem_order _).mp member))
  rw [mergeSecrets, observe_merged _ settings strings fun secret member =>
    both.observe_value (strings secret member)]
  refine if_congr ?_ rfl rfl
  constructor
  · rintro ⟨secret, member, same⟩
    exact ⟨secret.1, mem_keys_of_mem ((it.mem_order _).mp member), same⟩
  · rintro ⟨key, known, same⟩
    obtain ⟨text, found⟩ := isSome_iff_exists.mp (lookup_isSome.mpr known)
    exact ⟨⟨key, text⟩, (it.mem_order _).mpr (mem_lookup_iff.mp found), same⟩

omit both in
/-- Merging reaches an encrypted mapping value exactly when its path follows the
dots of its key. -/
theorem reached_iff {place : Place} {key : String}
    (visited : (Place.root root).visit resolve path = some place)
    (node : place.node = .scalar encryptedTag style text) (value : place.key = some key) :
    (∃ other ∈ secretsMap (encryptedValues "" root), path = fields (splitDots other)) ↔
      path = fields (splitDots key) := by
  constructor
  · rintro ⟨other, _, rfl⟩
    have own := visit_splitDots visited
    rw [some.inj (value.symm.trans own)]
  · intro same
    have listed : (key, text) ∈ place.secrets := by
      simp [Place.secrets, value, node, takeSecret, Node.tag, Node.value]
    exact ⟨key, secretsMap_of_mem (Place.visit_secrets path visited listed), same⟩

theorem Restorable.merged (restorable : Restorable resolve root original) (it : Ranging) :
    (Value.map (mergeSecrets it settings (secretsMap (encryptedValues "" root)))).Same
      (.map original) := by
  intro path
  rw [observe_mergeSecrets both it restorable.dots]
  split
  · rfl
  rename_i missed
  rw [both.sanitized, both.original]
  cases visited : (Place.root root).visit resolve path with
  | none => rfl
  | some place =>
    refine Place.sanitize_along.shape_eq Place.plain_along place fun _ => ?_
    by_cases other : ∀ style text, place.node ≠ .scalar encryptedTag style text
    · exact Place.read_sanitize_other both.scalars other
    push Not at other
    obtain ⟨style, text, node⟩ := other
    rw [Place.read_plain node]
    cases key : place.key with
    | none =>
      rw [Place.read_sanitize_item node key,
        restorable.items path place style text visited node key]
    | some full =>
      have away := mt (reached_iff visited node key).mpr missed
      rw [Place.read_sanitize_value both.scalars node key,
        restorable.elsewhere path place full style text visited node key away]

end

/-- The encrypted items read as they do without the tag, so the sanitized file still reads. -/
theorem Restorable.readable {yaml : Yaml}
    (restorable : Restorable resolve root original) (scalars : resolve.ReadsScalars)
    (bare : yaml.ReadsTree resolve (untag root))
    (walked : yaml.ReadsTree resolve (sanitizeNodes "" root).1)
    (reads : (yaml.decode (.document [untag root])).isSome) :
    (yaml.decode (.document [(sanitizeNodes "" root).1])).isSome := by
  refine walked.readable.mpr fun path there visited => ?_
  change (Place.root root).sanitize.visit resolve path = some there at visited
  rw [Place.sanitize_along.visit] at visited
  obtain ⟨place, found, rfl⟩ := map_eq_some_iff.mp visited
  have old : place.plain.Reads resolve := by
    refine bare.readable.mp reads path place.plain ?_
    exact (Place.plain_along.visit (Place.root root) path).trans (congrArg _ found)
  refine Place.sanitize_along.reads Place.plain_along place old fun _ read => ?_
  by_cases other : ∀ style text, place.node ≠ .scalar encryptedTag style text
  · rwa [Place.read_sanitize_other scalars other]
  push Not at other
  obtain ⟨style, text, node⟩ := other
  cases key : place.key with
  | none =>
    rw [Place.read_plain node] at read
    rwa [Place.read_sanitize_item node key, restorable.items path place style text found node key]
  | some full => rw [Place.read_sanitize_value scalars node key, isSome_some]

/-- Every scalar of these files is a string. -/
def strings : Resolve := fun _ _ text => some ⟨.str text, rfl⟩

end Zester.Settings
