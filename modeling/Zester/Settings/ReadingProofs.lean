import Zester.Settings.SanitizeProofs

/-! What stands at a path in nested maps, and the sanitized tree read beside the original one. They
differ only where an encrypted value left its placeholder. -/
namespace Zester.Settings
open Option Value Function List

theorem lookup_cons_if (key k : String) (v : β) (rest : List (String × β)) :
    lookup key ((k, v) :: rest) = if key = k then some v else rest.lookup key := by
  by_cases same : key = k
  · simp [same]
  · simp [lookup_cons, same, beq_false_of_ne same]

theorem lookup_setEntry (entries : Entries) (k key : String) (v : Value) :
    (setEntry entries k v).lookup key = if key = k then some v else entries.lookup key := by
  induction entries with
  | nil => simp [setEntry, lookup_cons_if]
  | cons entry rest ih =>
    obtain ⟨head, value⟩ := entry
    unfold setEntry
    by_cases here : head = k
    · subst here
      simp only [if_true, lookup_cons_if]
      split <;> rfl
    · simp only [if_neg here, lookup_cons_if, ih]
      by_cases same : key = head
      · subst same
        simp [here]
      · simp [same]

/-- The path of map entries that the parts name. -/
def fields (parts : List String) : Path := parts.map .field

@[simp] theorem observe_field (entries : Entries) (key : String) (rest : Path) :
    (Value.map entries).observe (.field key :: rest) =
      (entries.lookup key).bind fun v => v.observe rest := rfl

@[simp] theorem observe_index (entries : Entries) (i : Nat) (rest : Path) :
    (Value.map entries).observe (.index i :: rest) = none := rfl

theorem observe_setNestedValue_same (entries : Entries) (parts : List String)
    (nonempty : parts ≠ []) (val : Value) :
    (Value.map (setNestedValue entries parts val)).observe (fields parts) = some val.shape := by
  induction parts generalizing entries with
  | nil => contradiction
  | cons part rest ih =>
    cases rest with
    | nil => simp [setNestedValue, fields, lookup_setEntry, observe]
    | cons next rest =>
      have inner := ih (nestedMap entries part) (by simp)
      simpa [setNestedValue, fields, lookup_setEntry] using inner

theorem observe_below_scalar {v w : Value} (scalar : v.shape = .scalar w) (step : Step)
    (rest : Path) : v.observe (step :: rest) = none := by
  cases v <;> cases step <;> first | rfl | contradiction

/-- Where a scalar stood, a scalar takes its place and nothing else changes. -/
theorem observe_setNestedValue (entries : Entries) (parts : List String)
    (nonempty : parts ≠ [])
    (stood : (Value.map entries).observe (fields parts) = some (.scalar old)) (text : String)
    (path : Path) :
    (Value.map (setNestedValue entries parts (.str text))).observe path =
      if path = fields parts then some (.scalar (.str text))
      else (Value.map entries).observe path := by
  induction parts generalizing entries path with
  | nil => contradiction
  | cons part rest ih =>
    obtain ⟨v, found, below⟩ := bind_eq_some_iff.mp stood
    match path with
    | [] => simp [fields, observe, shape]
    | .index i :: path => cases rest <;> simp [setNestedValue, fields]
    | .field key :: path =>
      cases rest with
      | nil =>
        have scalar : v.shape = .scalar old := by simpa [observe] using below
        by_cases same : key = part
        · subst same
          cases path with
          | nil => simp [setNestedValue, fields, lookup_setEntry, observe, shape]
          | cons step path =>
            simp [setNestedValue, fields, lookup_setEntry, found,
              observe_below_scalar scalar, observe_below_scalar (v := .str text) rfl]
        · simp [setNestedValue, fields, lookup_setEntry, same]
      | cons next rest =>
        by_cases same : key = part
        · subst same
          cases v with
          | map inner =>
            have nested : nestedMap entries key = inner := by simp [nestedMap, found]
            have set := ih inner (by simp) below path
            simpa [setNestedValue, fields, lookup_setEntry, nested, found] using set
          | _ => simp [observe] at below
        · simp [setNestedValue, fields, lookup_setEntry, same]

/-- What a scalar reads as: a value that is no collection. -/
abbrev Scalar := { v : Value // v.shape = .scalar v }

/-- The reading of a single scalar by its tag, style and text. -/
abbrev Resolve := String → Style → String → Option Scalar

/-- A place in a tree: the node, what stands in front of the keys below it, and its own
full key where it is the value of a mapping entry. -/
structure Place where
  node : Node
  pre : String
  key : Option String
  top : Bool

mutual

/-- The tree with its tags ignored. -/
def untag : Node → Node
  | .scalar tag style value => .scalar (if tag = encryptedTag then "" else tag) style value
  | .mapping tag pairs => .mapping (if tag = encryptedTag then "" else tag) (untagPairs pairs)
  | .sequence tag items => .sequence (if tag = encryptedTag then "" else tag) (untagItems items)
  | .document content => .document (untagItems content)
  | .aliasNode name => .aliasNode name

def untagPairs : List (Node × Node) → List (Node × Node)
  | [] => []
  | (key, node) :: pairs => (key, untag node) :: untagPairs pairs

def untagItems : List Node → List Node
  | [] => []
  | node :: items => untag node :: untagItems items

end

theorem untagPairs_eq (pairs : List (Node × Node)) :
    untagPairs pairs = pairs.map fun pair => (pair.1, untag pair.2) := by
  induction pairs with
  | nil => rfl
  | cons pair pairs ih => simp [untagPairs, ih]

theorem untagItems_eq (items : List Node) : untagItems items = items.map untag := by
  induction items with
  | nil => rfl
  | cons item items ih => simp [untagItems, ih]

/-- What lies below a node. -/
inductive Form where
  | mapping (pairs : List (Node × Node))
  | sequence (items : List Node)
  | leaf

def Node.form : Node → Form
  | .mapping _ pairs => .mapping pairs
  | .sequence _ items => .sequence items
  | _ => .leaf

def Form.map (p : Node × Node → Node × Node) (n : Node → Node) : Form → Form
  | .mapping pairs => .mapping (pairs.map p)
  | .sequence items => .sequence (items.map n)
  | .leaf => .leaf

def Resolve.read (resolve : Resolve) : Node → Option Scalar
  | .scalar tag style text => resolve tag style text
  | _ => none

/-- What a key of a `map[any]any` reads as. -/
def Resolve.key (resolve : Resolve) (key : Node) : Value :=
  ((resolve.read key).map Subtype.val).getD .null

def Resolve.isString (resolve : Resolve) (key : Node) : Bool :=
  match resolve.key key with
  | .str _ => true
  | _ => false

namespace Place
variable (resolve : Resolve)

def root (node : Node) : Place := ⟨node, "", none, true⟩

def value (place : Place) (pair : Node × Node) : Place :=
  ⟨pair.2, place.pre ++ pair.1.value ++ ".", some (place.pre ++ pair.1.value), false⟩

def item (place : Place) (node : Node) : Place := ⟨node, place.pre, none, false⟩

/-- The mapping is read into a map with the texts of its keys: the one at the top always,
the others if all their keys are strings. -/
def textKeys (place : Place) (pairs : List (Node × Node)) : Bool :=
  place.top || pairs.all fun pair => resolve.isString pair.1

def enter (place : Place) (step : Step) : Option Place :=
  match place.node.form, step with
  | .mapping pairs, .field key =>
    if place.textKeys resolve pairs then
      (pairs.find? fun pair => pair.1.value = key).map place.value
    else none
  | .mapping pairs, .index i =>
    if place.textKeys resolve pairs then none else pairs[i]?.map place.value
  | .sequence items, .index i => items[i]?.map place.item
  | _, _ => none

/-- The place that a path of the value leads to. -/
def visit (place : Place) (path : Path) : Option Place := path.foldlM (enter resolve) place

/-- What is read at the place. -/
def shape (place : Place) : Option Shape :=
  match place.node.form with
  | .mapping pairs =>
    some (if place.textKeys resolve pairs then .map else .keyed (pairs.map (resolve.key ·.1)))
  | .sequence items => some (.list items.length)
  | .leaf => (resolve.read place.node).map fun v => .scalar v.val

/-- No key of the mapping occurs twice, or the scalar can be read. -/
def Reads (place : Place) : Prop :=
  match place.node.form with
  | .mapping pairs =>
    if place.textKeys resolve pairs then (pairs.map (·.1.value)).Nodup
    else (pairs.map (resolve.key ·.1)).Nodup
  | .sequence _ => True
  | .leaf => (resolve.read place.node).isSome

variable {resolve} {place next : Place}

theorem visit_cons : place.visit resolve (step :: path) =
    (place.enter resolve step).bind fun next => next.visit resolve path := by
  rw [visit, foldlM_cons]
  rfl

/-- A step leads to a value of a mapping, by its key or its place, or to an item of a sequence. -/
theorem enter_cases (entered : place.enter resolve step = some next) :
    (∃ pairs pair, place.node.form = .mapping pairs ∧ pair ∈ pairs ∧ next = place.value pair ∧
      ∀ key, step = .field key → pair.1.value = key) ∨
    ∃ items item i, place.node.form = .sequence items ∧ item ∈ items ∧ step = .index i ∧
      next = place.item item := by
  unfold enter at entered
  split at entered
  · rename_i pairs key form
    split at entered
    · obtain ⟨pair, found, rfl⟩ := map_eq_some_iff.mp entered
      refine .inl ⟨pairs, pair, form, mem_of_find?_eq_some found, rfl, fun _ same => ?_⟩
      cases same
      simpa using find?_some found
    · contradiction
  · rename_i pairs i form
    split at entered
    · contradiction
    · obtain ⟨pair, found, rfl⟩ := map_eq_some_iff.mp entered
      exact .inl ⟨pairs, pair, form, mem_of_getElem? found, rfl, by simp⟩
  · rename_i items i form
    obtain ⟨item, found, rfl⟩ := map_eq_some_iff.mp entered
    exact .inr ⟨items, item, i, form, mem_of_getElem? found, rfl, rfl⟩
  · contradiction

/-- A change of trees that keeps keys and goes along with every step down. -/
structure Along (g : Place → Place) (p : Place → Node × Node → Node × Node)
    (n : Place → Node → Node) : Prop where
  top : ∀ place, (g place).top = place.top
  form : ∀ place, (g place).node.form = place.node.form.map (p place) (n place)
  keys : ∀ place pair, (p place pair).1 = pair.1
  value : ∀ place pair, (g place).value (p place pair) = g (place.value pair)
  item : ∀ place node, (g place).item (n place node) = g (place.item node)

namespace Along
variable (along : Along g p n)
include along

theorem textKeys (place : Place) (pairs : List (Node × Node)) :
    (g place).textKeys resolve (pairs.map (p place)) = place.textKeys resolve pairs := by
  simp [Place.textKeys, along.top, List.all_map, comp_def, along.keys]

theorem enter (place : Place) (step : Step) :
    (g place).enter resolve step = (place.enter resolve step).map g := by
  unfold Place.enter
  rw [along.form]
  cases place.node.form with
  | leaf => rfl
  | mapping pairs =>
    cases step with
    | field key =>
      simp only [Form.map, along.textKeys, find?_map, comp_def, along.keys]
      split
      · simp [comp_def, along.value]
      · rfl
    | index i =>
      simp only [Form.map, along.textKeys, getElem?_map]
      split
      · rfl
      · simp [comp_def, along.value]
  | sequence items => cases step <;> simp [Form.map, comp_def, along.item]

theorem visit (place : Place) (path : Path) :
    (g place).visit resolve path = (place.visit resolve path).map g := by
  induction path generalizing place with
  | nil => rfl
  | cons step path ih =>
    rw [visit_cons, visit_cons, along.enter, bind_map, map_bind]
    congr 1
    funext next
    exact ih next

theorem shape_eq (other : Along g' p' n') (place : Place)
    (leaf : place.node.form = .leaf → resolve.read (g place).node = resolve.read (g' place).node) :
    (g place).shape resolve = (g' place).shape resolve := by
  unfold shape
  rw [along.form, other.form]
  cases form : place.node.form with
  | leaf => simp only [Form.map, leaf form]
  | mapping pairs =>
    simp [Form.map, along.textKeys, other.textKeys, comp_def, along.keys, other.keys]
  | sequence items => simp [Form.map]

theorem reads (other : Along g' p' n') (place : Place) (old : (g' place).Reads resolve)
    (leaf : place.node.form = .leaf → (resolve.read (g' place).node).isSome →
      (resolve.read (g place).node).isSome) : (g place).Reads resolve := by
  unfold Reads at old ⊢
  rw [other.form] at old
  rw [along.form]
  cases form : place.node.form with
  | leaf =>
    simp only [form, Form.map] at old ⊢
    exact leaf form old
  | mapping pairs =>
    simpa [form, Form.map, along.textKeys, other.textKeys, comp_def, along.keys,
      other.keys] using old
  | sequence items => trivial

end Along

def sanitize (place : Place) : Place :=
  let walked := (sanitizeNodes place.pre place.node).1
  { place with node := place.key.elim walked fun key => requote (replaceEncrypted key walked) }

def plain (place : Place) : Place := { place with node := untag place.node }

theorem form_replaced (key : String) (node : Node) :
    (requote (replaceEncrypted key node)).form = node.form := by
  cases node with
  | scalar tag style value =>
    simp only [replaceEncrypted]
    split <;> rfl
  | _ => rfl

theorem sanitize_along : Along sanitize (fun place => sanitizePair place.pre)
    fun place node => (sanitizeNodes place.pre node).1 where
  top _ := rfl
  form place := by
    have walked : (sanitizeNodes place.pre place.node).1.form = place.node.form.map
        (sanitizePair place.pre) fun node => (sanitizeNodes place.pre node).1 := by
      cases place.node <;>
        simp [sanitizeNodes, Node.form, Form.map, sanitizePairs_eq, sanitizeItems_eq]
    cases key : place.key <;> simp [sanitize, key, form_replaced, walked]
  keys _ _ := rfl
  value _ _ := rfl
  item _ _ := rfl

theorem plain_along : Along plain (fun _ pair => (pair.1, untag pair.2)) fun _ => untag where
  top _ := rfl
  form place := by
    cases node : place.node <;>
      simp [plain, node, untag, Node.form, Form.map, untagPairs_eq, untagItems_eq]
  keys _ _ := rfl
  value _ _ := rfl
  item _ _ := rfl

end Place

/-- What the YAML library says of single scalars: a double-quoted one without a
tag is a string, and quoting changes nothing where the text holds a template
expression, which no number, date or boolean does. -/
structure Resolve.ReadsScalars (resolve : Resolve) : Prop where
  quoted : ∀ text, resolve "" .doubleQuoted text = some ⟨.str text, rfl⟩
  templated : ∀ tag style text, hasTemplate text = true →
    resolve tag .doubleQuoted text = resolve tag style text

/-- What the YAML library says of a tree without aliases and merge keys: it can be read if
and only if every place in it can be, and the map that is read has at every path what is
read there. -/
structure Yaml.ReadsTree (yaml : Yaml) (resolve : Resolve) (root : Node) : Prop where
  readable : (yaml.decode (.document [root])).isSome ↔
    ∀ path place, (Place.root root).visit resolve path = some place → place.Reads resolve
  shows : ∀ entries, yaml.decode (.document [root]) = some entries → ∀ path,
    (Value.map entries).observe path = ((Place.root root).visit resolve path).bind (·.shape resolve)

namespace Place
variable {resolve : Resolve} {place : Place} (scalars : resolve.ReadsScalars)

theorem read_plain (node : place.node = .scalar encryptedTag style text) :
    resolve.read place.plain.node = resolve "" style text := by
  simp [plain, node, untag, Resolve.read]

theorem read_sanitize_item (node : place.node = .scalar encryptedTag style text)
    (item : place.key = none) :
    resolve.read place.sanitize.node = resolve encryptedTag style text := by
  simp [sanitize, node, item, sanitizeNodes, Resolve.read]

theorem sanitize_leaf (node : place.node = .scalar tag style text) :
    place.sanitize.node.form = .leaf ∧ place.plain.node.form = .leaf := by
  rw [sanitize_along.form, plain_along.form, node]
  exact ⟨rfl, rfl⟩

theorem shape_leaf (leaf : place.node.form = .leaf) :
    place.shape resolve = (resolve.read place.node).map fun v => .scalar v.val := by
  unfold shape
  rw [leaf]

include scalars

theorem read_sanitize_value {key : String} (node : place.node = .scalar encryptedTag style text)
    (value : place.key = some key) :
    resolve.read place.sanitize.node = some ⟨.str (placeholder key), rfl⟩ := by
  simp [sanitize, node, value, sanitizeNodes, replaceEncrypted, requote, Resolve.read,
    scalars.quoted]

theorem read_sanitize_other (other : ∀ style text, place.node ≠ .scalar encryptedTag style text) :
    resolve.read place.sanitize.node = resolve.read place.plain.node := by
  cases node : place.node with
  | scalar tag style text =>
    have untagged : tag ≠ encryptedTag := fun same => other style text (same ▸ node)
    cases key : place.key with
    | none => simp [sanitize, plain, node, key, sanitizeNodes, untag, untagged]
    | some key' =>
      simp only [sanitize, plain, node, key, sanitizeNodes, elim_some, replaceEncrypted,
        if_neg untagged, requote, untag, Resolve.read]
      split
      · exact scalars.templated tag style text ‹_›
      · rfl
  | _ => cases key : place.key <;> simp [sanitize, plain, node, key, sanitizeNodes, untag,
      replaceEncrypted, requote, Resolve.read]

theorem shape_sanitize (other : ∀ style text, place.node ≠ .scalar encryptedTag style text) :
    place.sanitize.shape resolve = place.plain.shape resolve :=
  sanitize_along.shape_eq plain_along place fun _ => read_sanitize_other scalars other

end Place

/-- The sanitized tree and the original with its tags ignored, both read. -/
structure BothRead (resolve : Resolve) (root : Node) (settings original : Entries) :
    Prop where
  scalars : resolve.ReadsScalars
  sanitized : ∀ path, (Value.map settings).observe path =
    ((Place.root root).visit resolve path).bind (·.sanitize.shape resolve)
  original : ∀ path, (Value.map original).observe path =
    ((Place.root root).visit resolve path).bind (·.plain.shape resolve)

theorem Yaml.ReadsTree.both {yaml : Yaml} {resolve : Resolve} {root : Node}
    (scalars : resolve.ReadsScalars) (walked : yaml.ReadsTree resolve (sanitizeNodes "" root).1)
    (bare : yaml.ReadsTree resolve (untag root))
    (settled : yaml.decode (.document [(sanitizeNodes "" root).1]) = some settings)
    (read : yaml.decode (.document [untag root]) = some original) :
    BothRead resolve root settings original where
  scalars := scalars
  sanitized path := by
    rw [walked.shows settings settled]
    change ((Place.root root).sanitize.visit resolve path).bind _ = _
    rw [Place.sanitize_along.visit, bind_map]
    rfl
  original path := by
    rw [bare.shows original read]
    change ((Place.root root).plain.visit resolve path).bind _ = _
    rw [Place.plain_along.visit, bind_map]
    rfl

end Zester.Settings
