import Zester.Settings.Secrets

/-! What a sanitized file still shows. Placeholders replace the encrypted scalars
that are mapping values; everything else keeps its text, tagged or not. -/
namespace Zester.Settings
open Node Option

/-- A mapping entry after the walk. -/
def sanitizePair (pre : String) (pair : Node × Node) : Node × Node :=
  (pair.1, requote (replaceEncrypted (pre ++ pair.1.value)
    (sanitizeNodes (pre ++ pair.1.value ++ ".") pair.2).1))

theorem sanitizePairs_eq (pre : String) (pairs : List (Node × Node)) :
    (sanitizePairs pre pairs).1 = pairs.map (sanitizePair pre) := by
  induction pairs with
  | nil => rfl
  | cons pair pairs ih => simp [sanitizePairs, sanitizePair, ih]

theorem sanitizeItems_eq (pre : String) (items : List Node) :
    (sanitizeItems pre items).1 = items.map fun item => (sanitizeNodes pre item).1 := by
  induction items with
  | nil => rfl
  | cons item items ih => simp [sanitizeItems, ih]

theorem child_replaced (fullKey : String) (node : Node) (step : Step) :
    (requote (replaceEncrypted fullKey node)).child step = node.child step := by
  cases node with
  | scalar tag style value =>
    simp only [replaceEncrypted]
    split <;> rfl
  | _ => cases step <;> rfl

theorem sanitizeNodes_text (pre : String) (node : Node) :
    (sanitizeNodes pre node).1.text = node.text := by
  cases node <;> rfl

theorem sanitizeNodes_child (pre : String) (node : Node) (step : Step) :
    (sanitizeNodes pre node).1.child step =
      match node, step with
      | .mapping _ pairs, .key i => pairs[i]?.map Prod.fst
      | .mapping _ pairs, .value i => pairs[i]?.map fun pair => (sanitizePair pre pair).2
      | .sequence _ items, .item i => items[i]?.map fun item => (sanitizeNodes pre item).1
      | .document content, .item i => content[i]?.map fun item => (sanitizeNodes pre item).1
      | _, _ => none := by
  cases node <;> cases step <;>
    simp [sanitizeNodes, child, sanitizePairs_eq, sanitizeItems_eq, Function.comp_def, sanitizePair]

/-- The position is that of a mapping value, reached without going through a key. -/
def isValuePosition : Position → Bool
  | [] => false
  | .key _ :: _ => false
  | .value _ :: rest => rest = [] || isValuePosition rest
  | .item _ :: rest => isValuePosition rest

/-- The dotted key under which the walk files the value at a position. -/
def dottedKey : String → Node → Position → String
  | pre, _, [] => pre
  | pre, node, step :: rest =>
    match node, step with
    | .mapping _ pairs, .value i =>
      match pairs[i]? with
      | some (key, next) =>
        if rest = [] then pre ++ key.value else dottedKey (pre ++ key.value ++ ".") next rest
      | none => ""
    | node, step =>
      match node.child step with
      | some next => dottedKey pre next rest
      | none => ""

theorem textAt_cons (node : Node) (step : Step) (rest : Position) :
    node.textAt (step :: rest) = (node.child step).bind fun next => next.textAt rest := by
  simp only [textAt, locate]
  cases node.child step <;> rfl

theorem replaced_text (fullKey pre : String) (node : Node) :
    (requote (replaceEncrypted fullKey (sanitizeNodes pre node).1)).text =
      if node.tag = encryptedTag ∧ node.text.isSome then some (placeholder fullKey)
      else node.text := by
  cases node with
  | scalar tag style value =>
    by_cases encrypted : tag = encryptedTag <;>
      simp [sanitizeNodes, replaceEncrypted, requote, Node.text, Node.tag, encrypted]
  | _ => simp [sanitizeNodes, replaceEncrypted, requote, text]

/-- What a sanitized tree shows at a position: the placeholder of an encrypted
scalar that is a mapping value, and the old text everywhere else. -/
theorem sanitizeNodes_textAt (position : Position) (pre : String) (node : Node) :
    (sanitizeNodes pre node).1.textAt position =
      if isValuePosition position ∧ (node.textAt position).isSome ∧
          (node.locate position).map tag = some encryptedTag then
        some (placeholder (dottedKey pre node position))
      else
        node.textAt position := by
  induction position generalizing pre node with
  | nil => simp [isValuePosition, textAt, locate, sanitizeNodes_text]
  | cons step rest ih =>
    rw [textAt_cons, textAt_cons, sanitizeNodes_child]
    cases node with
    | scalar tag style value | aliasNode name => cases step <;> simp [child]
    | mapping tag pairs =>
      cases step with
      | item i => simp [child]
      | key i => simp [isValuePosition, child]
      | value i =>
        cases found : pairs[i]? with
        | none => simp [child, found]
        | some pair =>
          obtain ⟨key, next⟩ := pair
          cases rest with
          | nil =>
            simp [child, found, textAt, locate, isValuePosition, dottedKey,
              sanitizePair, replaced_text, and_comm]
          | cons step rest =>
            have below : (sanitizePair pre (key, next)).2.textAt (step :: rest) =
                (sanitizeNodes (pre ++ key.value ++ ".") next).1.textAt (step :: rest) := by
              rw [sanitizePair, textAt_cons, child_replaced, ← textAt_cons]
            simp [child, found, below, ih, isValuePosition, dottedKey, locate]
    | sequence tag items =>
      cases step with
      | key i | value i => simp [child]
      | item i =>
        cases found : items[i]? with
        | none => simp [child, found]
        | some next => simp [child, found, ih, isValuePosition, dottedKey, locate]
    | document content =>
      cases step with
      | key i | value i => simp [child]
      | item i =>
        cases found : content[i]? with
        | none => simp [child, found]
        | some next => simp [child, found, ih, isValuePosition, dottedKey, locate]

/-- The tree of a settings file: as it stands, or, when its template syntax is no
YAML, after rendering. -/
def Yaml.tree (yaml : Yaml) (render : String → Option String) (content : String) : Option Node :=
  match yaml.unmarshal content with
  | some doc => some doc
  | none => (render content).bind yaml.unmarshal

/-- `secret` is the text of a scalar that carries the tag or lies in a collection
that does. -/
def Secret (doc : Node) (position : Position) (secret : String) : Prop :=
  doc.textAt position = some secret ∧
    ∃ above below node, position = above ++ below ∧ doc.locate above = some node ∧
      node.tag = encryptedTag

/-- No secret stands in the published content where it stood in the file. -/
def NoSecretShown (yaml : Yaml) (render : String → Option String) (doc : Node)
    (content : String) : Prop :=
  ∀ position secret, Secret doc position secret →
    ∀ published, yaml.tree render content = some published → published.textAt position ≠ some secret

/-- The scalar at the position carries the tag itself, is a mapping value and has
another text than its own placeholder. -/
def Replaced (doc : Node) (position : Position) (secret : String) : Prop :=
  (doc.locate position).map tag = some encryptedTag ∧ isValuePosition position = true ∧
    secret ≠ placeholder (dottedKey "" doc position)

/-- Writing out a tree and reading it again gives the same texts at the same
positions. -/
def Yaml.KeepsTexts (yaml : Yaml) (doc : Node) : Prop :=
  ∀ content, yaml.marshal doc = .ok content → ∃ reread, yaml.unmarshal content = some reread ∧
    ∀ position, reread.textAt position = doc.textAt position

theorem sanitizeFile_unparsed (unparsed : yaml.unmarshal data = none) :
    sanitizeFile yaml data = .ok { content := data, secrets := ∅ } := by
  simp [sanitizeFile, unparsed]

theorem sanitizeFile_parsed (parsed : yaml.unmarshal data = some doc)
    (sanitized : sanitizeFile yaml data = .ok file) :
    yaml.marshal (sanitizeNodes "" doc).1 = .ok file.content ∧
      file.secrets = secretsMap (sanitizeNodes "" doc).2 := by
  simp only [sanitizeFile, parsed] at sanitized
  split at sanitized
  · contradiction
  · rename_i written
    cases sanitized
    exact ⟨written, rfl⟩

theorem shown_iff (position : Position) (stood : doc.textAt position = some secret) :
    (sanitizeNodes "" doc).1.textAt position ≠ some secret ↔ Replaced doc position secret := by
  rw [sanitizeNodes_textAt, stood]
  unfold Replaced
  by_cases value : isValuePosition position = true <;>
    by_cases tagged : (doc.locate position).map tag = some encryptedTag <;>
      simp [value, tagged, eq_comm]

/-- Of a file that its later reader accepts, no secret is published in clear
exactly when the file parses before rendering and every secret is a tagged
scalar that is a mapping value and not its own placeholder. -/
theorem noSecretShown_iff (yaml : Yaml) (render : String → Option String) (data : String)
    (file : SanitizedFile) (doc : Node) (sanitized : sanitizeFile yaml data = .ok file)
    (accepted : yaml.tree render data = some doc)
    (keeps : yaml.KeepsTexts (sanitizeNodes "" doc).1) :
    NoSecretShown yaml render doc file.content ↔ ∀ position secret, Secret doc position secret →
        (yaml.unmarshal data).isSome ∧ Replaced doc position secret := by
  cases parsed : yaml.unmarshal data with
  | none =>
    rw [sanitizeFile_unparsed parsed] at sanitized
    cases sanitized
    simp only [NoSecretShown, accepted, some.injEq, forall_eq', isSome_none,
      Bool.false_eq_true, false_and]
    refine forall₃_congr fun position secret stood => ?_
    simp [stood.1]
  | some parsedDoc =>
    have same : parsedDoc = doc := by
      simpa [Yaml.tree, parsed] using accepted
    subst same
    obtain ⟨written, _⟩ := sanitizeFile_parsed parsed sanitized
    obtain ⟨reread, read, texts⟩ := keeps file.content written
    have tree : yaml.tree render file.content = some reread := by simp [Yaml.tree, read]
    simp only [NoSecretShown, tree, some.injEq, forall_eq', texts, isSome_some,
      true_and]
    exact forall₃_congr fun position secret stood => shown_iff position stood.1

def plainText (value : String) : Node := .scalar "!!str" .plain value

def itemDoc : Node :=
  .document [.mapping "!!map" [(plainText "keys", .sequence "!!seq"
    [.scalar encryptedTag .plain "hunter2"])]]

def itemData : String := "keys:\n  - !encrypted hunter2\n"

def itemYaml : Yaml where
  unmarshal content := if content = itemData then some itemDoc else none
  marshal _ := .ok itemData
  decode _ := some [("keys", .list [.str "hunter2"])]

theorem itemYaml_keeps : itemYaml.KeepsTexts (sanitizeNodes "" itemDoc).1 := by
  intro content written
  cases written
  exact ⟨itemDoc, rfl, fun _ => rfl⟩

theorem noSecretShown_iff_item : NoSecretShown itemYaml some itemDoc itemData ↔
      ∀ position secret, Secret itemDoc position secret →
        (itemYaml.unmarshal itemData).isSome ∧ Replaced itemDoc position secret :=
  noSecretShown_iff itemYaml some itemData { content := itemData, secrets := ∅ } itemDoc rfl rfl
    itemYaml_keeps

/-- The item is published as it stands in the file. -/
theorem encrypted_item_shown : ∃ file, sanitizeFile itemYaml itemData = .ok file ∧
      itemYaml.tree some itemData = some itemDoc ∧ (itemYaml.decode itemDoc).isSome ∧
      ¬ NoSecretShown itemYaml some itemDoc file.content := by
  refine ⟨{ content := itemData, secrets := ∅ }, rfl, rfl, by decide, fun hidden => ?_⟩
  refine hidden [.item 0, .value 0, .item 0] "hunter2" ⟨rfl, ?_⟩ itemDoc rfl rfl
  exact ⟨[.item 0, .value 0, .item 0], [], .scalar encryptedTag .plain "hunter2", rfl, rfl, rfl⟩

end Zester.Settings
