import Zester.Compiler.Requisites

/-! What the extend rules keep: under a requisite key the merged list carries the
references of the list values only, unless the key is set just once. -/
namespace Zester.Compiler
open States List AList

def settings (args : List Config) (key : String) : List Value :=
  args.filterMap fun item => item.lookup key

@[simp] theorem settings_append (args rest : List Config) :
    settings (args ++ rest) key = settings args key ++ settings rest key :=
  filterMap_append

theorem mem_settings : v ∈ settings args key ↔ ∃ item ∈ args, item.lookup key = some v :=
  mem_filterMap

/-- The references that an argument list declares under a key, in any item. -/
def DeclaredRef (args : List Config) (key ref : String) : Prop :=
  ∃ item ∈ args, ref ∈ parseReqEntries (item.read key)

theorem declaredRef_iff :
    DeclaredRef args key ref ↔ ∃ v ∈ settings args key, ref ∈ parseReqEntries v := by
  constructor
  · rintro ⟨item, member, named⟩
    cases found : item.lookup key with
    | none => simp [Config.read, found, parseReqEntries] at named
    | some v =>
      exact ⟨v, mem_settings.mpr ⟨item, member, found⟩, by simpa [Config.read, found] using named⟩
  · rintro ⟨v, set, named⟩
    obtain ⟨item, member, found⟩ := mem_settings.mp set
    exact ⟨item, member, by simpa [Config.read, found] using named⟩

theorem flattenArgsList_lookup (args : List Config) :
    (flattenArgsList args).lookup key = (settings args key).getLast? := by
  have last : ∀ (args : List Config) (result : Config),
      (args.foldl (fun result item => item ∪ result) result).lookup key =
        ((settings args key).getLast?).or (result.lookup key) := by
    intro args
    induction args with
    | nil => exact fun result => rfl
    | cons item args ih =>
      intro result
      rw [foldl_cons, ih]
      cases found : item.lookup key with
      | none =>
        have absent : key ∉ item := lookup_eq_none.mp found
        simp [settings, found, lookup_union_right absent]
      | some v =>
        have present : key ∈ item := lookup_isSome.mp (by simp [found])
        rw [lookup_union_left present, found]
        simp only [settings, filterMap_cons, found]
        cases rest : args.filterMap fun item => item.lookup key with
        | nil => simp
        | cons w rest => simp [getLast?_eq_some_getLast]
  rw [flattenArgsList, last]
  simp

section

/-- The value under a requisite key after another item has set it. -/
def combine : Option Value → Value → Value
  | some existing, v => .list (asList existing ++ asList v)
  | none, v => v

variable (requisite : key ∈ requisiteKeys)
include requisite

theorem mergeEntry_lookup (merged : Config) (k : String) (v : Value) :
    (mergeEntry merged k v).lookup key =
      if k = key then some (combine (merged.lookup key) v) else merged.lookup key := by
  unfold mergeEntry
  by_cases same : k = key
  · subst same
    rw [if_pos requisite, if_pos rfl]
    cases found : merged.lookup k <;> simp [combine]
  · rw [if_neg same]
    repeat' split
    all_goals exact lookup_insert_ne (Ne.symm same)

theorem mergeEntries_lookup (entries : List (Sigma fun _ : String => Value))
    (distinct : entries.NodupKeys) (merged : Config) :
    (entries.foldl (fun merged entry => mergeEntry merged entry.1 entry.2) merged).lookup key =
      match entries.dlookup key with
      | some v => some (combine (merged.lookup key) v)
      | none => merged.lookup key := by
  induction entries generalizing merged with
  | nil => rfl
  | cons entry entries ih =>
    obtain ⟨k, v⟩ := entry
    obtain ⟨fresh, distinct⟩ := nodupKeys_cons.mp distinct
    rw [foldl_cons, ih distinct, mergeEntry_lookup requisite]
    by_cases same : k = key
    · subst same
      rw [dlookup_eq_none.mpr fresh]
      simp
    · rw [if_neg same, dlookup_cons_ne _ _ (Ne.symm same)]

theorem mergeItem_lookup (loop : List Nat) (merged item : Config) :
    (mergeItem it loop merged item).lookup key =
      match item.lookup key with
      | some v => some (combine (merged.lookup key) v)
      | none => merged.lookup key := by
  have perm := it.perm loop item.entries
  have distinct : (it.order loop item.entries).NodupKeys :=
    (perm_nodupKeys perm).mpr item.nodupKeys
  rw [mergeItem, mergeEntries_lookup requisite _ distinct, perm_dlookup key distinct perm]
  rfl

theorem mergeItems_lookup (loop i : Nat) (merged : Config) (items : List Config) :
    (mergeItems it loop i merged items).lookup key =
      (settings items key).foldl (fun value v => some (combine value v)) (merged.lookup key) := by
  induction items generalizing merged i with
  | nil => rfl
  | cons item items ih =>
    rw [mergeItems, ih, mergeItem_lookup requisite]
    cases found : item.lookup key <;> simp [settings, found]

theorem mergedMap_lookup (base overlay : List Config) : (mergedMap it base overlay).lookup key =
      (settings (base ++ overlay) key).foldl (fun value v => some (combine value v)) none := by
  rw [mergedMap, mergeItems_lookup requisite, mergeItems_lookup requisite, settings_append,
    foldl_append]
  rfl

omit requisite in
theorem singleton_lookup (k : String) (v : Value) :
    (singleton k v : Config).lookup key = if k = key then some v else none := by
  rw [← insert_empty]
  split
  · rename_i same
    subst same
    exact lookup_insert _
  · rename_i other
    rw [lookup_insert_ne (Ne.symm other), lookup_empty]

omit requisite in
theorem settings_singletons (entries : List (Sigma fun _ : String => Value))
    (distinct : entries.NodupKeys) :
    settings (entries.map fun entry => singleton entry.1 entry.2) key =
      (entries.dlookup key).toList := by
  induction entries with
  | nil => rfl
  | cons entry entries ih =>
    obtain ⟨k, v⟩ := entry
    obtain ⟨fresh, distinct⟩ := nodupKeys_cons.mp distinct
    have rest := ih distinct
    simp only [settings, map_cons, filterMap_cons, singleton_lookup] at rest ⊢
    by_cases same : k = key
    · subst same
      rw [rest, dlookup_eq_none.mpr fresh, dlookup_cons_eq]
      simp
    · rw [if_neg same, rest, dlookup_cons_ne _ _ (show key ≠ k from Ne.symm same)]

omit requisite in
theorem mergeArgsList_lookup (base overlay : List Config) :
    (flattenArgsList (mergeArgsList it base overlay)).lookup key =
      (mergedMap it base overlay).lookup key := by
  have perm := it.perm [2] (mergedMap it base overlay).entries
  have distinct := (perm_nodupKeys perm).mpr (mergedMap it base overlay).nodupKeys
  rw [flattenArgsList_lookup, mergeArgsList, settings_singletons _ distinct,
    perm_dlookup key distinct perm]
  cases found : (mergedMap it base overlay).lookup key <;> simp_all [AList.lookup]

end

def isList : Value → Bool
  | .list _ => true
  | _ => false

theorem parseReqEntries_list (list : isList v = true) :
    parseReqEntries v = (asList v).flatMap parseReqEntry := by
  cases v <;> first | rfl | contradiction

theorem asList_of_not_list (other : isList v = false) : asList v = [] := by
  cases v <;> first | rfl | contradiction

theorem combine_foldl (items : List Value) (values : List Value) :
    values.foldl (fun value v => some (combine value v)) (some (.list items)) =
      some (.list (items ++ values.flatMap asList)) := by
  induction values generalizing items with
  | nil => simp
  | cons v values ih =>
    have step : combine (some (.list items)) v = .list (items ++ asList v) := rfl
    rw [foldl_cons, step, ih, flatMap_cons, append_assoc]

theorem combine_settings (values : List Value) :
    values.foldl (fun value v => some (combine value v)) none =
      if values.length ≤ 1 then values.head? else some (.list (values.flatMap asList)) := by
  match values with
  | [] => rfl
  | [v] => rfl
  | v :: w :: values =>
    have step : combine (some v) w = .list (asList v ++ asList w) := rfl
    rw [if_neg (by simp), foldl_cons, foldl_cons]
    show foldl _ (some (combine (some v) w)) values = _
    rw [step, combine_foldl]
    simp

/-- The references under `key` of the merged list are those of the two lists. -/
def KeepsRefs (it : Ranging) (base overlay : List Config) (key : String) : Prop :=
  ∀ ref, ref ∈ parseReqEntries ((flattenArgsList (mergeArgsList it base overlay)).read key) ↔
    DeclaredRef base key ref ∨ DeclaredRef overlay key ref

/-- The key is set only once in the two lists, or what its single strings and
single maps name is named by one of its lists too. -/
def ListsCover (values : List Value) : Prop :=
  values.length ≤ 1 ∨
    ∀ v ∈ values, isList v = false → ∀ ref ∈ parseReqEntries v,
      ∃ w ∈ values, isList w = true ∧ ref ∈ parseReqEntries w

theorem mem_parse_lists {values : List Value} :
    ref ∈ parseReqEntries (.list (values.flatMap asList)) ↔
      ∃ w ∈ values, isList w = true ∧ ref ∈ parseReqEntries w := by
  rw [parseReqEntries_list rfl, asList]
  simp only [mem_flatMap]
  constructor
  · rintro ⟨item, ⟨w, member, inside⟩, named⟩
    cases list : isList w with
    | false => simp [asList_of_not_list list] at inside
    | true =>
      exact ⟨w, member, list, by
        rw [parseReqEntries_list list]
        exact mem_flatMap.mpr ⟨item, inside, named⟩⟩
  · rintro ⟨w, member, list, named⟩
    rw [parseReqEntries_list list, mem_flatMap] at named
    obtain ⟨item, inside, named⟩ := named
    exact ⟨item, ⟨w, member, inside⟩, named⟩

theorem keepsRefs_iff (requisite : key ∈ requisiteKeys) (base overlay : List Config) :
    KeepsRefs it base overlay key ↔ ListsCover (settings (base ++ overlay) key) := by
  have expected : ∀ ref, (DeclaredRef base key ref ∨ DeclaredRef overlay key ref) ↔
      ∃ v ∈ settings (base ++ overlay) key, ref ∈ parseReqEntries v := by
    intro ref
    simp only [declaredRef_iff, settings_append, mem_append, or_and_right, exists_or]
  simp only [KeepsRefs, expected, Config.read, mergeArgsList_lookup,
    mergedMap_lookup requisite, combine_settings, ListsCover]
  generalize settings (base ++ overlay) key = values
  by_cases single : values.length ≤ 1
  · simp only [single, if_true, true_or, iff_true]
    intro ref
    match values, single with
    | [], _ => simp [parseReqEntries]
    | [v], _ => simp
  · simp only [single, if_false, false_or, Option.getD_some, mem_parse_lists]
    constructor
    · intro kept v member _ ref named
      exact (kept ref).mpr ⟨v, member, named⟩
    · intro cover ref
      constructor
      · rintro ⟨w, member, _, named⟩
        exact ⟨w, member, named⟩
      · rintro ⟨v, member, named⟩
        cases list : isList v with
        | true => exact ⟨v, member, list, named⟩
        | false => exact cover v member list ref named

/-- Extending keeps the references under all requisite keys exactly when no key
that is set more than once loses a single string or map. -/
theorem mergeArgsList_keeps_iff (it : Ranging) (base overlay : List Config) :
    (∀ key ∈ requisiteKeys, KeepsRefs it base overlay key) ↔
      ∀ key ∈ requisiteKeys, ListsCover (settings (base ++ overlay) key) :=
  forall₂_congr fun _ requisite => keepsRefs_iff requisite base overlay

/-- A base that requires a single string, extended by a list, loses the string. -/
theorem mergeArgsList_drops_string : ¬ ∀ key ∈ requisiteKeys,
      KeepsRefs .listed [.ofList [("require", .str "pkg.installed:nginx")]]
        [.ofList [("require", .list [.str "file.managed:/etc/nginx/nginx.conf"])]] key := by
  intro kept
  have lost := (kept "require" (by decide) "pkg.installed:nginx").mpr
    (.inl ⟨_, mem_singleton_self _, by decide⟩)
  revert lost
  decide

end Zester.Compiler
