import Zester.Settings.Resolve

/-! The last check of a resolve: the scan finds every placeholder that a string of the merged
settings still has in it. -/
namespace Zester.Settings
open Program List

mutual

/-- The strings of a tree. -/
def leaves : Value → List String
  | .str s => [s]
  | .list items => itemLeaves items
  | .map entries => entryLeaves entries
  | .keyed _ entries => keyedLeaves entries
  | _ => []

def itemLeaves : List Value → List String
  | [] => []
  | item :: items => leaves item ++ itemLeaves items

def entryLeaves : Entries → List String
  | [] => []
  | (_, value) :: entries => leaves value ++ entryLeaves entries

def keyedLeaves : List (Value × Value) → List String
  | [] => []
  | (_, value) :: entries => leaves value ++ keyedLeaves entries

end

/-- Some string has the mark of a placeholder in it. -/
def Unresolved (settings : Entries) : Prop :=
  ∃ s ∈ leaves (.map settings), secretPlaceholderPrefix.toList <:+: s.toList

theorem cut_eq_none (nonempty : mark ≠ []) : cut mark text = none ↔ ¬ mark <:+: text := by
  induction text with
  | nil => simp [cut, nonempty]
  | cons c text ih =>
    rw [cut, infix_cons_iff, ← isPrefixOf_iff_prefix, not_or, ← ih]
    split <;> simp [*]

theorem extractPlaceholderKeys_eq_nil (s : String) :
    extractPlaceholderKeys s.length s.toList = [] ↔
      ¬ secretPlaceholderPrefix.toList <:+: s.toList := by
  rw [← cut_eq_none (by decide), ← String.length_toList]
  cases s.toList with
  | nil => simp [extractPlaceholderKeys, cut, secretPlaceholderPrefix]
  | cons c text =>
    rw [length_cons, extractPlaceholderKeys]
    split
    · simp [*]
    · split <;> simp [*]

mutual

theorem scanUnresolvedSecrets_eq : ∀ v, scanUnresolvedSecrets v =
    (leaves v).flatMap fun s => extractPlaceholderKeys s.length s.toList
  | .null | .bool _ | .int _ | .other _ => rfl
  | .str s => by simp [scanUnresolvedSecrets, leaves]
  | .list items => scanItems_eq items
  | .map entries => scanEntries_eq entries
  | .keyed _ entries => scanKeyed_eq entries

theorem scanItems_eq : ∀ items, scanItems items =
    (itemLeaves items).flatMap fun s => extractPlaceholderKeys s.length s.toList
  | [] => rfl
  | item :: items => by
    rw [scanItems, itemLeaves, flatMap_append, scanUnresolvedSecrets_eq item, scanItems_eq items]

theorem scanEntries_eq : ∀ entries, scanEntries entries =
    (entryLeaves entries).flatMap fun s => extractPlaceholderKeys s.length s.toList
  | [] => rfl
  | (_, value) :: entries => by
    rw [scanEntries, entryLeaves, flatMap_append, scanUnresolvedSecrets_eq value,
      scanEntries_eq entries]

theorem scanKeyed_eq : ∀ entries, scanKeyed entries =
    (keyedLeaves entries).flatMap fun s => extractPlaceholderKeys s.length s.toList
  | [] => rfl
  | (_, value) :: entries => by
    rw [scanKeyed, keyedLeaves, flatMap_append, scanUnresolvedSecrets_eq value,
      scanKeyed_eq entries]

end

theorem findUnresolvedSecretKeys_eq_nil (settings : Entries) :
    findUnresolvedSecretKeys (.map settings) = [] ↔ ¬ Unresolved settings := by
  rw [findUnresolvedSecretKeys, ← length_eq_zero_iff, length_insertionSort, length_eq_zero_iff,
    dedup_eq_nil, scanUnresolvedSecrets_eq]
  simp [Unresolved, extractPlaceholderKeys_eq_nil]

namespace Resolver
variable {r : Resolver} {call : Call}

def missingSecrets (r : Resolver) (keys : List String) : String :=
  "settings: resolve for peel " ++ r.peelID ++ ": unresolved secret placeholders for keys: " ++
    String.intercalate ", " keys

/-- A resolve up to the check of the merged settings. -/
def mergeFresh (r : Resolver) (codec : Codec) (call : Call) :
    BusM (Except String (Resolved × Bool)) := do
  match ← loadManifest codec with
  | .error text => return .error ("settings: load manifest: " ++ text)
  | .ok manifest =>
    match ← loadTopFile codec manifest with
    | .error text => return .error ("settings: load top.zy: " ++ text)
    | .ok none => return .ok (⟨[], []⟩, false)
    | .ok (some topData) =>
      match r.parseTopFile topData with
      | .error text => return .error ("settings: parse top.zy: " ++ text)
      | .ok top =>
        match resolveForPeel (r.isMatch · call.facts) top with
        | [] => return .ok (⟨[], [(topKey, topData)]⟩, false)
        | ref :: refs =>
          match ← loadMatchingFiles codec manifest ∅ (ref :: refs) with
          | .error text => return .error ("settings: load matching files: " ++ text)
          | .ok rawFiles =>
            return (r.renderFiles call.it call.facts rawFiles call.secrets ⟨[], [(topKey, topData)]⟩
              (ref :: refs)).map (·, true)

def checked (r : Resolver) : Except String (Resolved × Bool) → Except String (Resolved × Bool)
  | .error text => .error text
  | .ok (resolved, full) =>
    match findUnresolvedSecretKeys (.map resolved.settings) with
    | [] => .ok (resolved, full)
    | unresolved => .error (r.missingSecrets unresolved)

theorem resolveFresh_eq (r : Resolver) (codec : Codec) (call : Call) :
    r.resolveFresh codec call = do return r.checked (← r.mergeFresh codec call) := by
  unfold resolveFresh mergeFresh
  rw [bind_assoc]
  congr 1
  funext loaded
  obtain text | manifest := loaded
  · rfl
  dsimp only
  rw [bind_assoc]
  congr 1
  funext loaded
  obtain text | _ | topData := loaded
  · rfl
  · rfl
  dsimp only
  cases r.parseTopFile topData with
  | error text => rfl
  | ok top =>
    dsimp only
    cases resolveForPeel (r.isMatch · call.facts) top with
    | nil => rfl
    | cons ref refs =>
      dsimp only
      rw [bind_assoc]
      congr 1
      funext loaded
      obtain text | rawFiles := loaded
      · rfl
      dsimp only
      cases r.renderFiles call.it call.facts rawFiles call.secrets ⟨[], [(topKey, topData)]⟩
          (ref :: refs) with
      | error text => rfl
      | ok resolved =>
        simp only [Except.map, pure_eq, done_bind, checked]
        cases findUnresolvedSecretKeys (.map resolved.settings) <;> rfl

theorem checked_ok (passed : r.checked merged = .ok (resolved, full)) :
    ¬ Unresolved resolved.settings := by
  unfold checked at passed
  split at passed
  · cases passed
  · split at passed
    · cases passed
      exact (findUnresolvedSecretKeys_eq_nil _).mp ‹_›
    · cases passed

theorem checked_reports (r : Resolver) (resolved : Resolved) (full : Bool) :
    (∃ keys ≠ [], r.checked (.ok (resolved, full)) = .error (r.missingSecrets keys)) ↔
    Unresolved resolved.settings := by
  rw [← not_iff_not, ← findUnresolvedSecretKeys_eq_nil, checked]
  split
  · simp [*]
  · rename_i some
    exact iff_of_false (not_not.mpr ⟨_, some, rfl⟩) some

def Clean : Option Resolved → Prop
  | none => True
  | some resolved => ¬ Unresolved resolved.settings

theorem resolve_clean (clean : Clean cache.result)
    (returned : (r.resolve codec call cache).MayReturn (result, cache')) :
    Clean result.toOption ∧ Clean cache'.result := by
  have invalidated : ∀ {cache : Cache} (flag : Bool), Clean cache.result →
      Clean (if flag then Cache.empty else cache).result := by
    intro cache flag clean
    split
    · trivial
    · exact clean
  unfold resolve at returned
  dsimp only at returned
  have before := invalidated call.invalidatedBefore clean
  have after := invalidated call.invalidatedDuring before
  obtain ⟨revAtStart, -, returned⟩ := mayReturn_bind.mp returned
  split at returned
  · rename_i held
    rw [held] at before
    cases returned
    exact ⟨before, after⟩
  · obtain ⟨fresh, came, returned⟩ := mayReturn_bind.mp returned
    rw [resolveFresh_eq] at came
    obtain ⟨merged, -, passed⟩ := mayReturn_bind.mp came
    split at returned
    · cases returned
      exact ⟨trivial, after⟩
    · cases returned
      exact ⟨checked_ok passed, after⟩
    · obtain ⟨revNow, -, returned⟩ := mayReturn_bind.mp returned
      split at returned <;> cases returned
      · exact ⟨checked_ok passed, after⟩
      · exact ⟨checked_ok passed, checked_ok passed⟩

theorem resolveAll_clean (calls : List Call) (clean : Clean cache.result)
    (returned : (r.resolveAll codec calls cache).MayReturn results) :
    ∀ result ∈ results, Clean result.toOption := by
  induction calls generalizing cache results with
  | nil =>
    cases returned
    simp
  | cons call calls ih =>
    obtain ⟨⟨result, cache'⟩, came, returned⟩ := mayReturn_bind.mp returned
    obtain ⟨results, later, returned⟩ := mayReturn_bind.mp returned
    cases returned
    obtain ⟨first, clean⟩ := resolve_clean clean came
    exact forall_mem_cons.mpr ⟨first, ih clean later⟩

/-- However the calls of a resolver run beside publishers: no string of the settings that one
returns has the mark of a placeholder in it, and what is merged is refused for missing secrets
exactly if one has. -/
theorem no_placeholder_resolved (r : Resolver) (codec : Codec) :
    (∀ calls results, (r.resolveAll codec calls .empty).MayReturn results →
      ∀ resolved, .ok resolved ∈ results → ¬ Unresolved resolved.settings) ∧
    (∀ call, r.resolveFresh codec call = do return r.checked (← r.mergeFresh codec call)) ∧
    ∀ resolved full, (∃ keys ≠ [], r.checked (.ok (resolved, full)) =
      .error (r.missingSecrets keys)) ↔ Unresolved resolved.settings :=
  have nothing : Clean Cache.empty.result := trivial
  ⟨fun calls _ returned _ member => resolveAll_clean calls nothing returned _ member,
    r.resolveFresh_eq codec, r.checked_reports⟩

end Resolver
end Zester.Settings
