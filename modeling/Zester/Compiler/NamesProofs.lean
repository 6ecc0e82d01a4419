import Zester.Compiler.Load
import Zester.Compiler.RequisitesProofs
import Zester.States.KahnProofs

/-! Whether the references of the built states resolve when names lists are expanded after the
rewriting. -/
namespace Zester.Compiler
open States List

variable {r : Registry}

theorem forall₂_mem (related : Forall₂ R items results) (member : item ∈ items) :
    ∃ result ∈ results, R item result := by
  induction related with
  | nil => cases member
  | cons first _ ih =>
    obtain rfl | later := mem_cons.mp member
    · exact ⟨_, mem_cons_self, first⟩
    · obtain ⟨result, among, here⟩ := ih later
      exact ⟨result, mem_cons_of_mem _ among, here⟩

theorem forall₂_flatten {g : β → List γ} {h : α → List δ} {m : γ → δ}
    (related : Forall₂ (fun item result => (g result).map m = h item) items results) :
    (results.flatMap g).map m = items.flatMap h := by
  induction related with
  | nil => rfl
  | cons first _ ih => rw [flatMap_cons, map_append, first, ih, flatMap_cons]

def expand (k : StateKey) (args : List Config) : List StateKey :=
  match expandNames (flattenArgsList args) with
  | some names => names.map fun name => ⟨name, k.module⟩
  | none => [k]

def expanded (states : MergedStates) : List StateKey :=
  states.keys.flatMap fun k => expand k (states.args k)

theorem mem_expanded : e ∈ expanded states ↔ ∃ k ∈ states, e ∈ expand k (states.args k) := by
  simp only [expanded, mem_flatMap, AList.mem_keys]

theorem namesKey_eq : namesKey = "names" := by decide

theorem expand_congr (same : settings more "names" = settings args "names") :
    expand k more = expand k args := by
  simp only [expand, expandNames, flattenArgsList_lookup, namesKey_eq, same]

theorem expand_unnamed (unset : settings args "names" = []) : expand k args = [k] := by
  simp only [expand, expandNames, flattenArgsList_lookup, namesKey_eq, unset, getLast?_nil]

theorem expand_ne_nil (k : StateKey) (args : List Config) : expand k args ≠ [] := by
  unfold expand
  split
  · rename_i found
    unfold expandNames at found
    split at found
    · cases found
    dsimp only at found
    split at found
    · cases found
    · rename_i nonempty
      cases found
      simpa using nonempty
  · simp

section

/-- The references that a state carries under a forward key. -/
def refsUnder (s : State) : String → List String
  | "require" => s.reqs.require
  | "watch" => s.reqs.watch
  | "onchanges" => s.reqs.onChanges
  | "onfail" => s.reqs.onFail
  | "prereq" => s.prereqTargets
  | _ => []

theorem forall_forwardKeys {P : String → Prop} :
    (∀ key ∈ forwardKeys, P key) ↔ P "require" ∧ P "watch" ∧ P "onchanges" ∧ P "onfail" ∧
    P "prereq" := by
  simp [forwardKeys, requisiteKeys]

/-- What the modules of the registry have in common: a state is named by its module and id, has the
requisites of its configuration and none of the optional interfaces, and an expanded name is not
written over a requisite. -/
structure Registry.Lawful (r : Registry) : Prop where
  builds : ∀ {module builder id config s}, r.builders module = some builder →
    builder id config = .ok s → s = { name := module ++ ":" ++ id, reqs := parseRequisites config }
  inject : ∀ module, (r.namesInjectKey module).1 ∉ forwardKeys ∧
    ∀ key ∈ (r.namesInjectKey module).2, key ∉ forwardKeys

theorem foldl_erase_read {keys : List String} (kept : key ∉ keys) (config : Config) :
    Config.read (keys.foldl (fun config key => config.erase key) config) key = config.read key := by
  induction keys generalizing config with
  | nil => rfl
  | cons dropped keys ih =>
    obtain ⟨other, kept⟩ := ne_and_not_mem_of_not_mem_cons kept
    rw [foldl_cons, ih kept, Config.read, AList.lookup_erase_ne other, Config.read]

theorem nameInstance_read (listed : key ≠ "names") (other : key ≠ inject.1) (kept : key ∉ inject.2)
    (config : Config) (name : String) :
    (nameInstance inject config name).read key = config.read key := by
  rw [nameInstance, Config.read, AList.lookup_insert_ne other, ← Config.read, foldl_erase_read kept,
    Config.read,
    AList.lookup_erase_ne other, AList.lookup_erase_ne (namesKey_eq ▸ listed), Config.read]

theorem wrapAttributes_reqs (s : State) (attrs : StateAttributes) :
    (wrapAttributes s attrs).name = s.name ∧ (wrapAttributes s attrs).reqs = s.reqs := by
  unfold wrapAttributes
  split <;> exact ⟨rfl, rfl⟩

theorem wrapAttributes_prereqTargets (plain : s.prereqTargets = []) (attrs : StateAttributes) :
    (wrapAttributes s attrs).prereqTargets = attrs.prereq := by
  unfold wrapAttributes
  split
  · rename_i zero
    simp only [StateAttributes.isZero, decide_eq_true_eq] at zero
    rw [plain, zero.2.2.2.2.2]
  · rfl

theorem buildEntry_exists (builds : ∀ module id config, ∃ s, r.build module id config = .ok s)
    (floats : Floats)
    (k : StateKey) (args : List Config) : ∃ built, buildEntry r floats k args = .ok built := by
  have one : ∀ module id config, ∃ s, r.buildOne floats module id config = .ok s := by
    intro module id config
    obtain ⟨s, made⟩ := builds module id config
    exact ⟨wrapAttributes s (parseStateAttributes floats config),
      by simp only [Registry.buildOne, made]; rfl⟩
  unfold buildEntry
  dsimp only
  split
  · refine mapM_exists fun name _ => ?_
    obtain ⟨s, made⟩ :=
      one k.module name (nameInstance (r.namesInjectKey k.module) (flattenArgsList args) name)
    exact ⟨s, by rw [made]; rfl⟩
  · obtain ⟨s, made⟩ := one k.module k.id (flattenArgsList args)
    exact ⟨[s], by rw [made]; rfl⟩

variable (lawful : r.Lawful)
include lawful

theorem buildOne_ok {module id : String} (built : r.buildOne floats module id config = .ok s) :
    s.name = StateKey.ref ⟨id, module⟩ ∧
      ∀ key ∈ forwardKeys, refsUnder s key = parseReqEntries (config.read key) := by
  obtain ⟨inner, made, built⟩ := Except.bind_ok built
  cases built
  unfold Registry.build at made
  split at made
  · cases made
  rename_i known
  obtain rfl := lawful.builds known made
  have same := wrapAttributes_reqs { name := module ++ ":" ++ id, reqs := parseRequisites config }
    (parseStateAttributes floats config)
  have targets := @wrapAttributes_prereqTargets
    { name := module ++ ":" ++ id, reqs := parseRequisites config } rfl
    (parseStateAttributes floats config)
  refine ⟨same.1, forall_forwardKeys.mpr ?_⟩
  simp only [refsUnder, same.2, targets]
  exact ⟨rfl, rfl, rfl, rfl, rfl⟩

/-- A built entry has the names of its expansion, and each of its states carries the references of
the entry. -/
theorem buildEntry_ok (made : buildEntry r floats k args = .ok built) :
    names built = (expand k args).map StateKey.ref ∧
      ∀ s ∈ built, ∀ key ∈ forwardKeys,
        refsUnder s key = parseReqEntries ((flattenArgsList args).read key) := by
  unfold buildEntry at made
  dsimp only at made
  unfold expand
  cases listed : expandNames (flattenArgsList args) with
  | none =>
    rw [listed] at made
    obtain ⟨s, one, made⟩ := Except.bind_ok made
    cases made
    obtain ⟨named, carried⟩ := buildOne_ok lawful (Except.mapError_ok one)
    exact ⟨by simp [names, named], by simpa using carried⟩
  | some listedNames =>
    rw [listed] at made
    have one : ∀ {name : String} {s : State},
        r.buildOne floats k.module name
          (nameInstance (r.namesInjectKey k.module) (flattenArgsList args) name) = .ok s →
        s.name = StateKey.ref ⟨name, k.module⟩ ∧
          ∀ key ∈ forwardKeys, refsUnder s key =
              parseReqEntries ((flattenArgsList args).read key) := by
      intro name s built
      obtain ⟨named, carried⟩ := buildOne_ok lawful built
      refine ⟨named, fun key forward => ?_⟩
      obtain ⟨main, aliases⟩ := lawful.inject k.module
      rw [carried key forward, nameInstance_read]
      · rintro rfl
        exact absurd forward (by decide)
      · rintro rfl
        exact main forward
      · exact fun inside => aliases key inside forward
    have each := (mapM_ok made).imp fun name s built => one (Except.mapError_ok built)
    refine ⟨?_, fun s inside => ?_⟩
    · rw [map_map, names]
      exact forall₂_eq_eq_eq ▸ forall₂_map_left_iff.mpr (forall₂_map_right_iff.mpr
        (each.flip.imp fun s name built => built.1))
    · obtain ⟨name, -, made⟩ := forall₂_mem each.flip inside
      exact made.2

/-- The built states have the names of the expanded declarations, and each declaration is there with
the references that it carries after the rewriting. -/
theorem buildMerged_ok (done : buildMerged it r floats states = .ok built) :
    ∃ out, transformRequisites it states = .ok out ∧
      (names built).Perm ((expanded out).map StateKey.ref) ∧
      (∀ s ∈ built, ∃ k ∈ out, ∀ key ∈ forwardKeys, ∀ ref, ref ∈ refsUnder s key ↔
        Carries out k key ref) ∧
      ∀ k ∈ out, ∃ s ∈ built, ∀ key ∈ forwardKeys, ∀ ref, ref ∈ refsUnder s key ↔
        Carries out k key ref := by
  obtain ⟨out, rewritten, done⟩ := Except.bind_ok done
  obtain ⟨entries, collected, done⟩ := Except.bind_ok done
  cases done
  have each := mapM_ok collected
  have carries : ∀ {k : StateKey} {entry : List State},
      buildEntry r floats k (out.args k) = .ok entry →
      ∀ s ∈ entry, ∀ key ∈ forwardKeys, ∀ ref, ref ∈ refsUnder s key ↔ Carries out k key ref := by
    intro k entry made s inside key forward ref
    rw [(buildEntry_ok lawful made).2 s inside key forward, Carries]
  refine ⟨out, rewritten, ?_, fun s inside => ?_, fun k member => ?_⟩
  · have listed : names (entries.flatMap id) =
        (it.order [4] out.keys).flatMap fun k => (expand k (out.args k)).map StateKey.ref :=
      forall₂_flatten (each.imp fun k entry made => (buildEntry_ok lawful made).1)
    rw [flatMap_id] at listed
    rw [listed, expanded, map_flatMap]
    exact (it.perm [4] out.keys).flatMap_right _
  · obtain ⟨entry, among, here⟩ := mem_flatten.mp inside
    obtain ⟨k, member, made⟩ := forall₂_mem each.flip among
    exact ⟨k, AList.mem_keys.mpr ((it.mem_order _).mp member), carries made s here⟩
  · obtain ⟨entry, among, made⟩ :=
      forall₂_mem each ((it.mem_order [4]).mpr (AList.mem_keys.mp member))
    have nonempty : entry ≠ [] := by
      rintro rfl
      have none := (buildEntry_ok lawful made).1
      exact expand_ne_nil k _ (map_eq_nil_iff.mp none.symm)
    obtain ⟨s, here⟩ := exists_mem_of_ne_nil entry nonempty
    exact ⟨s, mem_flatten.mpr ⟨entry, among, here⟩, carries made s here⟩

end

/-- The built states have pairwise distinct names, every reference is the name of one, and the graph
accepts them. -/
structure Resolvable (built : List State) : Prop where
  distinct : (names built).Nodup
  requisites : ∀ s ∈ built, ∀ ref ∈ s.reqs.allDeps, ref ∈ names built
  prereqs : ∀ s ∈ built, ∀ ref ∈ s.prereqTargets, ref ∈ names built
  accepted : ∀ it, ∃ d, newDAG it built = .ok d

theorem resolvable_iff :
    Resolvable built ↔ (names built).Nodup ∧
      ∀ s ∈ built, ∀ key ∈ forwardKeys, ∀ ref ∈ refsUnder s key, ref ∈ names built := by
  have split : ∀ s : State, (∀ key ∈ forwardKeys, ∀ ref ∈ refsUnder s key, ref ∈ names built) ↔
      (∀ ref ∈ s.reqs.allDeps, ref ∈ names built) ∧ ∀ ref ∈ s.prereqTargets, ref ∈ names built := by
    intro s
    rw [forall_forwardKeys]
    simp only [refsUnder, Requisites.mem_allDeps, or_imp, forall_and, and_assoc]
  simp only [split, forall_and]
  constructor
  · exact fun good => ⟨good.distinct, good.requisites, good.prereqs⟩
  · rintro ⟨distinct, requisites, prereqs⟩
    exact ⟨distinct, requisites, prereqs, fun it => newDAG_exists it ⟨distinct, requisites⟩⟩

/-- Colon-free declarations whose requisites, inverse requisites and prereqs all name states of the
expansion, and whose expanded states are pairwise distinct. -/
structure Expandable (states : MergedStates) : Prop where
  plain : ∀ k ∈ states, k.ColonFree
  plainNames : ∀ e ∈ expanded states, e.ColonFree
  distinct : (expanded states).Nodup
  named : ∀ a ∈ states, ∀ key ∈ "listen" :: forwardKeys ++ inverseKeys, ∀ ref,
    DeclaredRef (states.args a) key ref → ∃ e ∈ expanded states, ref = e.ref

/-- What the rewriting needs, as it knows the declarations only: every target of an inverse
requisite or prereq is the name of a declaration, and where the source of one is written to a list
that is read, it is itself expanded to its own name. -/
structure DeclaredTargets (states : MergedStates) : Prop where
  targets : Targeted states
  sources : ∀ a ∈ states, ∀ pair ∈ ("prereq", "require") :: inverseForward, ∀ b ∈ states,
    DeclaredRef (states.args a) pair.1 b.ref → (settings (states.args b) pair.2).length ≤ 1 →
      a ∈ expanded states

section
variable (rewritten : Rewritten added states out)
include rewritten

theorem Rewritten.expand_eq (k : StateKey) : expand k (out.args k) = expand k (states.args k) :=
  expand_congr (rewritten.names k)

theorem Rewritten.expanded_perm (keys : ∀ k, k ∈ out ↔ k ∈ states) :
    (expanded out).Perm (expanded states) := by
  have perm : out.keys.Perm states.keys := by
    rw [perm_ext_iff_of_nodup out.keys_nodup states.keys_nodup]
    intro k
    rw [← AList.mem_keys, ← AList.mem_keys, keys]
  have same : expanded out = out.keys.flatMap fun k => expand k (states.args k) :=
    flatMap_congr fun k _ => rewritten.expand_eq k
  rw [same]
  exact perm.flatMap_right _

/-- A state that the rewriting makes up stands beside the one of the same name that a names list is
expanded to. -/
theorem Rewritten.declared_of_distinct (distinct : (expanded out).Nodup) (made : k ∈ out)
    (named : k ∈ expanded states) : k ∈ states := by
  by_contra undeclared
  have alone : expand k (out.args k) = [k] := by
    rw [rewritten.expand_eq]
    refine expand_unnamed ?_
    rw [MergedStates.args, AList.lookup_eq_none.mpr undeclared]
    rfl
  obtain ⟨source, declared, inside⟩ := mem_expanded.mp named
  have other : k ≠ source := by
    rintro rfl
    exact undeclared declared
  have symmetric : Std.Symm (Function.onFun Disjoint fun k => expand k (out.args k)) :=
    ⟨fun _ _ disjoint => List.Disjoint.symm disjoint⟩
  have apart := (nodup_flatMap.mp distinct).2.forall
    (AList.mem_keys.mp made) (AList.mem_keys.mp ((rewritten.keys source).mpr (.inl declared))) other
  refine apart (alone ▸ mem_singleton_self k) ?_
  dsimp only
  rw [rewritten.expand_eq]
  exact inside

/-- What a declaration carries in the end was declared there, or it was injected where a single
value is set at most. -/
theorem Rewritten.carries (forward : key ∈ forwardKeys) (carried : Carries out k key ref) :
    DeclaredRef (states.args k) key ref ∨ added k key ref ∧
      (settings (states.args k) key).length ≤ 1 := by
  have grown := rewritten.grown k key forward
  rw [carries_iff_last] at carried
  by_cases single : (sheets (states.args k) key).length ≤ 1
  · obtain declared | injected := (grown.last_of_single single).mp carried
    · exact .inl (mem_sheets.mp declared)
    · exact .inr ⟨injected, by simpa [sheets] using single⟩
  · rw [grown.last_of_several single] at carried
    refine .inl (mem_sheets.mp ?_)
    cases last : (sheets (states.args k) key).getLast? with
    | none => simp [last] at carried
    | some refs => exact ⟨refs, mem_of_getLast? last, by simpa [last] using carried⟩

theorem Rewritten.carries_added (forward : key ∈ forwardKeys)
    (single : (settings (states.args k) key).length ≤ 1)
    (injected : added k key ref) : Carries out k key ref := by
  rw [carries_iff_last]
  exact ((rewritten.grown k key forward).last_of_single (by simpa [sheets] using single)).mpr
    (.inr injected)

end

namespace Expandable
variable (expandable : Expandable states)
include expandable

theorem target (member : a ∈ states) (listed : key ∈ "prereq" :: inverseKeys) {target : String}
    (declared : DeclaredRef (states.args a) key target) :
    ∃ e ∈ expanded states, target = e.ref := by
  refine expandable.named a member key ?_ target declared
  obtain rfl | inverse := mem_cons.mp listed
  · decide
  · exact mem_append_right _ inverse

theorem cut : Cut states := by
  intro a member key listed target declared
  obtain ⟨e, -, rfl⟩ := expandable.target member listed declared
  exact splitRef_ref_exists e

theorem plainTargets : PlainTargets states :=
  ⟨fun _ _ _ _ b known _ => (expandable.plain b known).2,
    fun a member _ _ => (expandable.plain a member).2⟩

theorem names_nodup : ((expanded states).map StateKey.ref).Nodup :=
  expandable.distinct.map_on fun _ _ e named same =>
    eq_of_ref_eq (expandable.plainNames e named) same

theorem keys_iff (targets : Targeted states)
    (rewritten : Rewritten (fun b key ref => InvertedOnto states b key ref ∨
      OrderedOnto states b key ref) states out) : k ∈ out ↔ k ∈ states := by
  refine (rewritten.keys k).trans (or_iff_left_of_imp ?_)
  rintro ⟨key, -, ref, inverse | ordered⟩
  · exact ((targets.inverted_iff expandable.plainTargets).mp inverse).1
  · exact ((targets.ordered_iff expandable.plainTargets).mp ordered).1

theorem resolves (declared : DeclaredTargets states)
    (rewritten : Rewritten (fun b key ref => InvertedOnto states b key ref ∨
      OrderedOnto states b key ref) states out)
    (forward : key ∈ forwardKeys) (carried : Carries out k key ref) :
    ∃ e ∈ expanded states, ref = e.ref := by
  have plain := expandable.plainTargets
  obtain own | ⟨inverse | ordered, single⟩ := rewritten.carries forward carried
  · exact expandable.named k (declared_mem own) key
      (mem_append_left _ (mem_cons_of_mem _ forward)) ref own
  · obtain ⟨known, ⟨rfl, own⟩ | ⟨a, member, rfl, entry, among, rfl, asked⟩⟩ :=
      (declared.targets.inverted_iff plain).mp inverse
    · exact expandable.named k known "listen" (by decide) ref own
    · exact ⟨a, declared.sources a member entry (mem_cons_of_mem _ among) k known asked single, rfl⟩
  · obtain ⟨known, rfl, a, member, rfl, asked | asked⟩ :=
      (declared.targets.ordered_iff plain).mp ordered
    · exact ⟨a, declared.sources a member
        ("prereq", "require") mem_cons_self k known asked single, rfl⟩
    · exact expandable.named k known "prereq_in" (by decide) a.ref asked

/-- Distinct names rule out targets that are not declarations, and resolved references rule out
sources that are not expanded to themselves. -/
theorem declared_of_resolved
    (rewritten : Rewritten (fun b key ref => InvertedOnto states b key ref ∨
      OrderedOnto states b key ref) states out) (distinct : (expanded out).Nodup)
    (resolved : ∀ k ∈ out, ∀ key ∈ forwardKeys, ∀ ref, Carries out k key ref →
      ∃ e ∈ expanded out, ref = e.ref) : DeclaredTargets states := by
  have targets : Targeted states := by
    intro a member key listed target asked
    obtain ⟨e, named, rfl⟩ := expandable.target member listed asked
    have split := splitRef_ref (expandable.plainNames e named).2
    refine ⟨e, rewritten.declared_of_distinct distinct
      ((rewritten.keys e).mpr (.inr ?_)) named, rfl⟩
    obtain rfl | inverse := mem_cons.mp listed
    · exact ⟨"require", by decide, a.ref, .inr ⟨rfl, a, rfl, e.ref, .inl asked, split⟩⟩
    · obtain ⟨entry, inside, rfl⟩ := mem_map.mp inverse
      exact ⟨entry.2, inverse_mem_forwardKeys entry inside, a.ref,
        .inl (.inr ⟨a, member, rfl, entry, inside, rfl, e.ref, asked, split⟩)⟩
  have plain := expandable.plainTargets
  have keys : ∀ k, k ∈ out ↔ k ∈ states := fun k => expandable.keys_iff targets rewritten
  refine ⟨targets, fun a member pair among b known asked single => ?_⟩
  have injected : pair.2 ∈ forwardKeys ∧
      (InvertedOnto states b pair.2 a.ref ∨ OrderedOnto states b pair.2 a.ref) := by
    obtain rfl | inverse := mem_cons.mp among
    · exact ⟨by decide, .inr
        ((targets.ordered_iff plain).mpr ⟨known, rfl, a, member, rfl, .inl asked⟩)⟩
    · exact ⟨inverse_mem_forwardKeys pair inverse,
        .inl ((targets.inverted_iff plain).mpr
          ⟨known, .inr ⟨a, member, rfl, pair, inverse, rfl, asked⟩⟩)⟩
  obtain ⟨e, named, same⟩ := resolved b ((keys b).mpr known) pair.2 injected.1 a.ref
    (rewritten.carries_added injected.1 single injected.2)
  have inside := (rewritten.expanded_perm keys).mem_iff.mp named
  exact eq_of_ref_eq (expandable.plainNames e inside) same ▸ inside

end Expandable

/-- Where every module builds its states, the compilation of colon-free declarations whose
requisites name distinct states of the expansion succeeds, and what it builds has distinct names and
resolvable references, if and only if the targets are declarations and their sources are expanded to
themselves. -/
theorem names_resolvable_iff (it : Ranging) (r : Registry) (floats : Floats) (states : MergedStates)
    (lawful : r.Lawful) (expandable : Expandable states) :
    ((∀ module id config, ∃ s, r.build module id config = .ok s) →
      ∃ built, buildMerged it r floats states = .ok built) ∧
      ∀ built, buildMerged it r floats states = .ok built →
        (Resolvable built ↔ DeclaredTargets states) := by
  obtain ⟨out, done, rewritten⟩ := @transformRequisites_rewrites it states expandable.cut
  refine ⟨fun builds => ?_, fun built compiled => ?_⟩
  · obtain ⟨entries, collected⟩ := mapM_exists fun k (_ : k ∈ it.order [4] out.keys) =>
      buildEntry_exists builds floats k (out.args k)
    refine ⟨entries.flatten, ?_⟩
    simp only [buildMerged, done, bind, Except.bind, collected]
    rfl
  · obtain ⟨made, again, perm, fromDeclared, toBuilt⟩ := buildMerged_ok lawful compiled
    obtain rfl := Except.ok.inj (again.symm.trans done)
    have named : ∀ ref, ref ∈ names built ↔ ∃ e ∈ expanded made, ref = e.ref := by
      intro ref
      rw [perm.mem_iff, mem_map]
      exact exists_congr fun e => and_congr_right fun _ => eq_comm
    rw [resolvable_iff, perm.nodup_iff]
    constructor
    · rintro ⟨distinct, resolved⟩
      refine expandable.declared_of_resolved rewritten distinct.of_map
        fun k member key forward ref carried => ?_
      obtain ⟨s, inside, shows⟩ := toBuilt k member
      exact (named ref).mp (resolved s inside key forward ref ((shows key forward ref).mpr carried))
    · intro declared
      have same := rewritten.expanded_perm fun k => expandable.keys_iff declared.targets rewritten
      refine ⟨(same.map _).nodup_iff.mpr expandable.names_nodup,
        fun s inside key forward ref carried => ?_⟩
      obtain ⟨k, -, shows⟩ := fromDeclared s inside
      obtain ⟨e, among, rfl⟩ :=
        expandable.resolves declared rewritten forward ((shows key forward ref).mp carried)
      exact (named _).mpr ⟨e, same.mem_iff.mpr among, rfl⟩

def plainModules : Registry where
  builders module :=
    some fun id config => .ok { name := module ++ ":" ++ id, reqs := parseRequisites config }
  describe _ := none

theorem plainModules_lawful : plainModules.Lawful := by
  refine ⟨fun known made => ?_,
    fun _ => ⟨(by decide : "name" ∉ forwardKeys), fun _ none => absurd none not_mem_nil⟩⟩
  cases known
  cases made
  rfl

def refreshedPackages (target : String) : MergedStates :=
  AList.insert ⟨"refresh", "cmd.run"⟩
    [.ofList [("require_in", .list [.map [("pkg", .str target)]])]] <|
  AList.insert ⟨"packages", "pkg.installed"⟩
    [.ofList [("names", .list [.str "nginx", .str "curl"])]] <|
  AList.insert ⟨"vim", "pkg.installed"⟩ [] ∅

theorem expandable_of_keys (plain : ∀ k ∈ states.keys, k.ColonFree)
    (plainNames : ∀ e ∈ expanded states, e.ColonFree) (distinct : (expanded states).Nodup)
    (named : ∀ a ∈ states.keys, ∀ key ∈ "listen" :: forwardKeys ++ inverseKeys,
      ∀ item ∈ states.args a,
      ∀ ref ∈ parseReqEntries (item.read key), ∃ e ∈ expanded states, ref = e.ref) :
    Expandable states := by
  refine ⟨fun k member => plain k (AList.mem_keys.mp member), plainNames, distinct, ?_⟩
  rintro a member key listed ref ⟨item, inside, declared⟩
  exact named a (AList.mem_keys.mp member) key listed item inside ref declared

theorem names_resolvable_iff_vim :
    ((∀ module id config, ∃ s, plainModules.build module id config = .ok s) →
      ∃ built, buildMerged .listed plainModules ⟨fun _ => none, fun _ => false⟩
        (refreshedPackages "vim") = .ok built) ∧
    ∀ built, buildMerged .listed plainModules ⟨fun _ => none, fun _ => false⟩
      (refreshedPackages "vim") = .ok built →
      (Resolvable built ↔ DeclaredTargets (refreshedPackages "vim")) :=
  names_resolvable_iff .listed plainModules ⟨fun _ => none, fun _ => false⟩
    (refreshedPackages "vim") plainModules_lawful
    (expandable_of_keys (by decide) (by decide) (by decide) (by decide))

/-- The package of the names list that the command names is no declaration, so a second state of its
name is made up. -/
theorem expanded_package_duplicated :
    Expandable (refreshedPackages "nginx") ∧
      ∃ built, buildMerged .listed plainModules ⟨fun _ => none, fun _ => false⟩
        (refreshedPackages "nginx") = .ok built ∧ ¬ Resolvable built := by
  refine ⟨expandable_of_keys (by decide) (by decide) (by decide) (by decide), _, rfl,
    fun good => ?_⟩
  exact absurd good.distinct (by decide)

end Zester.Compiler
