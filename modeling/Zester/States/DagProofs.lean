import Zester.States.KahnProofs

/-! Resolution is level-wise topological sorting: it succeeds exactly on acyclic
state sets, and a state's level is the length of its longest dependency chain,
whatever the order of the input and of the loops over maps. -/
namespace Zester.States
open Layering DAG List Function

variable {d : DAG}

def depsOf (states : List State) (x : String) : List String :=
  ((states.find? fun s => s.name = x).map fun s => s.reqs.allDeps).getD []

theorem Accepted.same_state (accepted : Accepted states) (first : s ∈ states) (second : t ∈ states)
    (same : s.name = t.name) : s = t :=
  inj_on_of_nodup_map accepted.distinct first second same

theorem Accepted.depsOf_name (accepted : Accepted states) (member : s ∈ states) :
    depsOf states s.name = s.reqs.allDeps := by
  unfold depsOf
  cases found : states.find? (fun t => t.name = s.name) with
  | none =>
    have different := find?_eq_none.mp found s member
    simp at different
  | some t =>
    have same : t.name = s.name := by simpa using find?_some found
    rw [accepted.same_state (mem_of_find?_eq_some found) member same]
    rfl

theorem depsOf_unlisted (missing : x ∉ names states) : depsOf states x = [] := by
  have absent : states.find? (fun s => s.name = x) = none := by
    rw [find?_eq_none]
    intro s member
    have different : s.name ≠ x := fun same => missing (same ▸ mem_map_of_mem member)
    simpa using different
  simp [depsOf, absent]

theorem Accepted.mem_depsOf (accepted : Accepted states) :
    y ∈ depsOf states x ↔ DependsOn states x y := by
  constructor
  · intro edge
    by_cases listed : x ∈ names states
    · obtain ⟨s, member, rfl⟩ := mem_map.mp listed
      exact ⟨s, member, rfl, accepted.depsOf_name member ▸ edge⟩
    · rw [depsOf_unlisted listed] at edge
      contradiction
  · rintro ⟨s, member, rfl, edge⟩
    rwa [accepted.depsOf_name member]

section
variable {edges : List (String × List String)}

theorem degrees_foldl (unique : (edges.map Prod.fst).Nodup) (inDegree : String → Int) (x : String) :
    edges.foldl (fun inDegree edge => update inDegree edge.1 (edge.2.length : Int))
        inDegree x =
      match edges.find? (fun edge => edge.1 = x) with
      | some edge => (edge.2.length : Int)
      | none => inDegree x := by
  induction edges generalizing inDegree with
  | nil => rfl
  | cons edge edges ih =>
    obtain ⟨fresh, unique⟩ := nodup_cons.mp unique
    rw [foldl_cons, ih unique, find?_cons]
    by_cases same : edge.1 = x
    · have absent : edges.find? (fun edge => edge.1 = x) = none := by
        rw [find?_eq_none]
        intro other member
        have different : other.1 ≠ x := fun again =>
          fresh (same.trans again.symm ▸ mem_map_of_mem member)
        simpa using different
      simp [same, absent]
    · have other : x ≠ edge.1 := fun h => same h.symm
      simp [same, update_of_ne other]

section
variable (accepted : Accepted states) (listed : edges.Perm (declared states))
include accepted listed

theorem degrees_declared (x : String) : degrees edges x = (depsOf states x).length := by
  have keys : (edges.map Prod.fst).Perm (names states) := by
    simpa [declared, names, comp_def] using listed.map Prod.fst
  rw [degrees, degrees_foldl (keys.nodup_iff.mpr accepted.distinct)]
  cases found : edges.find? (fun edge => edge.1 = x) with
  | none =>
    have missing : x ∉ names states := by
      intro member
      obtain ⟨edge, listed, rfl⟩ := mem_map.mp (keys.mem_iff.mpr member)
      have different := find?_eq_none.mp found edge listed
      simp at different
    simp [depsOf_unlisted missing]
  | some edge =>
    have same : edge.1 = x := by simpa using find?_some found
    obtain ⟨s, member, rfl⟩ := mem_map.mp (listed.mem_iff.mp (mem_of_find?_eq_some found))
    subst same
    simp [accepted.depsOf_name member]

theorem dependents_spec (q : String) : (dependents edges q).Nodup ∧
      ∀ x, x ∈ dependents edges q ↔ q ∈ depsOf states x := by
  have members : ∀ x, x ∈ dependents edges q ↔ DependsOn states x q := by
    intro x
    simp only [dependents, Tally.group_foldl, nil_append, mem_map, mem_filter,
      mem_flatMap, decide_eq_true_eq]
    constructor
    · rintro ⟨_, ⟨⟨edge, member, dep, needed, rfl⟩, rfl⟩, rfl⟩
      obtain ⟨s, state, rfl⟩ := mem_map.mp (listed.mem_iff.mp member)
      exact ⟨s, state, rfl, needed⟩
    · rintro ⟨s, state, rfl, needed⟩
      exact ⟨(q, s.name), ⟨⟨(s.name, s.reqs.allDeps), listed.mem_iff.mpr
        (mem_map_of_mem state), q, needed, rfl⟩, rfl⟩, rfl⟩
  refine ⟨?_, fun x => (members x).trans accepted.mem_depsOf.symm⟩
  have keys : (edges.map Prod.fst).Nodup := by
    refine ((listed.map Prod.fst).nodup_iff).mpr ?_
    simpa [declared, names, comp_def] using accepted.distinct
  have pairs : (edges.flatMap fun edge => edge.2.map fun dep => (dep, edge.1)).Nodup := by
    rw [nodup_flatMap]
    constructor
    · intro edge member
      obtain ⟨s, _, rfl⟩ := mem_map.mp (listed.mem_iff.mp member)
      exact s.reqs.allDeps_nodup.map fun _ _ same => (Prod.mk.inj same).1
    · refine (pairwise_map.mp keys).imp fun {a b} different => ?_
      intro pair first second
      obtain ⟨_, _, rfl⟩ := mem_map.mp first
      obtain ⟨_, _, same⟩ := mem_map.mp second
      exact different (Prod.mk.inj same).2.symm
  simp only [dependents, Tally.group_foldl, nil_append]
  refine (pairs.filter _).map_on ?_
  intro a first b second same
  have left : a.1 = q := by simpa using (mem_filter.mp first).2
  have right : b.1 = q := by simpa using (mem_filter.mp second).2
  exact Prod.ext (left.trans right.symm) same

theorem reverses :
    Reverses (names states) (depsOf states) (dependents edges) where
  back q x := by
    obtain ⟨unique, members⟩ := dependents_spec accepted listed q
    simp only [unique.count, members]
  once x := by
    by_cases member : x ∈ names states
    · obtain ⟨s, listed, rfl⟩ := mem_map.mp member
      rw [accepted.depsOf_name listed]
      exact s.reqs.allDeps_nodup
    · simp [depsOf_unlisted member]
  only x y edge := by
    obtain ⟨s, member, rfl, _⟩ := accepted.mem_depsOf.mp edge
    exact mem_map_of_mem member

end

end

theorem start_inv (accepted : Accepted states) (rep : Represents d states) :
    LoopInv (names states) (depsOf states) (start it d) := by
  have degree := degrees_declared accepted ((it.perm [1] d.edgeList).trans rep.edges)
  have keys : (it.order [2] d.nodes.keys).Perm (names states) :=
    (it.perm [2] d.nodes.keys).trans rep.keys
  have queue : ∀ x, x ∈ (start it d).queue ↔ x ∈ names states ∧ depsOf states x = [] := by
    intro x
    simp only [start, mem_insertionSort, mem_filter, keys.mem_iff, degree,
      decide_eq_true_eq, Int.natCast_eq_zero, length_eq_zero_iff]
  constructor
  · intro x member
    simp [start] at member
  · simp only [start, flatten_nil, nil_append]
    exact (perm_insertionSort _ _).nodup_iff.mpr
      ((keys.nodup_iff.mpr accepted.distinct).filter _)
  · intro x
    simp only [start, degree, flatten_nil, not_mem_nil, not_false_eq_true,
      decide_true, countP_true]
  · intro x
    rw [queue]
    simp only [start, flatten_nil, not_mem_nil, not_false_eq_true, true_and,
      eq_nil_iff_forall_not_mem]
  · intro level member
    obtain rfl : level = (start it d).queue := by simpa [start] using member
    exact pairwise_insertionSort _ _
  · intro level member
    simp [start] at member
  · simp [start]
  · refine IsLayering.bottom fun x member y edge => ?_
    rw [((queue x).mp member).2] at edge
    contradiction

/-- What the loop leaves behind when its queue is empty. -/
structure Finished (states : List State) (levels : List (List String)) : Prop where
  inside : ∀ x ∈ levels.flatten, x ∈ names states
  unique : levels.flatten.Nodup
  sorted : ∀ level ∈ levels, level.Pairwise (· < ·)
  filled : ∀ level ∈ levels, level ≠ []
  layering : IsLayering (fun x y => y ∈ depsOf states x) levels
  stuck : ∀ x ∈ names states, x ∉ levels.flatten → ∃ y ∈ depsOf states x, y ∉ levels.flatten

theorem resolve_finished (it : Ranging) (accepted : Accepted states) (rep : Represents d states) :
    ∃ levels, Finished states levels ∧ d.resolve it = if levels.flatten.length ≠ states.length then
          .error (.cycle levels.flatten.length states.length)
        else .ok (levels.map fun level => level.filterMap d.get) := by
  have rev := reverses accepted ((it.perm [1] d.edgeList).trans rep.edges)
  have first : LoopInv (names states) (depsOf states) (start it d) :=
    start_inv accepted rep
  have len : d.len = states.length := by
    rw [len, rep.keys.length_eq, names, length_map]
  have inv := drain_inv rev first d.len
  have empty := drain_queue rev first d.len
    (by simp only [len, names, length_map, Nat.le_add_right])
  generalize last : drain (dependents (it.order [1] d.edgeList)) d.len (start it d) = p at inv empty
  have unique := (nodup_append.mp inv.unique).1
  refine ⟨p.levels, ⟨inv.inside, unique, ?_, inv.filled, ?_, ?_⟩, ?_⟩
  · intro level member
    have ordered := inv.sorted level (mem_append.mpr (.inl member))
    have distinct := (nodup_flatten.mp unique).1 level member
    exact ordered.imp₂ (fun _ _ le ne => lt_of_le_of_ne le ne) distinct
  · have layering := inv.layering
    rw [empty] at layering
    exact layering.drop_empty
  · intro x node fresh
    by_contra all
    push Not at all
    have queued := (inv.ready x).mpr ⟨node, fresh, all⟩
    rw [empty] at queued
    contradiction
  · simp only [resolve, last]
    simp only [inv.count, len]

namespace Finished

theorem complete_iff (accepted : Accepted states) (finished : Finished states levels) :
    levels.flatten.length = states.length ↔ ∀ x ∈ names states, x ∈ levels.flatten := by
  have sub : levels.flatten.Subperm (names states) := finished.unique.subperm finished.inside
  constructor
  · intro full x node
    have perm := sub.perm_of_length_le (by simp [names, full])
    exact perm.mem_iff.mpr node
  · intro all
    have back : (names states).Subperm levels.flatten := accepted.distinct.subperm all
    have same := le_antisymm sub.length_le back.length_le
    simpa [names] using same

/-- The loop processes every node exactly when there is no cycle: a cycle keeps
its nodes waiting, and nodes left over wait for one another. -/
theorem acyclic_iff (accepted : Accepted states) (finished : Finished states levels) :
    levels.flatten.length = states.length ↔ Acyclic (DependsOn states) := by
  have relation : (fun x y => y ∈ depsOf states x) = DependsOn states := by
    funext x y
    exact propext accepted.mem_depsOf
  rw [finished.complete_iff accepted]
  constructor
  · intro all
    rw [← relation]
    refine finished.layering.acyclic fun {x y} edge => ?_
    obtain ⟨s, member, rfl, _⟩ := accepted.mem_depsOf.mp edge
    exact mem_flatten_iff_layer.mp (all _ (mem_map_of_mem member))
  · intro acyclic
    by_contra some_left
    push Not at some_left
    obtain ⟨x, node, left⟩ := some_left
    let stuck := (names states).filter fun x => x ∉ levels.flatten
    have nonempty : stuck ≠ [] :=
      ne_nil_of_mem (mem_filter.mpr ⟨node, by simpa using left⟩)
    refine not_acyclic_of_stuck nonempty ?_ acyclic
    intro x member
    obtain ⟨node, left⟩ := mem_filter.mp member
    obtain ⟨y, edge, waiting⟩ := finished.stuck x node (by simpa using left)
    obtain ⟨s, listed, rfl, needed⟩ := accepted.mem_depsOf.mp edge
    exact ⟨y, mem_filter.mpr ⟨accepted.closed s listed y needed, by simpa using waiting⟩,
      s, listed, rfl, needed⟩

end Finished

/-- A resolution of the state set into levels. -/
structure Leveled (states : List State) (levels : List Level) : Prop where
  /-- Every state occurs in exactly one level, once. -/
  once : levels.flatten.Perm states
  height : ∀ {i s}, s ∈ layer levels i → Height (DependsOn states) s.name i
  below : ∀ {i s t}, s ∈ layer levels i → t ∈ states → DependsOn states s.name t.name →
    ∃ j < i, t ∈ layer levels j
  near : ∀ {i s}, s ∈ layer levels (i + 1) → ∃ t ∈ layer levels i, DependsOn states s.name t.name
  sorted : ∀ level ∈ levels, level.Pairwise fun s t => s.name < t.name

theorem Represents.get_iff (accepted : Accepted states) (rep : Represents d states)
    (node : x ∈ names states) : d.get x = some s ↔ s ∈ states ∧ s.name = x := by
  obtain ⟨t, member, rfl⟩ := mem_map.mp node
  rw [rep.node t member, Option.some.injEq]
  constructor
  · rintro rfl
    exact ⟨member, rfl⟩
  · rintro ⟨other, same⟩
    exact accepted.same_state member other same.symm

theorem Represents.filterMap_names (rep : Represents d states) {level : List String}
    (nodes : ∀ x ∈ level, x ∈ names states) :
    (level.filterMap d.get).map State.name = level := by
  induction level with
  | nil => rfl
  | cons x level ih =>
    obtain ⟨s, member, rfl⟩ := mem_map.mp (nodes x mem_cons_self)
    rw [filterMap_cons, rep.node s member]
    simp only [map_cons, ih fun y listed => nodes y (mem_cons_of_mem _ listed)]

theorem layer_map (levels : List (List String)) (i : Nat) :
    layer (levels.map fun level => level.filterMap d.get) i = (layer levels i).filterMap d.get := by
  simp only [layer, getD_eq_getElem?_getD, getElem?_map]
  cases levels[i]? <;> rfl

theorem Represents.mem_layer (accepted : Accepted states) (rep : Represents d states)
    (inside : ∀ x ∈ levels.flatten, x ∈ names states) :
    s ∈ layer (levels.map fun level => level.filterMap d.get) i ↔ s ∈ states ∧
      s.name ∈ layer levels i := by
  rw [layer_map, mem_filterMap]
  constructor
  · rintro ⟨x, member, found⟩
    have node := inside x (mem_flatten_iff_layer.mpr ⟨i, member⟩)
    obtain ⟨state, rfl⟩ := (rep.get_iff accepted node).mp found
    exact ⟨state, member⟩
  · rintro ⟨state, member⟩
    exact ⟨s.name, member, rep.node s state⟩

theorem Finished.leveled (accepted : Accepted states) (rep : Represents d states)
    (finished : Finished states levels) (full : levels.flatten.length = states.length) :
    Leveled states (levels.map fun level => level.filterMap d.get) := by
  have all := (finished.complete_iff accepted).mp full
  have relation : (fun x y => y ∈ depsOf states x) = DependsOn states := by
    funext x y
    exact propext accepted.mem_depsOf
  have layering : IsLayering (DependsOn states) levels := relation ▸ finished.layering
  have members {i : Nat} {s : State} := rep.mem_layer accepted finished.inside (i := i) (s := s)
  have level_names : ∀ level ∈ levels, ((level.filterMap d.get).map State.name) = level :=
    fun level listed => rep.filterMap_names fun x member =>
      finished.inside x (mem_flatten.mpr ⟨level, listed, member⟩)
  constructor
  · have perm : levels.flatten.Perm (names states) :=
      (finished.unique.subperm finished.inside).perm_of_length_le (by simp [names, full])
    have lookup : (names states).filterMap d.get = states := by
      have same : ∀ t ∈ states, d.get t.name = some t := rep.node
      clear * - same
      induction states with
      | nil => rfl
      | cons s states ih =>
        simp only [names, map_cons, filterMap_cons, same s mem_cons_self]
        rw [← names, ih fun t member => same t (mem_cons_of_mem _ member)]
    rw [← filterMap_flatten]
    exact (perm.filterMap d.get).trans (.of_eq lookup)
  · intro i s member
    exact layering.height (members.mp member).2
  · intro i s t member state edge
    obtain ⟨j, lower, found⟩ := layering.below (members.mp member).2 edge
    exact ⟨j, lower, members.mpr ⟨state, found⟩⟩
  · intro i s member
    obtain ⟨y, found, edge⟩ := layering.near (members.mp member).2
    obtain ⟨t, state, rfl⟩ := mem_map.mp (finished.inside y (mem_flatten_iff_layer.mpr ⟨i, found⟩))
    exact ⟨t, members.mpr ⟨state, found⟩, edge⟩
  · intro level member
    obtain ⟨level, listed, rfl⟩ := mem_map.mp member
    rw [← pairwise_map, level_names level listed]
    exact finished.sorted level listed

theorem Accepted.perm (accepted : Accepted states) (perm : states'.Perm states) :
    Accepted states' where
  distinct := ((perm.map State.name).nodup_iff).mpr accepted.distinct
  closed s member dep needed :=
    ((perm.map State.name).mem_iff).mpr (accepted.closed s (perm.mem_iff.mp member) dep needed)

theorem dependsOn_perm (perm : states'.Perm states) : DependsOn states' = DependsOn states := by
  funext x y
  simp only [DependsOn, perm.mem_iff]

theorem resolve_cases (it : Ranging) (accepted : Accepted states) (rep : Represents d states)
    (resolved : d.resolve it = .ok levels) :
    ∃ named, Finished states named ∧ named.flatten.length = states.length ∧
      levels = named.map fun level => level.filterMap d.get := by
  obtain ⟨named, finished, outcome⟩ := resolve_finished it accepted rep
  rw [outcome] at resolved
  split at resolved
  · contradiction
  · rename_i full
    cases resolved
    exact ⟨named, finished, not_not.mp full, rfl⟩

theorem resolve_perm (accepted : Accepted states) (rep : Represents d states)
    (rep' : Represents e states')
    (perm : states'.Perm states) (resolved : d.resolve it = .ok levels) :
    e.resolve it' = .ok levels := by
  have accepted' := accepted.perm perm
  obtain ⟨named, finished, full, rfl⟩ := resolve_cases it accepted rep resolved
  obtain ⟨named', finished', outcome⟩ := resolve_finished it' accepted' rep'
  have relation : (fun x y => y ∈ depsOf states' x) = fun x y => y ∈ depsOf states x := by
    funext x y
    rw [accepted'.mem_depsOf, accepted.mem_depsOf, dependsOn_perm perm]
  have full' : named'.flatten.length = states'.length := by
    rw [finished'.acyclic_iff accepted', dependsOn_perm perm, ← finished.acyclic_iff accepted, full]
  have nodes : ∀ x, x ∈ named.flatten ↔ x ∈ named'.flatten := by
    intro x
    have listed : x ∈ names states' ↔ x ∈ names states := (perm.map State.name).mem_iff
    constructor
    · intro member
      exact (finished'.complete_iff accepted').mp full' x (listed.mpr (finished.inside x member))
    · intro member
      exact (finished.complete_iff accepted).mp full x (listed.mp (finished'.inside x member))
  obtain rfl : named = named' :=
    finished.layering.eq_of_sorted (relation ▸ finished'.layering) nodes finished.filled
      finished'.filled finished.sorted finished'.sorted
  rw [outcome, if_neg (not_not.mpr full')]
  refine congrArg Except.ok (map_congr_left fun level member => ?_)
  refine filterMap_congr fun x inside => ?_
  have node := finished.inside x (mem_flatten.mpr ⟨level, member, inside⟩)
  obtain ⟨s, state, rfl⟩ := mem_map.mp node
  rw [rep.node s state, rep'.node s (perm.mem_iff.mpr state)]

theorem resolve_iff_acyclic (it : Ranging) (accepted : Accepted states)
    (rep : Represents d states) :
    (∃ levels, d.resolve it = .ok levels) ↔ Acyclic (DependsOn states) := by
  obtain ⟨named, finished, outcome⟩ := resolve_finished it accepted rep
  rw [← finished.acyclic_iff accepted, outcome]
  split <;> simp_all

theorem resolve_leveled (it : Ranging) (accepted : Accepted states) (rep : Represents d states)
    (resolved : d.resolve it = .ok levels) : Leveled states levels := by
  obtain ⟨named, finished, full, rfl⟩ := resolve_cases it accepted rep resolved
  exact finished.leveled accepted rep full

/-- For states with distinct names and known requisites, `Resolve` succeeds
exactly when the dependency relation is acyclic. The levels then hold every
state once, at the index of its longest dependency chain, sorted by name, and
they do not depend on the order of the input list. -/
theorem resolve_levels (it : Ranging) (states : List State)
    (distinct : (states.map State.name).Nodup)
    (known : ∀ s ∈ states, ∀ dep ∈ s.reqs.allDeps, dep ∈ states.map State.name) :
    ∃ d, newDAG it states = .ok d ∧
      ((∃ levels, d.resolve it = .ok levels) ↔ Acyclic (DependsOn states)) ∧
      ∀ levels, d.resolve it = .ok levels → Leveled states levels ∧
        ∀ (it' : Ranging) (states' : List State) (e : DAG), states'.Perm states →
          newDAG it' states' = .ok e → e.resolve it' = .ok levels := by
  have accepted : Accepted states := ⟨distinct, known⟩
  obtain ⟨d, built⟩ := newDAG_exists it accepted
  have rep := (newDAG_ok built).2
  refine ⟨d, built, resolve_iff_acyclic it accepted rep, ?_⟩
  intro levels resolved
  refine ⟨resolve_leveled it accepted rep resolved, ?_⟩
  intro it' states' e perm built'
  exact resolve_perm accepted rep (newDAG_ok built').2 perm resolved

def chainStates : List State :=
  [{ name := "c", reqs := { require := ["b"], watch := ["a", "b"] } }, { name := "a" },
    { name := "b", reqs := { onChanges := ["a"] } }]

theorem resolve_levels_chain : ∃ d, newDAG .listed chainStates = .ok d ∧
      ((∃ levels, d.resolve .listed = .ok levels) ↔ Acyclic (DependsOn chainStates)) ∧
      ∀ levels, d.resolve .listed = .ok levels → Leveled chainStates levels ∧
        ∀ (it' : Ranging) (states' : List State) (e : DAG), states'.Perm chainStates →
          newDAG it' states' = .ok e → e.resolve it' = .ok levels :=
  resolve_levels .listed chainStates (by decide) (by decide)

end Zester.States
