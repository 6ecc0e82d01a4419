import Zester.Lib.Layering
import Zester.Lib.Outcome
import Zester.States.Dag

/-! The graph that is built of a state set, and the loop that takes the states out of
it level by level. -/
namespace Zester.States
open Layering List AList

variable {d : DAG}

def names (states : List State) : List String := states.map State.name

/-- The edge list that a state set declares. -/
def declared (states : List State) : List (String × List String) :=
  states.map fun s => (s.name, s.reqs.allDeps)

/-- `x` is a state with a requisite of some kind on `y`. -/
def DependsOn (states : List State) (x y : String) : Prop :=
  ∃ s ∈ states, s.name = x ∧ y ∈ s.reqs.allDeps

/-- What `NewDAG` asks of its input. -/
structure Accepted (states : List State) : Prop where
  distinct : (names states).Nodup
  closed : ∀ s ∈ states, ∀ dep ∈ s.reqs.allDeps, dep ∈ names states

/-- The graph holds exactly the given states and their dependencies. -/
structure Represents (d : DAG) (states : List State) : Prop where
  keys : d.nodes.keys.Perm (names states)
  node : ∀ s ∈ states, d.get s.name = some s
  edges : d.edgeList.Perm (declared states)

theorem Represents.mem_nodes (rep : Represents d states) :
    name ∈ d.nodes ↔ name ∈ names states := by
  rw [AList.mem_keys, rep.keys.mem_iff]

theorem Represents.edge_keys (rep : Represents d states) :
    name ∈ d.edges ↔ name ∈ names states := by
  have same := (rep.edges.map Prod.fst).mem_iff (a := name)
  simp only [DAG.edgeList, declared, map_map] at same
  rw [AList.mem_keys]
  exact same

theorem represents_empty : Represents ⟨∅, ∅⟩ [] :=
  ⟨.refl _, by simp, .refl _⟩

section
variable (rep : Represents d done)
include rep

theorem addState_ok (added : d.addState s = .ok e) :
    s.name ∉ names done ∧ Represents e (done ++ [s]) := by
  unfold DAG.addState at added
  split at added
  · contradiction
  rename_i fresh
  cases added
  have new : s.name ∉ names done := fun h => fresh (rep.mem_nodes.mpr h)
  refine ⟨new, ?_, ?_, ?_⟩
  · have unused : s.name ∉ d.nodes.keys := fun h => fresh (mem_keys.mpr h)
    simp only [keys_insert, erase_of_not_mem unused, names, map_append, map_cons, map_nil]
    exact (rep.keys.cons _).trans (perm_append_singleton _ _).symm
  · intro t member
    rcases mem_append.mp member with old | same
    · have other : t.name ≠ s.name := fun h =>
        new (h ▸ mem_map_of_mem old)
      simpa only [DAG.get, lookup_insert_ne other] using rep.node t old
    · obtain rfl := mem_singleton.mp same
      simp only [DAG.get, lookup_insert]
  · have unused : s.name ∉ d.edges := fun h => new (rep.edge_keys.mp h)
    simp only [DAG.edgeList, entries_insert_of_notMem unused, map_cons, declared,
      map_append, map_nil]
    exact (rep.edges.cons _).trans (perm_append_singleton _ _).symm

theorem addState_fresh (new : s.name ∉ names done) : ∃ e, d.addState s = .ok e := by
  have fresh : s.name ∉ d.nodes := fun h => new (rep.mem_nodes.mp h)
  exact ⟨_, if_neg fresh⟩

theorem addStates_ok (unique : (names done).Nodup)
    (added : d.addStates states = .ok e) :
    (names (done ++ states)).Nodup ∧ Represents e (done ++ states) := by
  induction states generalizing d done with
  | nil =>
    cases added
    simpa only [append_nil] using And.intro unique rep
  | cons s states ih =>
    obtain ⟨middle, first, added⟩ := Except.bind_ok added
    obtain ⟨new, rep⟩ := addState_ok rep first
    have grown : (names (done ++ [s])).Nodup := by
      simp only [names, map_append, map_cons, map_nil]
      exact unique.append (by simp) (by simpa [names] using new)
    simpa only [append_assoc, singleton_append] using ih rep grown added

theorem addStates_fresh (unique : (names (done ++ states)).Nodup) :
    ∃ e, d.addStates states = .ok e := by
  induction states generalizing d done with
  | nil => exact ⟨d, rfl⟩
  | cons s states ih =>
    have new : s.name ∉ names done := by
      intro old
      simp only [names, map_append, map_cons] at unique
      exact (nodup_append.mp unique).2.2 _ old _ mem_cons_self rfl
    obtain ⟨middle, first⟩ := addState_fresh rep new
    obtain ⟨e, rest⟩ := ih (addState_ok rep first).2
      (by simpa only [append_assoc, singleton_append] using unique)
    exact ⟨e, by simpa only [DAG.addStates, first, bind, Except.bind] using rest⟩

end

theorem unknownDep_none (edges : List (String × List String)) :
    d.unknownDep edges = none ↔ ∀ edge ∈ edges, ∀ dep ∈ edge.2, dep ∈ d.nodes := by
  induction edges with
  | nil => simp [DAG.unknownDep]
  | cons edge edges ih =>
    obtain ⟨name, deps⟩ := edge
    simp only [DAG.unknownDep, forall_mem_cons]
    cases found : deps.find? (fun dep => dep ∉ d.nodes) with
    | some dep =>
      have missing := find?_some found
      have member := mem_of_find?_eq_some found
      simp only [decide_not, Bool.not_eq_eq_eq_not, Bool.not_true,
        decide_eq_false_iff_not] at missing
      simp only [reduceCtorEq, false_iff, not_and]
      exact fun known => absurd (known dep member) missing
    | none =>
      have known : ∀ dep ∈ deps, dep ∈ d.nodes := by simpa using found
      simp only [ih, and_iff_right known]

/-- `NewDAG` accepts a state set exactly when names are distinct and every
requisite names a listed state; the graph then holds just these states. -/
theorem newDAG_ok (built : newDAG it states = .ok d) : Accepted states ∧ Represents d states := by
  obtain ⟨e, added, built⟩ := Except.bind_ok built
  obtain ⟨unique, rep⟩ := addStates_ok represents_empty (by simp [names]) added
  simp only [nil_append] at unique rep
  split at built
  · contradiction
  rename_i complete
  cases built
  refine ⟨⟨unique, ?_⟩, rep⟩
  intro s member dep needed
  have edge : (s.name, s.reqs.allDeps) ∈ it.order [0] d.edgeList := by
    rw [Ranging.mem_order, rep.edges.mem_iff]
    exact mem_map_of_mem member
  exact rep.mem_nodes.mp ((unknownDep_none _).mp complete _ edge dep needed)

theorem newDAG_exists (it : Ranging) (accepted : Accepted states) :
    ∃ d, newDAG it states = .ok d := by
  have unique : (names ([] ++ states)).Nodup := accepted.distinct
  obtain ⟨d, added⟩ := addStates_fresh represents_empty unique
  obtain ⟨_, rep⟩ := addStates_ok represents_empty (by simp [names]) added
  simp only [nil_append] at rep
  have complete : d.unknownDep (it.order [0] d.edgeList) = none := by
    rw [unknownDep_none]
    intro edge member dep needed
    rw [Ranging.mem_order, rep.edges.mem_iff, declared, mem_map] at member
    obtain ⟨s, listed, rfl⟩ := member
    exact rep.mem_nodes.mpr (accepted.closed s listed dep needed)
  exact ⟨d, by simp only [newDAG, added, complete, bind, Except.bind]⟩

namespace DAG

section
variable {nodes : List String} {dependents : String → List String}

/-- Between two turns of the loop, `p.levels` are finished: a node's in-degree
counts its dependencies that are not, and the queue holds the nodes that wait
for nothing else. -/
structure LoopInv (nodes : List String) (deps : String → List String) (p : Progress) : Prop where
  inside : ∀ x ∈ p.levels.flatten, x ∈ nodes
  unique : (p.levels.flatten ++ p.queue).Nodup
  degree : ∀ x, p.inDegree x = (deps x).countP (fun y => y ∉ p.levels.flatten)
  ready : ∀ x, x ∈ p.queue ↔ x ∈ nodes ∧ x ∉ p.levels.flatten ∧ ∀ y ∈ deps x, y ∈ p.levels.flatten
  sorted : ∀ level ∈ p.levels ++ [p.queue], level.Pairwise (· ≤ ·)
  filled : ∀ level ∈ p.levels, level ≠ []
  count : p.processed = p.levels.flatten.length
  layering : IsLayering (fun x y => y ∈ deps x) (p.levels ++ [p.queue])

/-- The edges into a node and the reverse edges out of its dependencies are the
same edges, each listed once. -/
structure Reverses (nodes : List String) (deps dependents : String → List String) : Prop where
  back : ∀ q x, (dependents q).count x = if q ∈ deps x then 1 else 0
  once : ∀ x, (deps x).Nodup
  only : ∀ x y, y ∈ deps x → x ∈ nodes

theorem countP_mem_comm {xs ys : List String} (first : xs.Nodup) (second : ys.Nodup) :
    xs.countP (· ∈ ys) = ys.countP (· ∈ xs) := by
  rw [countP_eq_length_filter, countP_eq_length_filter]
  apply Perm.length_eq
  rw [perm_ext_iff_of_nodup (first.filter _) (second.filter _)]
  intro x
  simp [and_comm]

theorem count_released (rev : Reverses nodes deps dependents) (queue : List String) (x : String) :
    (queue.flatMap dependents).count x = queue.countP (· ∈ deps x) := by
  induction queue with
  | nil => simp
  | cons q queue ih =>
    rw [flatMap_cons, count_append, ih, rev.back, countP_cons, Nat.add_comm]
    simp

theorem waiting_split (finished queue : List String) (disjoint : ∀ y ∈ queue, y ∉ finished)
    (ys : List String) :
    ys.countP (fun y => y ∉ finished) =
      ys.countP (· ∈ queue) + ys.countP (fun y => y ∉ finished ++ queue) := by
  induction ys with
  | nil => rfl
  | cons y ys ih =>
    simp only [countP_cons, ih, mem_append, not_or, decide_eq_true_eq]
    by_cases queued : y ∈ queue
    · simp only [queued, disjoint y queued, not_false_eq_true, not_true_eq_false, and_false,
        if_true, if_false]
      omega
    · by_cases earlier : y ∈ finished
      · simp [queued, earlier]
      · simp only [queued, earlier, not_false_eq_true, and_self, if_true, if_false]
        omega

theorem LoopInv.finished_closed (inv : LoopInv nodes deps p) (member : x ∈ p.levels.flatten)
    (edge : y ∈ deps x) : y ∈ p.levels.flatten := by
  obtain ⟨i, inside⟩ := mem_flatten_iff_layer.mp member
  obtain ⟨j, lower, found⟩ := inv.layering.below (mem_layer_append.mpr (.inl inside)) edge
  rcases mem_layer_append.mp found with listed | ⟨top, _⟩
  · exact mem_flatten_iff_layer.mpr ⟨j, listed⟩
  · rw [layer, getD_eq_default _ _ (by omega)] at inside
    contradiction

section
variable (rev : Reverses nodes deps dependents) (inv : LoopInv nodes deps p)
include rev inv

theorem LoopInv.split (x : String) :
    p.inDegree x = (p.queue.flatMap dependents).count x +
      (deps x).countP (fun y => y ∉ p.levels.flatten ++ p.queue) := by
  rw [inv.degree, count_released rev, countP_mem_comm (nodup_append.mp inv.unique).2.1 (rev.once x)]
  exact_mod_cast waiting_split _ _ (fun y queued => ((inv.ready y).mp queued).2.1) _

/-- The nodes a turn releases: all their dependencies are finished or in the
queue, and one of them is in the queue. -/
theorem mem_released (x : String) :
    x ∈ (Tally.countdown p.inDegree (p.queue.flatMap dependents)).2 ↔
      (∃ y ∈ deps x, y ∈ p.queue) ∧ ∀ y ∈ deps x, y ∈ p.levels.flatten ++ p.queue := by
  have none_left : (deps x).countP (fun y => y ∉ p.levels.flatten ++ p.queue) = 0 ↔
      ∀ y ∈ deps x, y ∈ p.levels.flatten ++ p.queue := by
    simp only [countP_eq_zero, decide_eq_true_eq, not_not]
  have some_queued : 0 < p.queue.countP (· ∈ deps x) ↔ ∃ y ∈ deps x, y ∈ p.queue := by
    simp [countP_pos_iff, and_comm]
  rw [Tally.mem_countdown, LoopInv.split rev inv, count_released rev, ← none_left, ← some_queued]
  omega

theorem advance_inv (nonempty : p.queue ≠ []) :
    LoopInv nodes deps (advance dependents p) := by
  have released := mem_released rev inv
  have flat : (p.levels ++ [p.queue]).flatten = p.levels.flatten ++ p.queue := by simp
  have mem_next : ∀ x, x ∈ (advance dependents p).queue ↔
      x ∈ (Tally.countdown p.inDegree (p.queue.flatMap dependents)).2 := fun x => by
    simp only [advance, mem_insertionSort]
  have late : ∀ x ∈ (advance dependents p).queue, x ∉ p.levels.flatten ++ p.queue := by
    intro x next old
    obtain ⟨⟨y, edge, queued⟩, _⟩ := (released x).mp ((mem_next x).mp next)
    have finished : y ∈ p.levels.flatten := by
      rcases mem_append.mp old with earlier | now
      · exact inv.finished_closed earlier edge
      · exact ((inv.ready x).mp now).2.2 y edge
    exact ((inv.ready y).mp queued).2.1 finished
  constructor
  · intro x member
    simp only [advance, flat, mem_append] at member
    rcases member with earlier | queued
    · exact inv.inside x earlier
    · exact ((inv.ready x).mp queued).1
  · simp only [advance, flat]
    refine inv.unique.append ?_ ?_
    · exact (perm_insertionSort _ _).nodup_iff.mpr (Tally.countdown_nodup _ _)
    · exact fun x old next => late x next old
  · intro x
    simp only [advance, Tally.countdown_counts, LoopInv.split rev inv, flat]
    omega
  · intro x
    rw [mem_next, released]
    simp only [advance, flat]
    constructor
    · rintro ⟨⟨y, edge, queued⟩, all⟩
      exact ⟨rev.only x y edge,
        late x ((mem_next x).mpr ((released x).mpr ⟨⟨y, edge, queued⟩, all⟩)), all⟩
    · rintro ⟨node, fresh, all⟩
      refine ⟨?_, all⟩
      by_contra noneQueued
      push Not at noneQueued
      refine fresh (mem_append.mpr (.inr ((inv.ready x).mpr ⟨node, ?_, ?_⟩)))
      · exact fun earlier => fresh (mem_append.mpr (.inl earlier))
      · intro y edge
        exact (mem_append.mp (all y edge)).resolve_right (noneQueued y edge)
  · intro level member
    simp only [advance] at member
    rcases mem_append.mp member with old | new
    · exact inv.sorted level old
    · obtain rfl := mem_singleton.mp new
      exact pairwise_insertionSort _ _
  · intro level member
    simp only [advance] at member
    rcases mem_append.mp member with old | new
    · exact inv.filled level old
    · obtain rfl := mem_singleton.mp new
      exact nonempty
  · simp only [advance, flat, length_append, inv.count]
  · refine IsLayering.append inv.layering ?_ ?_
    · intro x next y edge
      exact mem_append.mp (((released x).mp ((mem_next x).mp next)).2 y edge)
    · intro x next
      obtain ⟨⟨y, edge, queued⟩, _⟩ := (released x).mp ((mem_next x).mp next)
      exact ⟨y, queued, edge⟩

theorem drain_inv (fuel : Nat) : LoopInv nodes deps (drain dependents fuel p) := by
  induction fuel generalizing p with
  | zero => exact inv
  | succ fuel ih =>
    simp only [drain]
    split
    · exact inv
    · rename_i nonempty
      exact ih (advance_inv rev inv nonempty)

omit rev in
theorem LoopInv.processed_le :
    p.levels.flatten.length + p.queue.length ≤ nodes.length := by
  rw [← length_append]
  refine inv.unique.subperm ?_ |>.length_le
  intro x member
  rcases mem_append.mp member with earlier | queued
  · exact inv.inside x earlier
  · exact ((inv.ready x).mp queued).1

theorem drain_queue (fuel : Nat)
    (enough : nodes.length ≤ fuel + p.levels.flatten.length) :
    (drain dependents fuel p).queue = [] := by
  induction fuel generalizing p with
  | zero =>
    have bound := inv.processed_le
    have none_left : p.queue.length = 0 := by omega
    exact length_eq_zero_iff.mp none_left
  | succ fuel ih =>
    simp only [drain]
    split
    · assumption
    rename_i nonempty
    refine ih (advance_inv rev inv nonempty) ?_
    have positive := length_pos_iff.mpr nonempty
    simp only [advance, flatten_append, length_append, flatten_cons, flatten_nil, append_nil]
    omega

end

end
end DAG

end Zester.States
