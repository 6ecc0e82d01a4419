import Mathlib.Data.List.Induction
import Mathlib.Data.List.Nodup
import Mathlib.Data.List.Perm.Subperm
import Mathlib.Order.WellFounded

/-! Depth-first search of a graph whose nodes name their successors when they are looked up. The
nodes on the way to the one that is visited are kept, so that a way back to one of them is noticed
as a cycle. -/
namespace Search
open Relation
open List hiding after all

inductive Failure (ν ε : Type) where
  | cycle (chain : List ν)
  | node (error : ε)
  | exhausted

section
variable (succ : ν → Except ε (List ν))

def Edge (x y : ν) : Prop := ∃ next, succ x = .ok next ∧ y ∈ next

def Reaches : ν → ν → Prop := ReflTransGen (Edge succ)

/-- There is no way without an end from the node. -/
def Grounded (x : ν) : Prop := Acc (fun y x => Edge succ x y) x

end

section
variable [DecidableEq ν] (succ : ν → Except ε (List ν))

/-- A visit of a node, with the nodes on the way to it and those seen so far, in the order in which
they were entered. -/
def visit : Nat → List ν → List ν → ν → Except (Failure ν ε) (List ν)
  | 0, _, _, _ => .error .exhausted
  | fuel + 1, stack, seen, x =>
    if x ∈ stack then
      .error (.cycle (stack ++ [x]))
    else if x ∈ seen then
      .ok seen
    else
      match succ x with
      | .error e => .error (.node e)
      | .ok next => next.foldlM (visit fuel (stack ++ [x])) (seen ++ [x])

/-- The nodes from which the search starts are visited one after the other. -/
def search (fuel : Nat) (roots : List ν) : Except (Failure ν ε) (List ν) :=
  roots.foldlM (visit succ fuel []) []

end

theorem Grounded.acyclic (grounded : Grounded succ x) : ¬ TransGen (Edge succ) x x := by
  induction grounded with
  | intro x _ ih =>
    intro loop
    obtain ⟨y, first, back⟩ := TransGen.head'_iff.mp loop
    exact ih y first (TransGen.tail' back first)

section
variable {succ : ν → Except ε (List ν)}

/-- What the visits of the targets add to the nodes that were seen before. -/
structure Explored (succ : ν → Except ε (List ν)) (seen targets new : List ν) : Prop where
  fresh : ∀ y ∈ new, y ∉ seen
  nodup : new.Nodup
  reached : ∀ y ∈ new, ∃ t ∈ targets, Reaches succ t y
  covered : ∀ t ∈ targets, t ∈ seen ++ new
  closed : ∀ y ∈ new, ∀ z, Edge succ y z → z ∈ seen ++ new
  preceded :
    ∀ before y after, new = before ++ y :: after → y ∈ targets ∨ ∃ z ∈ before, Edge succ z y
  grounded : ∀ y ∈ targets ++ new, Grounded succ y

/-- Why the visits of the targets fail. -/
def Explains (succ : ν → Except ε (List ν)) (targets : List ν) : Failure ν ε → Prop
  | .cycle _ => ∃ t ∈ targets, ∃ z, Reaches succ t z ∧ TransGen (Edge succ) z z
  | .node e => ∃ t ∈ targets, ∃ z, Reaches succ t z ∧ succ z = .error e
  | .exhausted => False

def Outcome (succ : ν → Except ε (List ν)) (seen targets : List ν) :
    Except (Failure ν ε) (List ν) → Prop
  | .ok all => ∃ new, all = seen ++ new ∧ Explored succ seen targets new
  | .error failure => Explains succ targets failure

/-- The nodes that were seen are on the way, or all ways from them have been followed to their
end. -/
def Settled (succ : ν → Except ε (List ν)) (stack seen : List ν) : Prop :=
  ∀ z ∈ seen, z ∈ stack ∨ Grounded succ z

theorem Explored.nil (seen : List ν) : Explored succ seen [] [] :=
  ⟨by simp, nodup_nil, by simp, by simp, by simp, by simp, by simp⟩

theorem Explored.again (member : x ∈ seen) (grounded : Grounded succ x) :
    Explored succ seen [x] [] :=
  ⟨by simp, nodup_nil, by simp, by simpa using member, by simp, by simp, by simpa using grounded⟩

theorem Explored.trans (first : Explored succ seen targets new)
    (second : Explored succ (seen ++ new) more later) :
    Explored succ seen (targets ++ more) (new ++ later) where
  fresh := forall_mem_append.mpr
    ⟨first.fresh, fun y late before => second.fresh y late (mem_append_left _ before)⟩
  nodup := first.nodup.append second.nodup fun y early late =>
    second.fresh y late (mem_append_right _ early)
  reached y member := by
    obtain early | late := mem_append.mp member
    · obtain ⟨t, among, way⟩ := first.reached y early
      exact ⟨t, mem_append_left _ among, way⟩
    · obtain ⟨t, among, way⟩ := second.reached y late
      exact ⟨t, mem_append_right _ among, way⟩
  covered := by
    rw [← append_assoc]
    exact forall_mem_append.mpr
      ⟨fun t early => mem_append_left _ (first.covered t early), second.covered⟩
  closed := by
    rw [← append_assoc]
    exact forall_mem_append.mpr
      ⟨fun y early z edge => mem_append_left _ (first.closed y early z edge), second.closed⟩
  preceded before y after split := by
    obtain ⟨rest, early, late⟩ | ⟨rest, early, late⟩ := append_eq_append_iff.mp split
    · obtain target | ⟨z, inside, edge⟩ := second.preceded rest y after late
      · exact .inl (mem_append_right _ target)
      · exact .inr ⟨z, early ▸ mem_append_right _ inside, edge⟩
    · cases rest with
      | nil =>
        obtain target | ⟨z, inside, edge⟩ := second.preceded [] y after (by simpa using late.symm)
        · exact .inl (mem_append_right _ target)
        · cases inside
      | cons w rest =>
        cases late
        obtain target | found := first.preceded before y rest early
        · exact .inl (mem_append_left _ target)
        · exact .inr found
  grounded := by
    have early := forall_mem_append.mp first.grounded
    have late := forall_mem_append.mp second.grounded
    simp only [forall_mem_append]
    exact ⟨⟨early.1, late.1⟩, early.2, late.2⟩

theorem Explored.enter (fresh : x ∉ seen) (found : succ x = .ok ahead)
    (below : Explored succ (seen ++ [x]) ahead rest) : Explored succ seen [x] (x :: rest) := by
  have edge : ∀ {z}, z ∈ ahead → Edge succ x z := fun inside => ⟨ahead, found, inside⟩
  have whole : seen ++ x :: rest = seen ++ [x] ++ rest := by simp
  have base : Grounded succ x := by
    refine ⟨x, fun z ⟨others, again, inside⟩ => below.grounded z (mem_append_left _ ?_)⟩
    rw [found] at again
    exact Except.ok.inj again ▸ inside
  refine ⟨?_, ?_, ?_, by simp, ?_, ?_, ?_⟩
  · exact forall_mem_cons.mpr
      ⟨fresh, fun y later before => below.fresh y later (mem_append_left _ before)⟩
  · exact nodup_cons.mpr ⟨fun inside => below.fresh x inside (by simp), below.nodup⟩
  · intro y member
    refine ⟨x, mem_singleton_self x, ?_⟩
    obtain rfl | later := mem_cons.mp member
    · exact .refl
    · obtain ⟨t, inside, way⟩ := below.reached y later
      exact .head (edge inside) way
  · intro y member z ahead
    rw [whole]
    obtain rfl | later := mem_cons.mp member
    · obtain ⟨others, again, inside⟩ := ahead
      rw [found] at again
      exact below.covered z (Except.ok.inj again ▸ inside)
    · exact below.closed y later z ahead
  · intro before y after split
    cases before with
    | nil =>
      cases split
      exact .inl (mem_singleton_self x)
    | cons first before =>
      obtain ⟨rfl, behind⟩ := cons.inj split
      obtain target | ⟨z, inside, step⟩ := below.preceded before y after behind
      · exact .inr ⟨x, mem_cons_self, edge target⟩
      · exact .inr ⟨z, mem_cons_of_mem _ inside, step⟩
  · intro y member
    simp only [cons_append, nil_append, mem_cons] at member
    obtain rfl | rfl | later := member
    · exact base
    · exact base
    · exact below.grounded y (mem_append_right _ later)

theorem Settled.extend (settled : Settled succ stack seen)
    (explored : Explored succ seen targets new) : Settled succ stack (seen ++ new) :=
  forall_mem_append.mpr ⟨settled, fun z now => .inr (explored.grounded z (mem_append_right _ now))⟩

theorem Explains.weaken (sub : ∀ t ∈ few, ∃ s ∈ many, Reaches succ s t) {failure : Failure ν ε}
    (explained : Explains succ few failure) : Explains succ many failure := by
  cases failure with
  | cycle chain =>
    obtain ⟨t, inside, z, way, loop⟩ := explained
    obtain ⟨s, among, front⟩ := sub t inside
    exact ⟨s, among, z, front.trans way, loop⟩
  | node e =>
    obtain ⟨t, inside, z, way, broken⟩ := explained
    obtain ⟨s, among, front⟩ := sub t inside
    exact ⟨s, among, z, front.trans way, broken⟩
  | exhausted => exact explained

theorem foldlM_outcome (items : List ν)
    (step : ∀ x ∈ items, ∀ seen, Settled succ stack seen → Outcome succ seen [x] (f seen x))
    (seen : List ν)
    (settled : Settled succ stack seen) : Outcome succ seen items (items.foldlM f seen) := by
  induction items generalizing seen with
  | nil => exact ⟨[], (append_nil seen).symm, .nil seen⟩
  | cons x items ih =>
    obtain ⟨here, later⟩ := forall_mem_cons.mp step
    have first := here seen settled
    rw [foldlM_cons]
    cases result : f seen x with
    | error failure =>
      rw [result] at first
      exact first.weaken fun t inside => ⟨t, by simp [mem_singleton.mp inside], .refl⟩
    | ok middle =>
      rw [result] at first
      obtain ⟨new, rfl, explored⟩ := first
      have rest := ih later (seen ++ new) (settled.extend explored)
      change Outcome succ seen (x :: items) (items.foldlM f (seen ++ new))
      cases outcome : items.foldlM f (seen ++ new) with
      | error failure =>
        rw [outcome] at rest
        exact rest.weaken fun t inside => ⟨t, mem_cons_of_mem _ inside, .refl⟩
      | ok all =>
        rw [outcome] at rest
        obtain ⟨more, rfl, following⟩ := rest
        exact ⟨new ++ more, append_assoc _ _ _, explored.trans following⟩

/-- The nodes that a search lists. -/
structure Listed (succ : ν → Except ε (List ν)) (roots all : List ν) : Prop where
  once : all.Nodup
  reached : ∀ y, y ∈ all ↔ ∃ r ∈ roots, Reaches succ r y
  /-- A node comes after one with an edge to it, or it is a root and only what earlier roots reach
  comes before it. -/
  preceded : ∀ before y after, all = before ++ y :: after → (∃ z ∈ before, Edge succ z y) ∨
    ∃ earlier later, roots = earlier ++ y :: later ∧ ∀ z, z ∈ before ↔
      ∃ r ∈ earlier, Reaches succ r z

theorem Explored.head (explored : Explored succ seen [x] (y :: rest)) : y = x := by
  obtain target | ⟨z, inside, -⟩ := explored.preceded [] y rest rfl
  · exact mem_singleton.mp target
  · cases inside

theorem Explored.preceded_or_first (explored : Explored succ seen [x] new)
    (split : new = before ++ y :: after) : before = [] ∧ y = x ∨ ∃ z ∈ before, Edge succ z y := by
  refine (explored.preceded before y after split).imp_left fun target => ?_
  obtain rfl := mem_singleton.mp target
  subst split
  cases before with
  | nil => exact ⟨rfl, rfl⟩
  | cons first before =>
    obtain rfl : first = y := explored.head
    exact absurd (by simp) (nodup_cons.mp explored.nodup).1

theorem Listed.closed (listed : Listed succ roots all) (member : y ∈ all) (edge : Edge succ y z) :
    z ∈ all := by
  obtain ⟨r, among, way⟩ := (listed.reached y).mp member
  exact (listed.reached z).mpr ⟨r, among, way.tail edge⟩

theorem Listed.nil : Listed succ [] [] :=
  ⟨nodup_nil, by simp, by simp⟩

theorem Listed.snoc (listed : Listed succ roots all) (explored : Explored succ all [x] new) :
    Listed succ (roots ++ [x]) (all ++ new) := by
  have closed : ∀ y ∈ all ++ new, ∀ z, Edge succ y z → z ∈ all ++ new := forall_mem_append.mpr
    ⟨fun _ before _ edge => mem_append_left _ (listed.closed before edge), explored.closed⟩
  refine ⟨listed.once.append explored.nodup fun y before now => explored.fresh y now before,
    fun y => ?_, ?_⟩
  · constructor
    · intro member
      obtain before | now := mem_append.mp member
      · obtain ⟨r, among, way⟩ := (listed.reached y).mp before
        exact ⟨r, mem_append_left _ among, way⟩
      · obtain ⟨r, among, way⟩ := explored.reached y now
        exact ⟨r, mem_append_right _ among, way⟩
    · rintro ⟨r, among, way⟩
      obtain early | last := mem_append.mp among
      · exact mem_append_left _ ((listed.reached y).mpr ⟨r, early, way⟩)
      · induction way with
        | refl => exact explored.covered r last
        | tail _ edge ih => exact closed _ ih _ edge
  · intro before y after split
    obtain ⟨rest, early, late⟩ | ⟨rest, early, late⟩ := append_eq_append_iff.mp split
    · obtain ⟨rfl, rfl⟩ | ⟨z, inside, edge⟩ := explored.preceded_or_first late
      · exact .inr ⟨roots, [], rfl, fun z => by rw [early, append_nil]; exact listed.reached z⟩
      · exact .inl ⟨z, early ▸ mem_append_right _ inside, edge⟩
    · cases rest with
      | nil =>
        obtain ⟨-, rfl⟩ | ⟨z, inside, -⟩ :=
          explored.preceded_or_first (by simpa using late.symm : new = [] ++ y :: after)
        · exact .inr ⟨roots, [], rfl, fun z => by rw [← listed.reached, early, append_nil]⟩
        · cases inside
      | cons w rest =>
        cases late
        refine (listed.preceded before y rest early).imp_right ?_
        rintro ⟨earlier, later, rfl, exactly⟩
        exact ⟨earlier, later ++ [x], by simp, exactly⟩

section
variable [DecidableEq ν] {nodes : List ν} (bounded : ∀ y ∈ nodes, ∀ z, Edge succ y z → z ∈ nodes)
include bounded

/-- The way to a node consists of different nodes of the graph, so its length bounds the depth of
the search. -/
theorem visit_outcome (fuel : Nat) (stack seen : List ν) (x : ν) (known : x ∈ nodes)
    (simple : stack.Nodup)
    (inside : ∀ s ∈ stack, s ∈ nodes) (enough : nodes.length < fuel + stack.length)
    (leads : ∀ s ∈ stack, TransGen (Edge succ) s x) (settled : Settled succ stack seen) :
    Outcome succ seen [x] (visit succ fuel stack seen x) := by
  induction fuel generalizing stack seen x with
  | zero =>
    have short := (subperm_of_subset simple inside).length_le
    omega
  | succ fuel ih =>
    rw [visit]
    split
    · rename_i onWay
      exact ⟨x, mem_singleton_self x, x, .refl, leads x onWay⟩
    rename_i offWay
    split
    · rename_i member
      exact ⟨[], (append_nil seen).symm, .again member ((settled x member).resolve_left offWay)⟩
    rename_i fresh
    cases found : succ x with
    | error e => exact ⟨x, mem_singleton_self x, x, .refl, found⟩
    | ok next =>
      have edge : ∀ {z}, z ∈ next → Edge succ x z := fun among => ⟨next, found, among⟩
      have entered : Settled succ (stack ++ [x]) (seen ++ [x]) := by
        intro z member
        obtain before | last := mem_append.mp member
        · exact (settled z before).imp_left (mem_append_left _)
        · exact .inl (mem_append_right _ last)
      have below : Outcome succ
          (seen ++ [x]) next (next.foldlM (visit succ fuel (stack ++ [x])) (seen ++ [x])) := by
        refine foldlM_outcome next (fun z among seen settled => ?_) _ entered
        refine ih (stack ++ [x]) seen z (bounded x known z (edge among)) ?_ ?_ ?_ ?_ settled
        · exact simple.append (nodup_singleton x) (by simpa using offWay)
        · exact forall_mem_append.mpr ⟨inside, by simpa using known⟩
        · rw [length_append, length_singleton]
          omega
        · exact forall_mem_append.mpr
            ⟨fun s before => (leads s before).tail (edge among),
              by simpa using .single (edge among)⟩
      dsimp only
      cases outcome : next.foldlM (visit succ fuel (stack ++ [x])) (seen ++ [x]) with
      | error failure =>
        rw [outcome] at below
        exact below.weaken fun t among => ⟨x, mem_singleton_self x, .single (edge among)⟩
      | ok all =>
        rw [outcome] at below
        obtain ⟨rest, rfl, explored⟩ := below
        exact ⟨x :: rest, by simp, .enter fresh found explored⟩

/-- A search with enough fuel lists what the roots reach, from which there is no cycle, or it fails
for a reason. -/
theorem search_outcome (enough : nodes.length < fuel) (roots : List ν)
    (known : ∀ r ∈ roots, r ∈ nodes) : match search succ fuel roots with
    | .ok all => Listed succ roots all ∧ ∀ y ∈ all, Grounded succ y
    | .error failure => Explains succ roots failure := by
  induction roots using reverseRecOn with
  | nil => exact ⟨.nil, by simp⟩
  | append_singleton roots r ih =>
    have earlier := ih fun s among => known s (mem_append_left _ among)
    rw [search, foldlM_append, ← search]
    cases result : search succ fuel roots with
    | error failure =>
      rw [result] at earlier
      exact earlier.weaken fun t among => ⟨t, mem_append_left _ among, .refl⟩
    | ok all =>
      rw [result] at earlier
      obtain ⟨listed, grounded⟩ := earlier
      have last := visit_outcome bounded fuel [] all r (known r (by simp)) nodup_nil (by simp)
        (by simpa using enough)
        (by simp) fun z member => .inr (grounded z member)
      simp only [bind, Except.bind, foldlM_cons, foldlM_nil]
      cases outcome : visit succ fuel [] all r with
      | error failure =>
        rw [outcome] at last
        exact last.weaken fun t among => ⟨t, mem_append_right _ among, .refl⟩
      | ok final =>
        rw [outcome] at last
        obtain ⟨new, rfl, explored⟩ := last
        exact ⟨listed.snoc explored, forall_mem_append.mpr
          ⟨grounded, fun y now => explored.grounded y (mem_append_right _ now)⟩⟩

end
end
end Search
