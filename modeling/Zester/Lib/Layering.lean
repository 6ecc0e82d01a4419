import Mathlib.Data.List.GetD
import Mathlib.Data.Set.Finite.List

/-! Layers of a dependency relation. A layering puts every dependency of an
element into an earlier layer and one of them into the layer just before, so
the index of an element's layer is the length of its longest dependency chain. -/
namespace Layering
open List
variable {dep : α → α → Prop}

/-- A chain of `n` dependency edges starts at `x`. -/
def ChainFrom (dep : α → α → Prop) (x : α) (n : Nat) : Prop :=
  ∃ rest : List α, rest.length = n ∧ (x :: rest).IsChain dep

/-- The longest dependency chain of `x` has `n` edges. -/
def Height (dep : α → α → Prop) (x : α) (n : Nat) : Prop :=
  IsGreatest {m | ChainFrom dep x m} n

def Acyclic (dep : α → α → Prop) : Prop := ∀ x, ¬ Relation.TransGen dep x x

def layer (layers : List (List α)) (i : Nat) : List α := layers.getD i []

structure IsLayering (dep : α → α → Prop) (layers : List (List α)) : Prop where
  below : ∀ {i x y}, x ∈ layer layers i → dep x y → ∃ j < i, y ∈ layer layers j
  near : ∀ {i x}, x ∈ layer layers (i + 1) → ∃ y ∈ layer layers i, dep x y

theorem chainFrom_zero (x : α) : ChainFrom dep x 0 := ⟨[], rfl, .singleton x⟩

theorem chainFrom_succ : ChainFrom dep x (n + 1) ↔ ∃ y, dep x y ∧ ChainFrom dep y n := by
  constructor
  · rintro ⟨rest, length, chain⟩
    cases rest with
    | nil => simp at length
    | cons y rest =>
      obtain ⟨edge, chain⟩ := isChain_cons_cons.mp chain
      exact ⟨y, edge, rest, by simpa using length, chain⟩
  · rintro ⟨y, edge, rest, length, chain⟩
    exact ⟨y :: rest, by simpa using length, .cons_cons edge chain⟩

theorem Height.unique (first : Height dep x m) (second : Height dep x n) : m = n :=
  IsGreatest.unique first second

namespace IsLayering

section
variable (layering : IsLayering dep layers)
include layering

theorem chain_bound (member : x ∈ layer layers i) (chain : ChainFrom dep x n) :
    n ≤ i := by
  induction n generalizing i x with
  | zero => exact Nat.zero_le i
  | succ n ih =>
    obtain ⟨y, edge, chain⟩ := chainFrom_succ.mp chain
    obtain ⟨j, lower, found⟩ := layering.below member edge
    have bound := ih found chain
    omega

theorem chain_exists (member : x ∈ layer layers i) : ChainFrom dep x i := by
  induction i generalizing x with
  | zero => exact chainFrom_zero x
  | succ i ih =>
    obtain ⟨y, found, edge⟩ := layering.near member
    exact chainFrom_succ.mpr ⟨y, edge, ih found⟩

/-- The layer index is the longest chain, whatever else the layering chose. -/
theorem height (member : x ∈ layer layers i) : Height dep x i :=
  ⟨layering.chain_exists member, fun _ chain => layering.chain_bound member chain⟩

theorem index_unique (first : x ∈ layer layers i) (second : x ∈ layer layers j) :
    i = j :=
  (layering.height first).unique (layering.height second)

theorem path_below (member : x ∈ layer layers i)
    (path : Relation.TransGen dep x y) : ∃ j < i, y ∈ layer layers j := by
  induction path with
  | single edge => exact layering.below member edge
  | tail _ edge ih =>
    obtain ⟨j, lower, found⟩ := ih
    obtain ⟨k, lowest, target⟩ := layering.below found edge
    exact ⟨k, by omega, target⟩

theorem acyclic (covered : ∀ {x y}, dep x y → ∃ i, x ∈ layer layers i) : Acyclic dep := by
  intro x loop
  obtain ⟨y, edge, _⟩ := Relation.TransGen.head'_iff.mp loop
  obtain ⟨i, member⟩ := covered edge
  obtain ⟨j, lower, again⟩ := layering.path_below member loop
  have same := layering.index_unique member again
  omega

end

end IsLayering

theorem mem_layer_append :
    x ∈ layer (lower ++ [top]) i ↔ x ∈ layer lower i ∨ i = lower.length ∧ x ∈ top := by
  unfold layer
  rcases Nat.lt_trichotomy i lower.length with inside | atTop | outside
  · rw [getD_append _ _ _ _ inside]
    simp [Nat.ne_of_lt inside]
  · subst atTop
    simp
  · rw [getD_append_right _ _ _ _ outside.le,
      getD_eq_default _ _ (by simp; omega), getD_eq_default _ _ outside.le]
    simp [Nat.ne_of_gt outside]

theorem mem_flatten_iff_layer : x ∈ layers.flatten ↔ ∃ i, x ∈ layer layers i := by
  constructor
  · intro member
    obtain ⟨level, listed, inside⟩ := mem_flatten.mp member
    obtain ⟨i, bound, rfl⟩ := mem_iff_getElem.mp listed
    exact ⟨i, by rwa [layer, getD_eq_getElem _ _ bound]⟩
  · rintro ⟨i, inside⟩
    by_cases bound : i < layers.length
    · rw [layer, getD_eq_getElem _ _ bound] at inside
      exact mem_flatten.mpr ⟨_, getElem_mem bound, inside⟩
    · rw [layer, getD_eq_default _ _ (Nat.le_of_not_lt bound)] at inside
      contradiction

theorem IsLayering.bottom (free : ∀ x ∈ base, ∀ y, ¬ dep x y) : IsLayering dep [base] := by
  have only : ∀ {i x}, x ∈ layer [base] i → i = 0 ∧ x ∈ base := by
    intro i x member
    simpa [layer] using (mem_layer_append.mp (nil_append [base] ▸ member) :
      x ∈ layer [] i ∨ i = ([] : List (List α)).length ∧ x ∈ base)
  constructor
  · intro i x y member edge
    exact absurd edge (free x (only member).2 y)
  · intro i x member
    exact absurd (only member).1 (by omega)

/-- A further layer: its elements depend on listed ones only, each on one of
the topmost layer. -/
theorem IsLayering.append (layering : IsLayering dep (lower ++ [top]))
    (below : ∀ x ∈ peak, ∀ y, dep x y → y ∈ lower.flatten ∨ y ∈ top)
    (near : ∀ x ∈ peak, ∃ y ∈ top, dep x y) : IsLayering dep (lower ++ [top] ++ [peak]) := by
  constructor
  · intro i x y member edge
    rcases mem_layer_append.mp member with old | ⟨atTop, new⟩
    · obtain ⟨j, smaller, found⟩ := layering.below old edge
      exact ⟨j, smaller, mem_layer_append.mpr (.inl found)⟩
    have listed : y ∈ (lower ++ [top]).flatten := by simpa using below x new y edge
    obtain ⟨j, found⟩ := mem_flatten_iff_layer.mp listed
    refine ⟨j, ?_, mem_layer_append.mpr (.inl found)⟩
    by_contra large
    rw [layer, getD_eq_default _ _ (by omega)] at found
    contradiction
  · intro i x member
    rcases mem_layer_append.mp member with old | ⟨atTop, new⟩
    · obtain ⟨y, found, edge⟩ := layering.near old
      exact ⟨y, mem_layer_append.mpr (.inl found), edge⟩
    · obtain ⟨y, found, edge⟩ := near x new
      have index : i = lower.length := by simpa using atTop
      exact ⟨y, mem_layer_append.mpr (.inl (mem_layer_append.mpr (.inr ⟨index, found⟩))), edge⟩

theorem IsLayering.drop_empty (layering : IsLayering dep (lower ++ [[]])) :
    IsLayering dep lower := by
  have same : ∀ {i x}, x ∈ layer (lower ++ [[]]) i ↔ x ∈ layer lower i := by
    intro i x
    simp [mem_layer_append]
  constructor
  · intro i x y member edge
    obtain ⟨j, smaller, found⟩ := layering.below (same.mpr member) edge
    exact ⟨j, smaller, same.mp found⟩
  · intro i x member
    obtain ⟨y, found, edge⟩ := layering.near (same.mpr member)
    exact ⟨y, same.mp found, edge⟩

/-- Two layerings of the same elements agree layer by layer. -/
theorem IsLayering.mem_iff (first : IsLayering dep layers) (second : IsLayering dep other)
    (same : ∀ x, x ∈ layers.flatten ↔ x ∈ other.flatten) :
    x ∈ layer layers i ↔ x ∈ layer other i := by
  constructor
  · intro member
    obtain ⟨j, found⟩ := mem_flatten_iff_layer.mp
      ((same x).mp (mem_flatten_iff_layer.mpr ⟨i, member⟩))
    rwa [(first.height member).unique (second.height found)]
  · intro member
    obtain ⟨j, found⟩ := mem_flatten_iff_layer.mp
      ((same x).mpr (mem_flatten_iff_layer.mpr ⟨i, member⟩))
    rwa [(second.height member).unique (first.height found)]

theorem length_le_of_filled (filled : ∀ level ∈ layers, level ≠ [])
    (inside : ∀ i x, x ∈ layer layers i → x ∈ layer other i) : layers.length ≤ other.length := by
  by_contra longer
  have bound : other.length < layers.length := by omega
  obtain ⟨x, member⟩ := exists_mem_of_ne_nil _ (filled _ (getElem_mem bound))
  have outside := inside other.length x (by rwa [layer, getD_eq_getElem _ _ bound])
  rw [layer, getD_eq_default _ _ le_rfl] at outside
  contradiction

/-- Sorted layers without gaps are determined by the relation alone. -/
theorem IsLayering.eq_of_sorted [LinearOrder α] (first : IsLayering dep layers)
    (second : IsLayering dep other)
    (same : ∀ x, x ∈ layers.flatten ↔ x ∈ other.flatten) (filled : ∀ level ∈ layers, level ≠ [])
    (filled' : ∀ level ∈ other, level ≠ []) (sorted : ∀ level ∈ layers, level.Pairwise (· < ·))
    (sorted' : ∀ level ∈ other, level.Pairwise (· < ·)) : layers = other := by
  have members : ∀ i x, x ∈ layer layers i ↔ x ∈ layer other i := fun i x =>
    first.mem_iff second same
  have lengths : layers.length = other.length :=
    (length_le_of_filled filled fun i x => (members i x).mp).antisymm
      (length_le_of_filled filled' fun i x => (members i x).mpr)
  refine ext_getElem lengths fun i bound bound' => ?_
  have level := sorted _ (getElem_mem bound)
  have level' := sorted' _ (getElem_mem bound')
  refine Perm.eq_of_pairwise (fun a b _ _ lt gt => absurd gt lt.asymm) level level' ?_
  rw [perm_ext_iff_of_nodup (level.imp ne_of_lt) (level'.imp ne_of_lt)]
  intro x
  simpa only [layer, getD_eq_getElem _ _ bound, getD_eq_getElem _ _ bound'] using members i x

/-- A finite set without exits contains a cycle: every one of its elements
depends on another element of the set. -/
theorem not_acyclic_of_stuck (nonempty : stuck ≠ []) (closed : ∀ x ∈ stuck, ∃ y ∈ stuck, dep x y) :
    ¬ Acyclic dep := by
  intro acyclic
  let path (b a : {x // x ∈ stuck}) : Prop := Relation.TransGen dep a.1 b.1
  have : IsTrans {x // x ∈ stuck} path := ⟨fun _ _ _ first second => second.trans first⟩
  have : Std.Irrefl path := ⟨fun a loop => acyclic a.1 loop⟩
  have : Finite {x // x ∈ stuck} := stuck.finite_toSet
  have founded : WellFounded path := Finite.wellFounded_of_trans_of_irrefl path
  obtain ⟨start, member⟩ := exists_mem_of_ne_nil stuck nonempty
  obtain ⟨least, _, minimal⟩ := founded.has_min Set.univ ⟨⟨start, member⟩, trivial⟩
  obtain ⟨next, inside, edge⟩ := closed least.1 least.2
  exact minimal ⟨next, inside⟩ trivial (.single edge)

end Layering
