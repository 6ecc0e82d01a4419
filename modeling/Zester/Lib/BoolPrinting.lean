import Zester.Lib.BoolGrammar

/-! Printing of Boolean expressions with no more parentheses than the precedence asks for. Operands
of one operator are printed side by side whichever way they are nested, so that a printed tree is
derived up to that nesting only. -/
namespace BoolTree
variable {β : Type}

/-- The trees have the same leaves in the same order, and the same value whatever holds of them. -/
structure Agrees (tree other : BoolTree α) : Prop where
  leaves : tree.leaves = other.leaves
  eval : ∀ holds, tree.eval holds = other.eval holds

namespace Agrees
variable {tree left : BoolTree α}

theorem refl (tree : BoolTree α) : tree.Agrees tree := ⟨rfl, fun _ => rfl⟩

theorem trans (first : tree.Agrees other) (second : other.Agrees third) : tree.Agrees third :=
  ⟨first.leaves.trans second.leaves, fun holds => (first.eval holds).trans (second.eval holds)⟩

theorem and (first : left.Agrees left') (second : right.Agrees right') :
    (left.and right).Agrees (left'.and right') :=
  ⟨by simp only [BoolTree.leaves, first.leaves, second.leaves],
    fun holds => by simp only [BoolTree.eval, first.eval holds, second.eval holds]⟩

theorem or (first : left.Agrees left') (second : right.Agrees right') :
    (left.or right).Agrees (left'.or right') :=
  ⟨by simp only [BoolTree.leaves, first.leaves, second.leaves],
    fun holds => by simp only [BoolTree.eval, first.eval holds, second.eval holds]⟩

theorem not (inner : tree.Agrees other) : tree.not.Agrees other.not :=
  ⟨inner.leaves, fun holds => by simp only [BoolTree.eval, inner.eval holds]⟩

theorem and_assoc : ((left.and right).and third).Agrees (left.and (right.and third)) :=
  ⟨by simp only [BoolTree.leaves, List.append_assoc],
    fun holds => by simp only [BoolTree.eval, Bool.and_assoc]⟩

theorem or_assoc : ((left.or right).or third).Agrees (left.or (right.or third)) :=
  ⟨by simp only [BoolTree.leaves, List.append_assoc],
    fun holds => by simp only [BoolTree.eval, Bool.or_assoc]⟩

end Agrees

theorem eval_build {tree : BoolTree α} (made : tree.build f = .ok built)
    (holds : β → Bool) (verdict : α → Bool) (same : ∀ a b, f a = .ok b → verdict a = holds b) :
    built.eval holds = tree.eval verdict := by
  induction tree generalizing built with
  | leaf a =>
    obtain ⟨b, found, rfl⟩ := build_leaf.mp made
    exact (same a b found).symm
  | and left right ihl ihr =>
    obtain ⟨l, r, first, second, rfl⟩ := build_and.mp made
    rw [eval, eval, ihl first, ihr second]
  | or left right ihl ihr =>
    obtain ⟨l, r, first, second, rfl⟩ := build_or.mp made
    rw [eval, eval, ihl first, ihr second]
  | not tree ih =>
    obtain ⟨t, inner, rfl⟩ := build_not.mp made
    rw [eval, eval, ih inner]

end BoolTree

namespace BoolGrammar
variable {g : BoolGrammar τ}

/-- The tokens that are written for the operators and the parentheses. -/
structure Marks (g : BoolGrammar τ) where
  opening : τ
  closing : τ
  conj : τ
  disj : τ
  neg : τ
  opens : g.kind opening = .opening
  closes : g.kind closing = .closing
  conjoins : g.kind conj = .and
  disjoins : g.kind disj = .or
  negates : g.kind neg = .not

namespace Marks
variable (m : g.Marks)

def group (inner : List τ) : List τ := m.opening :: (inner ++ [m.closing])

/-- The tokens of a tree where an expression of the level is expected. -/
def print : Level → BoolTree τ → List τ
  | _, .leaf t => [t]
  | _, .not tree => m.neg :: print .not tree
  | .not, .and left right => m.group (print .and left ++ m.conj :: print .and right)
  | _, .and left right => print .and left ++ m.conj :: print .and right
  | .or, .or left right => print .or left ++ m.disj :: print .or right
  | _, .or left right => m.group (print .or left ++ m.disj :: print .or right)

end Marks

theorem Derives.joinAnd (first : g.Derives .and ls left) (joins : g.kind t = .and)
    (second : g.Derives .and rs right) :
    ∃ tree, g.Derives .and (ls ++ t :: rs) tree ∧ tree.Agrees (left.and right) := by
  generalize level : Level.and = l at second
  induction second with
  | leaf | group | not | ofAnd | or => cases level
  | ofNot inner => exact ⟨_, .and first joins inner, .refl _⟩
  | @and ls' rs' a left' right' inner joins' last ih =>
    obtain ⟨tree, derives, agrees⟩ := ih rfl
    refine ⟨tree.and right', ?_, (agrees.and (.refl right')).trans .and_assoc⟩
    have whole := Derives.and derives joins' last
    rwa [List.append_assoc, List.cons_append] at whole

theorem Derives.joinOr (first : g.Derives .or ls left) (joins : g.kind t = .or)
    (second : g.Derives .or rs right) :
    ∃ tree, g.Derives .or (ls ++ t :: rs) tree ∧ tree.Agrees (left.or right) := by
  generalize level : Level.or = l at second
  induction second with
  | leaf | group | not | ofNot | and => cases level
  | ofAnd inner => exact ⟨_, .or first joins inner, .refl _⟩
  | @or ls' rs' a left' right' inner joins' last ih =>
    obtain ⟨tree, derives, agrees⟩ := ih rfl
    refine ⟨tree.or right', ?_, (agrees.or (.refl right')).trans .or_assoc⟩
    have whole := Derives.or derives joins' last
    rwa [List.append_assoc, List.cons_append] at whole

theorem Derives.ofTight (derives : g.Derives .not ts tree) : ∀ level, g.Derives level ts tree
  | .not => derives
  | .and => .ofNot derives
  | .or => .ofAnd (.ofNot derives)

/-- A printed tree is derived, but for the nesting of operands of one operator. -/
theorem Marks.print_derives (m : g.Marks) (tree : BoolTree τ)
    (operands : ∀ t ∈ tree.leaves, g.operand t = true)
    (level : Level) : ∃ read, g.Derives level (m.print level tree) read ∧ read.Agrees tree := by
  induction tree generalizing level with
  | leaf t =>
    have tight : g.Derives .not [t] (.leaf t) := .leaf (operands t (List.mem_singleton_self t))
    refine ⟨.leaf t, ?_, .refl _⟩
    rw [print]
    exact tight.ofTight level
  | not tree ih =>
    obtain ⟨read, derives, agrees⟩ := ih operands .not
    refine ⟨read.not, ?_, agrees.not⟩
    rw [print]
    exact (Derives.not m.negates derives).ofTight level
  | and left right ihl ihr =>
    obtain ⟨first, second⟩ := List.forall_mem_append.mp operands
    obtain ⟨l, derivesLeft, agreesLeft⟩ := ihl first .and
    obtain ⟨r, derivesRight, agreesRight⟩ := ihr second .and
    obtain ⟨read, derives, agrees⟩ := derivesLeft.joinAnd m.conjoins derivesRight
    refine ⟨read, ?_, agrees.trans (agreesLeft.and agreesRight)⟩
    cases level with
    | not => exact .group m.opens (.ofAnd derives) m.closes
    | and => exact derives
    | or => exact .ofAnd derives
  | or left right ihl ihr =>
    obtain ⟨first, second⟩ := List.forall_mem_append.mp operands
    obtain ⟨l, derivesLeft, agreesLeft⟩ := ihl first .or
    obtain ⟨r, derivesRight, agreesRight⟩ := ihr second .or
    obtain ⟨read, derives, agrees⟩ := derivesLeft.joinOr m.disjoins derivesRight
    refine ⟨read, ?_, agrees.trans (agreesLeft.or agreesRight)⟩
    cases level with
    | not => exact .group m.opens derives m.closes
    | and => exact .ofNot (.group m.opens derives m.closes)
    | or => exact derives

end BoolGrammar
