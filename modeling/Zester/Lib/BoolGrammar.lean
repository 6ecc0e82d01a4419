import Mathlib.Data.List.Basic

/-! Expressions of `or`, `and`, `not` and parentheses over tokens of any type. `Derives` is the
grammar, in which `not` binds tightest and `or` loosest; `scan` reads the tokens once from the
left and keeps count of the open parentheses. -/

inductive BoolTree (α : Type) where
  | leaf (a : α)
  | and (left right : BoolTree α)
  | or (left right : BoolTree α)
  | not (tree : BoolTree α)
  deriving DecidableEq, Repr

namespace BoolTree

def eval (holds : α → Bool) : BoolTree α → Bool
  | .leaf a => holds a
  | .and left right => left.eval holds && right.eval holds
  | .or left right => left.eval holds || right.eval holds
  | .not tree => !tree.eval holds

def leaves : BoolTree α → List α
  | .leaf a => [a]
  | .and left right | .or left right => left.leaves ++ right.leaves
  | .not tree => tree.leaves

def build (f : α → Except ε β) : BoolTree α → Except ε (BoolTree β)
  | .leaf a => (f a).map .leaf
  | .and left right => do return .and (← left.build f) (← right.build f)
  | .or left right => do return .or (← left.build f) (← right.build f)
  | .not tree => (tree.build f).map .not

section
variable {tree : BoolTree α}

theorem build_leaf :
    (BoolTree.leaf a).build f = .ok built ↔ ∃ b, f a = .ok b ∧ built = .leaf b := by
  cases made : f a <;> simp [build, made, Except.map, eq_comm]

theorem build_and : (BoolTree.and left right).build f = .ok built ↔
    ∃ l r, left.build f = .ok l ∧ right.build f = .ok r ∧ built = .and l r := by
  cases first : left.build f <;> cases second : right.build f <;>
    simp [build, first, second, bind, Except.bind, pure, Except.pure, eq_comm]

theorem build_or : (BoolTree.or left right).build f = .ok built ↔
    ∃ l r, left.build f = .ok l ∧ right.build f = .ok r ∧ built = .or l r := by
  cases first : left.build f <;> cases second : right.build f <;>
    simp [build, first, second, bind, Except.bind, pure, Except.pure, eq_comm]

theorem build_not : (BoolTree.not tree).build f = .ok built ↔
    ∃ t, tree.build f = .ok t ∧ built = .not t := by
  cases made : tree.build f <;> simp [build, made, Except.map, eq_comm]

theorem exists_build :
    (∃ built, tree.build f = .ok built) ↔ ∀ a ∈ tree.leaves, ∃ b, f a = .ok b := by
  induction tree with
  | leaf a => simp [build_leaf, leaves]
  | and left right ihl ihr =>
    simp only [build_and, leaves, List.forall_mem_append, ← ihl, ← ihr]
    exact ⟨fun ⟨_, l, r, first, second, _⟩ => ⟨⟨l, first⟩, r, second⟩,
      fun ⟨⟨l, first⟩, r, second⟩ => ⟨_, l, r, first, second, rfl⟩⟩
  | or left right ihl ihr =>
    simp only [build_or, leaves, List.forall_mem_append, ← ihl, ← ihr]
    exact ⟨fun ⟨_, l, r, first, second, _⟩ => ⟨⟨l, first⟩, r, second⟩,
      fun ⟨⟨l, first⟩, r, second⟩ => ⟨_, l, r, first, second, rfl⟩⟩
  | not tree ih =>
    rw [leaves, ← ih]
    simp [build_not]

end

end BoolTree

inductive TokenKind where
  | opening
  | closing
  | and
  | or
  | not
  | word
  deriving DecidableEq, Repr

/-- How tokens are read, and which of them may stand for an operand. -/
structure BoolGrammar (τ : Type) where
  kind : τ → TokenKind
  operand : τ → Bool
  proper : ∀ t, operand t = true → kind t ≠ .opening ∧ kind t ≠ .not

namespace BoolGrammar
variable (g : BoolGrammar τ)

inductive Level where
  | or
  | and
  | not

inductive Derives : Level → List τ → BoolTree τ → Prop where
  | leaf {t : τ} (operand : g.operand t = true) : Derives .not [t] (.leaf t)
  | group {o c : τ} {ts : List τ} {tree : BoolTree τ} (opens : g.kind o = .opening)
      (inner : Derives .or ts tree) (closes : g.kind c = .closing) :
      Derives .not (o :: (ts ++ [c])) tree
  | not {n : τ} {ts : List τ} {tree : BoolTree τ} (negates : g.kind n = .not)
      (inner : Derives .not ts tree) : Derives .not (n :: ts) (.not tree)
  | ofNot {ts : List τ} {tree : BoolTree τ} (inner : Derives .not ts tree) : Derives .and ts tree
  | and {ls rs : List τ} {a : τ} {left right : BoolTree τ} (first : Derives .and ls left)
      (joins : g.kind a = .and) (second : Derives .not rs right) :
      Derives .and (ls ++ a :: rs) (.and left right)
  | ofAnd {ts : List τ} {tree : BoolTree τ} (inner : Derives .and ts tree) : Derives .or ts tree
  | or {ls rs : List τ} {o : τ} {left right : BoolTree τ} (first : Derives .or ls left)
      (joins : g.kind o = .or) (second : Derives .and rs right) :
      Derives .or (ls ++ o :: rs) (.or left right)

/-- The state of a scan: whether an operand is expected, how many parentheses are open, and
the operands so far. -/
structure Scan (τ : Type) where
  expects : Bool
  depth : Nat
  operands : List τ
  deriving DecidableEq

def scanToken (s : Scan τ) (t : τ) : Option (Scan τ) :=
  match s.expects, g.kind t, s.depth with
  | true, .opening, depth => some { s with depth := depth + 1 }
  | true, .not, _ => some s
  | true, _, _ =>
    if g.operand t then some { s with expects := false, operands := s.operands ++ [t] } else none
  | false, .and, _ | false, .or, _ => some { s with expects := true }
  | false, .closing, depth + 1 => some { s with depth := depth }
  | false, _, _ => none

def scan (s : Scan τ) (ts : List τ) : Option (Scan τ) := ts.foldlM g.scanToken s

variable {g}

@[simp] theorem scan_nil : g.scan s [] = some s := rfl

@[simp] theorem scan_cons : g.scan s (t :: ts) = (g.scanToken s t).bind fun s' => g.scan s' ts := by
  simp [scan]

theorem scan_append (us : List τ) :
    g.scan s (ts ++ us) = (g.scan s ts).bind fun s' => g.scan s' us := by
  simp [scan]

theorem scanToken_operand (operand : g.operand t = true) :
    g.scanToken ⟨true, depth, operands⟩ t = some ⟨false, depth, operands ++ [t]⟩ := by
  obtain ⟨opening, negation⟩ := g.proper t operand
  cases kind : g.kind t <;> simp_all [scanToken]

theorem expects_of_closing (closes : g.kind t = .closing) (step : g.scanToken s t = some s') :
    s'.expects = false := by
  obtain ⟨expects, depth, operands⟩ := s
  cases expects <;> cases depth <;> simp_all [scanToken]
  all_goals grind

/-- A scan over an expression comes back to the same depth, with its leaves. -/
theorem Derives.scan (derives : g.Derives level ts tree) (depth : Nat) (operands : List τ) :
    g.scan ⟨true, depth, operands⟩ ts = some ⟨false, depth, operands ++ tree.leaves⟩ := by
  induction derives generalizing depth operands with
  | leaf operand => simp [scanToken_operand operand, BoolTree.leaves]
  | group opens inner closes ih => simp [scanToken, opens, scan_append, ih, closes]
  | not negates inner ih => simp [scanToken, negates, ih, BoolTree.leaves]
  | ofNot inner ih | ofAnd inner ih => exact ih depth operands
  | and first joins second ihl ihr | or first joins second ihl ihr =>
    simp [scan_append, ihl, scanToken, joins, ihr, BoolTree.leaves]

theorem scan_deeper (scanned : g.scan s ts = some s') (more : Nat) : g.scan { s with depth :=
    s.depth + more } ts = some { s' with depth := s'.depth + more } := by
  induction ts generalizing s with
  | nil =>
    cases scanned
    rfl
  | cons t ts ih =>
    obtain ⟨mid, step, rest⟩ := Option.bind_eq_some_iff.mp (scan_cons ▸ scanned)
    have step' : g.scanToken { s with depth := s.depth + more } t =
        some { mid with depth := mid.depth + more } := by
      obtain ⟨expects, depth, operands⟩ := s
      cases expects <;> cases kind : g.kind t <;> cases depth <;>
        simp_all [scanToken] <;> grind
    rw [scan_cons, step', Option.bind_some]
    exact ih rest

theorem Derives.leaves_subset (derives : g.Derives level ts tree) : tree.leaves ⊆ ts := by
  induction derives with
  | leaf operand => exact List.Subset.refl _
  | group opens inner closes ih =>
    exact fun a member => List.mem_cons_of_mem _ (List.mem_append_left _ (ih member))
  | not negates inner ih => exact fun a member => List.mem_cons_of_mem _ (ih member)
  | ofNot inner ih | ofAnd inner ih => exact ih
  | and first joins second ihl ihr | or first joins second ihl ihr =>
    intro a member
    obtain left | right := List.mem_append.mp member
    · exact List.mem_append_left _ (ihl left)
    · exact List.mem_append_right _ (List.mem_cons_of_mem _ (ihr right))

theorem Derives.operand_of_leaf (derives : g.Derives level ts tree) :
    ∀ a ∈ tree.leaves, g.operand a = true := by
  induction derives with
  | leaf operand => exact fun a member => List.mem_singleton.mp member ▸ operand
  | group opens inner closes ih | not negates inner ih | ofNot inner ih | ofAnd inner ih => exact ih
  | and first joins second ihl ihr | or first joins second ihl ihr =>
    exact List.forall_mem_append.mpr ⟨ihl, ihr⟩

/-- Two grammars that differ in their operands only derive the same trees over the operands
that they share. -/
theorem Derives.change {g' : BoolGrammar τ} (derives : g.Derives level ts tree)
    (kinds : g'.kind = g.kind) (operands : ∀ a ∈ tree.leaves, g'.operand a = true) :
    g'.Derives level ts tree := by
  induction derives with
  | leaf operand => exact .leaf (operands _ List.mem_cons_self)
  | group opens inner closes ih => exact .group (kinds ▸ opens) (ih operands) (kinds ▸ closes)
  | not negates inner ih => exact .not (kinds ▸ negates) (ih operands)
  | ofNot inner ih => exact .ofNot (ih operands)
  | ofAnd inner ih => exact .ofAnd (ih operands)
  | and first joins second ihl ihr =>
    obtain ⟨left, right⟩ := List.forall_mem_append.mp operands
    exact .and (ihl left) (kinds ▸ joins) (ihr right)
  | or first joins second ihl ihr =>
    obtain ⟨left, right⟩ := List.forall_mem_append.mp operands
    exact .or (ihl left) (kinds ▸ joins) (ihr right)

theorem Derives.leaves_eq (one : g.Derives level ts tree) (two : g.Derives level' ts tree') :
    tree.leaves = tree'.leaves := by
  have same := (one.scan 0 []).symm.trans (two.scan 0 [])
  simpa using same

section
variable (g)

/-- What the tokens lack is an operand. -/
def Gap (ts : List τ) : Prop :=
  ∀ us tree, g.Derives .not us tree → ∃ whole, g.Derives .or (ts ++ us) whole

/-- What is said of the tokens behind the open parentheses; there is a gap before each of these. -/
def Behind : Nat → (List τ → Prop) → List τ → Prop
  | 0, part, ts => part ts
  | depth + 1, part, ts => ∃ before o inner, ts = before ++ o :: inner ∧ g.kind o = .opening ∧
      Behind depth g.Gap before ∧ part inner

def Read (s : Scan τ) : List τ → Prop :=
  g.Behind s.depth fun ts => if s.expects then g.Gap ts else ∃ tree, g.Derives .or ts tree

variable {g}

theorem Behind.append (behind : g.Behind depth part ts)
    (grows : ∀ ts, part ts → part' (ts ++ us)) : g.Behind depth part' (ts ++ us) := by
  cases depth with
  | zero => exact grows ts behind
  | succ depth =>
    obtain ⟨before, o, inner, rfl, opens, outer, holds⟩ := behind
    exact ⟨before, o, inner ++ us, by simp, opens, outer, grows inner holds⟩

theorem Derives.gap (derives : g.Derives .or ts tree) (joins : g.kind t = .and ∨ g.kind t = .or) :
    g.Gap (ts ++ [t]) := by
  intro us right second
  rw [List.append_assoc, List.singleton_append]
  obtain joins | joins := joins
  · cases derives with
    | ofAnd inner => exact ⟨_, .ofAnd (.and inner joins second)⟩
    | or first joins' last =>
      have whole := Derives.or first joins' (.and last joins second)
      exact ⟨_, by simpa using whole⟩
  · exact ⟨_, .or derives joins (.ofNot second)⟩

theorem scanToken_behind (step : g.scanToken ⟨false, depth, operands⟩ t = some s') :
    (g.kind t = .and ∨ g.kind t = .or) ∧ s' = ⟨true, depth, operands⟩ ∨
      g.kind t = .closing ∧ ∃ outer, depth = outer + 1 ∧ s' = ⟨false, outer, operands⟩ := by
  cases kind : g.kind t <;> cases depth <;> simp_all [scanToken]

theorem Read.token (read : g.Read s ts) (step : g.scanToken s t = some s') :
    g.Read s' (ts ++ [t]) := by
  obtain ⟨expects, depth, operands⟩ := s
  cases expects with
  | true =>
    by_cases opens : g.kind t = .opening
    · simp only [scanToken, opens, Option.some.injEq] at step
      subst step
      exact ⟨ts, t, [], rfl, opens, read, fun us tree derives => ⟨tree, .ofAnd (.ofNot derives)⟩⟩
    by_cases negates : g.kind t = .not
    · simp only [scanToken, negates, Option.some.injEq] at step
      subst step
      refine Behind.append read fun ts gap us tree derives => ?_
      simpa using gap _ _ (.not negates derives)
    by_cases operand : g.operand t = true
    · rw [scanToken_operand operand, Option.some.injEq] at step
      subst step
      exact Behind.append read fun ts gap => gap _ _ (.leaf operand)
    · cases kind : g.kind t <;> simp_all [scanToken]
  | false =>
    obtain ⟨joins, rfl⟩ | ⟨closes, outer, rfl, rfl⟩ := scanToken_behind step
    · exact Behind.append read fun ts ⟨_, derives⟩ => derives.gap joins
    · obtain ⟨before, o, inner, rfl, opens, gap, tree, derives⟩ := read
      rw [List.append_assoc, List.cons_append]
      exact Behind.append gap fun ts gap => gap _ _ (.group opens derives closes)

theorem Read.scan (read : g.Read s ts) (scanned : g.scan s us = some s') :
    g.Read s' (ts ++ us) := by
  induction us generalizing s ts with
  | nil =>
    cases scanned
    rwa [List.append_nil]
  | cons t us ih =>
    obtain ⟨mid, step, rest⟩ := Option.bind_eq_some_iff.mp (scan_cons ▸ scanned)
    simpa using ih (read.token step) rest

/-- A scan that ends at no open parenthesis has read an expression. -/
theorem derives_of_scan (scanned : g.scan ⟨true, 0, []⟩ ts = some ⟨false, 0, operands⟩) :
    ∃ tree, g.Derives .or ts tree := by
  have begins : g.Read ⟨true, 0, []⟩ [] := fun us tree derives => ⟨tree, .ofAnd (.ofNot derives)⟩
  exact begins.scan scanned

end

end BoolGrammar
