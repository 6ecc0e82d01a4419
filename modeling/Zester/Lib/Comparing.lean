import Mathlib.Data.List.Basic

/-! Comparison functions with a negative, zero or positive result. `Orders` says that one is a
total preorder on the values of interest; it is lifted to lists of different lengths, which are
filled up, and to the search for the greatest value of a list. -/

structure Orders (cmp : α → α → Int) (on : α → Prop) : Prop where
  swap : ∀ {a b}, on a → on b → cmp a b = -cmp b a
  trans : ∀ {a b c}, on a → on b → on c → cmp a b ≤ 0 → cmp b c ≤ 0 → cmp a c ≤ 0

namespace Orders
variable {cmp : α → α → Int}

theorem refl (orders : Orders cmp on) (here : on a) : cmp a a = 0 := by
  have swap := orders.swap here here
  omega

theorem tie (orders : Orders cmp on) (ha : on a) (hb : on b) (hc : on c) (first : cmp a b ≤ 0)
    (second : cmp b c ≤ 0) (ties : cmp a c = 0) : cmp a b = 0 ∧ cmp b c = 0 := by
  have back := orders.swap hc ha
  have one := orders.trans hb hc ha second (by omega)
  have two := orders.trans hc ha hb (by omega) first
  have swap := orders.swap ha hb
  have swap' := orders.swap hb hc
  omega

end Orders

section
variable (cmp : α → α → Int) (filler : α)

/-- The first of `n` places where two lists differ; past its end a list has the filler. -/
def lexicographic : Nat → List α → List α → Int
  | 0, _, _ => 0
  | n + 1, as, bs =>
    let c := cmp (as.headD filler) (bs.headD filler)
    if c ≠ 0 then c else lexicographic n as.tail bs.tail

variable {cmp filler} {on : α → Prop}

theorem on_headD (fills : on filler) {l : List α} (all : ∀ a ∈ l, on a) : on (l.headD filler) := by
  cases l with
  | nil => exact fills
  | cons a l => exact all a List.mem_cons_self

theorem on_tail {l : List α} (all : ∀ a ∈ l, on a) : ∀ a ∈ l.tail, on a :=
  fun a member => all a (List.mem_of_mem_tail member)

theorem Orders.lex (orders : Orders cmp on) (fills : on filler) (n : Nat) :
    Orders (lexicographic cmp filler n) fun l => ∀ a ∈ l, on a := by
  induction n with
  | zero => exact ⟨fun _ _ => rfl, fun _ _ _ _ _ => Int.le_refl 0⟩
  | succ n ih =>
    constructor
    · intro as bs ha hb
      have swap := orders.swap (on_headD fills ha) (on_headD fills hb)
      have rest := ih.swap (on_tail ha) (on_tail hb)
      simp only [lexicographic]
      split <;> split <;> omega
    · intro as bs cs ha hb hc first second
      have here := on_headD fills ha
      have here' := on_headD fills hb
      have here'' := on_headD fills hc
      have heads : cmp (as.headD filler) (bs.headD filler) ≤ 0 := by
        simp only [lexicographic] at first
        split at first <;> omega
      have heads' : cmp (bs.headD filler) (cs.headD filler) ≤ 0 := by
        simp only [lexicographic] at second
        split at second <;> omega
      have both := orders.trans here here' here'' heads heads'
      by_cases ties : cmp (as.headD filler) (cs.headD filler) = 0
      · obtain ⟨one, two⟩ := orders.tie here here' here'' heads heads' ties
        simp only [lexicographic, one, two, ties, ne_eq, not_true_eq_false, if_false]
          at first second ⊢
        exact ih.trans (on_tail ha) (on_tail hb) (on_tail hc) first second
      · simp only [lexicographic, ne_eq, ties, not_false_eq_true, if_true]
        exact both

theorem lexicographic_add (same : cmp filler filler = 0) (n more : Nat) (ha : as.length ≤ n)
    (hb : bs.length ≤ n) :
    lexicographic cmp filler (n + more) as bs = lexicographic cmp filler n as bs := by
  induction n generalizing as bs with
  | zero =>
    obtain rfl := List.length_eq_zero_iff.mp (Nat.le_zero.mp ha)
    obtain rfl := List.length_eq_zero_iff.mp (Nat.le_zero.mp hb)
    rw [Nat.zero_add]
    induction more with
    | zero => rfl
    | succ more ih => simpa [lexicographic, same] using ih
  | succ n ih =>
    have shorter : as.tail.length ≤ n ∧ bs.tail.length ≤ n := by
      simp only [List.length_tail]
      omega
    have rest := ih shorter.1 shorter.2
    rw [Nat.succ_add]
    simp only [lexicographic, rest]

end

section
variable (cmp : α → α → Int)

def greater (best : Option α) (a : α) : Option α :=
  match best with
  | none => some a
  | some b => if cmp a b > 0 then some a else some b

/-- The first of the greatest values. -/
def greatest (l : List α) : Option α := l.foldl (greater cmp) none

variable {cmp}

theorem greatest_from (orders : Orders cmp on) (all : ∀ a ∈ l, on a) (here : on start)
    (found : l.foldl (greater cmp) (some start) = some best) :
    best ∈ start :: l ∧ ∀ a ∈ start :: l, cmp a best ≤ 0 := by
  induction l generalizing start with
  | nil =>
    cases found
    exact ⟨List.mem_cons_self, by simp [orders.refl here]⟩
  | cons a l ih =>
    obtain ⟨first, rest⟩ := List.forall_mem_cons.mp all
    by_cases more : cmp a start > 0
    · obtain ⟨member, most⟩ := ih rest first (by simpa [greater, more] using found)
      have below := orders.swap here first
      have within := List.forall_mem_cons.mpr ⟨first, rest⟩ best member
      refine ⟨List.mem_cons_of_mem _ member, List.forall_mem_cons.mpr ⟨?_, most⟩⟩
      exact orders.trans here first within (by omega) (most a List.mem_cons_self)
    · obtain ⟨member, most⟩ := ih rest here (by simpa [greater, more] using found)
      obtain ⟨top, others⟩ := List.forall_mem_cons.mp most
      have within := List.forall_mem_cons.mpr ⟨here, rest⟩ best member
      refine ⟨?_, List.forall_mem_cons.mpr ⟨top, List.forall_mem_cons.mpr ⟨?_, others⟩⟩⟩
      · obtain rfl | later := List.mem_cons.mp member
        · exact List.mem_cons_self
        · exact List.mem_cons_of_mem _ (List.mem_cons_of_mem _ later)
      · exact orders.trans first here within (by omega) top

theorem greatest_spec (orders : Orders cmp on) (all : ∀ a ∈ l, on a)
    (found : greatest cmp l = some best) : best ∈ l ∧ ∀ a ∈ l, cmp a best ≤ 0 := by
  cases l with
  | nil => cases found
  | cons a l =>
    obtain ⟨first, rest⟩ := List.forall_mem_cons.mp all
    exact greatest_from orders rest first found

/-- In whatever order the values come, those that are found tie. -/
theorem greatest_tie (orders : Orders cmp on) {l l' : List α} (all : ∀ a ∈ l, on a)
    (same : ∀ a, a ∈ l ↔ a ∈ l') {best best' : α} (found : greatest cmp l = some best)
    (found' : greatest cmp l' = some best') : cmp best best' = 0 := by
  have all' : ∀ a ∈ l', on a := fun a member => all a ((same a).mpr member)
  obtain ⟨member, most⟩ := greatest_spec orders all found
  obtain ⟨member', most'⟩ := greatest_spec orders all' found'
  have one := most best' ((same _).mpr member')
  have two := most' best ((same _).mp member)
  have swap := orders.swap (all _ member) (all' _ member')
  omega

end
