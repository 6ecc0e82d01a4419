import Mathlib.Algebra.GroupWithZero.Nat
import Mathlib.Data.List.Basic

/-! Texts and their lines, over any separator: how often something occurs in the joined lines, and
that lines without the separator are told by the text. -/
namespace Lines

variable {x : α}

theorem intercalate_append (first : left ≠ []) (second : right ≠ []) :
    [x].intercalate (left ++ right) = [x].intercalate left ++ x :: [x].intercalate right := by
  induction left with
  | nil => exact absurd rfl first
  | cons l left ih =>
    cases left with
    | nil => simp [List.intercalate_cons_of_ne_nil second]
    | cons l' left =>
      have rest := ih (List.cons_ne_nil _ _)
      rw [List.cons_append, List.intercalate_cons_of_ne_nil (by simp), rest,
        List.intercalate_cons_cons]
      simp

theorem map_intercalate (fixed : ∀ l ∈ lines, l.map f = l) :
    ([x].intercalate lines).map f = [f x].intercalate lines := by
  induction lines with
  | nil => rfl
  | cons first rest ih =>
    obtain ⟨here, later⟩ := List.forall_mem_cons.mp fixed
    cases rest with
    | nil => simp [here]
    | cons second rest => simp [List.intercalate_cons_cons, here, ih later]

theorem intercalate_concat_nil (some_line : lines ≠ []) :
    [x].intercalate (lines ++ [[]]) = [x].intercalate lines ++ [x] := by
  rw [intercalate_append some_line (by simp), List.intercalate_singleton]

theorem mem_intercalate (member : y ∈ [x].intercalate lines) : y = x ∨ ∃ l ∈ lines, y ∈ l := by
  induction lines with
  | nil => cases member
  | cons l lines ih =>
    cases lines with
    | nil => exact .inr ⟨l, List.mem_singleton_self l, by simpa using member⟩
    | cons l' lines =>
      rw [List.intercalate_cons_cons, List.append_assoc, List.mem_append, List.singleton_append,
        List.mem_cons] at member
      obtain here | rfl | later := member
      · exact .inr ⟨l, List.mem_cons_self, here⟩
      · exact .inl rfl
      · refine (ih later).imp_right ?_
        rintro ⟨found, among, inside⟩
        exact ⟨found, List.mem_cons_of_mem _ among, inside⟩

theorem countP_intercalate (p : α → Bool) (some_line : lines ≠ []) :
    ([x].intercalate lines).countP p + (if p x then 1 else 0) =
      (lines.map (List.countP p)).sum + lines.length * (if p x then 1 else 0) := by
  induction lines with
  | nil => exact absurd rfl some_line
  | cons l lines ih =>
    cases lines with
    | nil => simp
    | cons l' lines =>
      have rest := ih (List.cons_ne_nil _ _)
      rw [List.intercalate_cons_cons, List.countP_append, List.countP_append, List.countP_singleton,
        List.map_cons, List.sum_cons, List.length_cons, Nat.succ_mul]
      omega

theorem getElem?_replaced (elsewhere : i ≠ before.length) :
    (before ++ new :: after)[i]? = (before ++ old :: after)[i]? := by
  have whole : before ++ new :: after = (before ++ old :: after).set before.length new := by simp
  rw [whole, List.getElem?_set_ne elsewhere.symm]

section
variable [DecidableEq α]

theorem intercalate_inj (single : ∀ l ∈ lines, x ∉ l) (single' : ∀ l ∈ lines', x ∉ l)
    (some_line : lines ≠ [])
    (some_line' : lines' ≠ []) (same : [x].intercalate lines = [x].intercalate lines') :
    lines = lines' := by
  rw [← List.splitOn_intercalate x single some_line, same,
    List.splitOn_intercalate x single' some_line']

/-- Lines that are as many as before, of a text that is the same, are the same, if the ones before
have no separator in them. -/
theorem eq_of_intercalate_eq (single : ∀ l ∈ lines, x ∉ l) (some_line : lines ≠ [])
    (longer : lines.length ≤ lines'.length)
    (same : [x].intercalate lines' = [x].intercalate lines) : lines' = lines := by
  have some_line' : lines' ≠ [] := by
    rintro rfl
    exact some_line (List.length_eq_zero_iff.mp (by simpa using longer))
  have before := countP_intercalate (x := x) (· = x) some_line
  have after := countP_intercalate (x := x) (· = x) some_line'
  have none : (lines.map (List.countP (· = x))).sum = 0 := by
    refine List.sum_eq_zero_iff_forall_eq_nat.mpr fun n member => ?_
    obtain ⟨l, line, rfl⟩ := List.mem_map.mp member
    exact List.countP_eq_zero.mpr fun a here => by
      rintro equal
      exact single l line (of_decide_eq_true equal ▸ here)
  simp only [decide_true, if_true, Nat.mul_one] at before after
  rw [same] at after
  have none' : (lines'.map (List.countP (· = x))).sum = 0 := by omega
  refine intercalate_inj (fun l line here => ?_) single some_line' some_line same
  have zero := List.sum_eq_zero_iff_forall_eq_nat.mp none' _ (List.mem_map.mpr ⟨l, line, rfl⟩)
  exact List.countP_eq_zero.mp zero x here (decide_eq_true rfl)

end

end Lines
