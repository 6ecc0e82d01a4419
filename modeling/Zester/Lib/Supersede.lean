import Mathlib.Data.List.Basic

/-! One new element in the place of old ones: the first old one makes way for it, the others are
dropped, and it comes last where there is none. -/
open List

def supersede (old : α → Bool) (a : α) (found : Bool) : List α → List α
  | [] => if found then [] else [a]
  | x :: rest =>
    if old x then
      if found then supersede old a true rest else a :: supersede old a true rest
    else x :: supersede old a found rest

section
variable {old : α → Bool}

theorem mem_supersede (member : x ∈ supersede old a found l) : x = a ∨ x ∈ l := by
  induction l generalizing found with
  | nil => cases found <;> simp_all [supersede]
  | cons y l ih =>
    simp only [supersede] at member
    split at member
    · split at member
      · exact (ih member).imp_right (mem_cons_of_mem y)
      · obtain new | later := mem_cons.mp member
        · exact .inl new
        · exact (ih later).imp_right (mem_cons_of_mem y)
    · obtain rfl | later := mem_cons.mp member
      · exact .inr mem_cons_self
      · exact (ih later).imp_right (mem_cons_of_mem y)

theorem filter_supersede (apart : keep a = false) (found : Bool) (l : List α) :
    (supersede old a found l).filter keep = (l.filter keep).filter (!old ·) := by
  induction l generalizing found with
  | nil => cases found <;> simp [supersede, apart]
  | cons y l ih =>
    simp only [supersede]
    cases replaced : old y <;> cases found <;> cases kept : keep y <;>
      simp [ih, replaced, kept, apart]

theorem countP_supersede (p : α → Bool) (found : Bool) (l : List α) :
    (supersede old a found l).countP p =
      (if !found && p a then 1 else 0) + (l.filter (!old ·)).countP p := by
  induction l generalizing found with
  | nil => cases found <;> simp [supersede]
  | cons y l ih =>
    simp only [supersede, filter_cons]
    cases replaced : old y <;> cases found <;> simp [ih, countP_cons] <;> omega

theorem filter_drop_eq_iff {l : List α} :
    (l.filter keep).filter (!old ·) = l.filter keep ↔ ∀ x ∈ l, keep x = true → old x = false := by
  rw [filter_eq_self]
  simp [mem_filter]

theorem countP_drop_eq_zero_iff {l : List α} :
    (l.filter (!old ·)).countP p = 0 ↔ ∀ x ∈ l, p x = true → old x = true := by
  rw [countP_eq_zero]
  refine ⟨fun none_left x member counts => ?_, fun gone x member counts => ?_⟩
  · by_contra kept
    exact none_left x (mem_filter.mpr ⟨member, by simpa using kept⟩) counts
  · obtain ⟨member, kept⟩ := mem_filter.mp member
    simp [gone x member counts] at kept

end
