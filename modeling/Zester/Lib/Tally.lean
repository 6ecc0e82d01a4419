import Mathlib.Data.List.Count
import Mathlib.Data.List.Induction
import Mathlib.Data.List.Nodup

/-! Two loops over maps with list keys: grouping values under their keys, and
counting entries down while collecting those that reach zero. -/
namespace Tally
open List Function
variable [DecidableEq α]

/-- Append one value to the group of its key. -/
def group (groups : α → List β) (entry : α × β) : α → List β :=
  update groups entry.1 (groups entry.1 ++ [entry.2])

theorem group_foldl (entries : List (α × β)) (groups : α → List β) (key : α) :
    (entries.foldl group groups) key =
      groups key ++ (entries.filter (fun entry => entry.1 = key)).map Prod.snd := by
  induction entries generalizing groups with
  | nil => simp
  | cons entry entries ih =>
    rw [foldl_cons, ih]
    by_cases same : entry.1 = key
    · subst same
      simp [group]
    · have other : key ≠ entry.1 := fun h => same h.symm
      simp [group, same, update_of_ne other]

/-- Decrement the count of `x` and note `x` when it reaches zero. -/
def tick (state : (α → Int) × List α) (x : α) : (α → Int) × List α :=
  let counts := update state.1 x (state.1 x - 1)
  (counts, if counts x = 0 then state.2 ++ [x] else state.2)

def countdown (counts : α → Int) (ticks : List α) : (α → Int) × List α :=
  ticks.foldl tick (counts, [])

section
variable (counts : α → Int) (ticks : List α)
include counts ticks

theorem countdown_append (x : α) :
    countdown counts (ticks ++ [x]) = tick (countdown counts ticks) x := by
  simp [countdown]

theorem countdown_counts (x : α) :
    (countdown counts ticks).1 x = counts x - ticks.count x := by
  induction ticks using reverseRecOn with
  | nil => simp [countdown]
  | append_singleton ticks y ih =>
    rw [countdown_append, tick]
    by_cases same : x = y
    · subst same
      simp only [update_self, ih, count_append, count_singleton_self]
      omega
    · have absent : [y].count x = 0 := by simp [same, eq_comm]
      simp only [update_of_ne same, ih, count_append, absent]
      omega

theorem mem_countdown (x : α) :
    x ∈ (countdown counts ticks).2 ↔ 0 < counts x ∧ counts x ≤ ticks.count x := by
  induction ticks using reverseRecOn with
  | nil =>
    simp only [countdown, foldl_nil, not_mem_nil, count_nil, Int.natCast_zero, false_iff]
    omega
  | append_singleton ticks y ih =>
    rw [countdown_append, tick]
    simp only [update_self, countdown_counts, count_append]
    by_cases same : x = y
    · subst same
      simp only [count_singleton_self]
      split
      · simp only [mem_append, ih, mem_singleton, or_true, true_iff]
        omega
      · rw [ih]
        omega
    · have absent : [y].count x = 0 := by simp [same, eq_comm]
      split <;> simp [ih, same, absent]

theorem countdown_nodup : (countdown counts ticks).2.Nodup := by
  induction ticks using reverseRecOn with
  | nil => simp [countdown]
  | append_singleton ticks y ih =>
    rw [countdown_append, tick]
    simp only [update_self, countdown_counts]
    split
    · rename_i zero
      refine ih.append (by simp) ?_
      simp only [disjoint_singleton, mem_countdown]
      omega
    · exact ih

end

end Tally
