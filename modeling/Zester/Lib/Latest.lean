import Mathlib.Data.List.AList

/-! Maps that keep, under each key, the latest of the values that were seen. -/
namespace Latest
open AList
variable [DecidableEq κ] {kept : AList fun _ : κ => β}

/-- The value replaces an earlier one only. -/
def keep (time : β → Nat) (kept : AList fun _ : κ => β) (key : κ) (value : β) :
    AList fun _ : κ => β :=
  match kept.lookup key with
  | some earlier => if time earlier < time value then kept.insert key value else kept
  | none => kept.insert key value

/-- The map holds one of the latest among the values seen under each key. -/
structure Holds (time : β → Nat) (seen : κ → β → Prop) (kept : AList fun _ : κ => β) : Prop where
  sound : ∀ {k v}, kept.lookup k = some v → seen k v
  latest : ∀ {k v}, seen k v → ∃ held, kept.lookup k = some held ∧ time v ≤ time held

theorem Holds.empty : Holds time (fun (_ : κ) (_ : β) => False) ∅ where
  sound found := by simp at found
  latest never := never.elim

theorem Holds.congr (holds : Holds time seen kept) (same : ∀ k v, seen k v ↔ seen' k v) :
    Holds time seen' kept where
  sound found := (same _ _).mp (holds.sound found)
  latest met := holds.latest ((same _ _).mpr met)

theorem Holds.keep (holds : Holds time seen kept) (key : κ) (value : β) :
    Holds time (fun k v => (k = key ∧ v = value) ∨ seen k v) (keep time kept key value) := by
  have inserted : (∀ v, seen key v → time v ≤ time value) →
      Holds time (fun k v => (k = key ∧ v = value) ∨ seen k v) (kept.insert key value) := by
    intro newest
    constructor
    · intro k v found
      by_cases here : k = key
      · subst here
        rw [lookup_insert] at found
        exact .inl ⟨rfl, (Option.some.inj found).symm⟩
      · rw [lookup_insert_ne here] at found
        exact .inr (holds.sound found)
    · intro k v met
      by_cases here : k = key
      · subst here
        refine ⟨value, lookup_insert _, ?_⟩
        obtain ⟨-, rfl⟩ | before := met
        · exact Nat.le_refl _
        · exact newest v before
      · rw [lookup_insert_ne here]
        exact holds.latest (met.resolve_left fun same => here same.1)
  unfold Latest.keep
  split
  · rename_i earlier found
    split
    · rename_i later
      refine inserted fun v before => ?_
      obtain ⟨held, found', bound⟩ := holds.latest before
      obtain rfl : earlier = held := Option.some.inj (found.symm.trans found')
      exact Nat.le_trans bound (Nat.le_of_lt later)
    · rename_i notLater
      refine ⟨fun found' => .inr (holds.sound found'), ?_⟩
      rintro k v (⟨rfl, rfl⟩ | before)
      · exact ⟨earlier, found, Nat.le_of_not_lt notLater⟩
      · exact holds.latest before
  · rename_i missing
    refine inserted fun v before => ?_
    obtain ⟨held, found, -⟩ := holds.latest before
    cases missing.symm.trans found

end Latest
