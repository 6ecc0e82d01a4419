import Mathlib.Data.List.Rotate

/-! Unspecified iteration order. A language may leave open in which order a
loop visits the entries of a map; results are then stated for every order. -/

/-- The order in which each loop visits the entries of a map. A loop is named
by its place in the program and, inside other loops, by the iterations around
it, so that no two executions of a loop need to agree. -/
structure Ranging where
  order : List Nat → {α : Type} → List α → List α
  perm : ∀ (loop : List Nat) {α : Type} (entries : List α), (order loop entries).Perm entries

namespace Ranging
open List

/-- Every loop visits the entries as they are listed. -/
def listed : Ranging := ⟨fun _ _ entries => entries, fun _ _ entries => .refl entries⟩

instance : Inhabited Ranging := ⟨listed⟩

/-- Every loop starts at the `n`-th entry and goes round. -/
def rotated (n : Nat) : Ranging :=
  ⟨fun _ _ entries => entries.rotate n, fun _ _ entries => rotate_perm entries n⟩

/-- The orders of the loops in a part of the program that is executed at the given place. -/
def within (it : Ranging) (place : List Nat) : Ranging :=
  ⟨fun loop => it.order (loop ++ place), fun loop => it.perm (loop ++ place)⟩

variable (it : Ranging) (loop : List Nat)

@[simp] theorem mem_order : x ∈ it.order loop entries ↔ x ∈ entries :=
  (it.perm loop entries).mem_iff

theorem nodup_order : (it.order loop entries).Nodup ↔ entries.Nodup :=
  (it.perm loop entries).nodup_iff

theorem rotated_last (member : x ∈ entries) :
    ∃ n before, (rotated n).order loop entries = before ++ [x] := by
  obtain ⟨front, back, rfl⟩ := append_of_mem member
  refine ⟨(front ++ [x]).length, back ++ front, ?_⟩
  show (front ++ x :: back).rotate _ = _
  rw [append_cons, rotate_append_length_eq, append_assoc]

end Ranging
