import Mathlib.Data.List.Forall2

/-! What is known of the parts of a computation that did not fail. -/

variable {f : α → Except ε β}

theorem Except.bind_ok (done : x >>= f = .ok b) : ∃ a, x = .ok a ∧ f a = .ok b := by
  cases x with
  | error e => cases done
  | ok a => exact ⟨a, rfl, done⟩

theorem Except.mapError_ok {x : Except ε α} (done : x.mapError g = .ok a) : x = .ok a := by
  cases x <;> cases done
  rfl

theorem List.mapM_ok (collected : items.mapM f = .ok results) :
    List.Forall₂ (fun item result => f item = .ok result) items results := by
  induction items generalizing results with
  | nil =>
    cases collected
    exact .nil
  | cons item items ih =>
    rw [List.mapM_cons] at collected
    obtain ⟨result, first, collected⟩ := Except.bind_ok collected
    obtain ⟨results, rest, collected⟩ := Except.bind_ok collected
    cases collected
    exact .cons first (ih rest)

theorem List.mapM_exists {items : List α} (each : ∀ item ∈ items, ∃ result, f item = .ok result) :
    ∃ results, items.mapM f = .ok results := by
  induction items with
  | nil => exact ⟨[], rfl⟩
  | cons item items ih =>
    obtain ⟨⟨result, first⟩, later⟩ := List.forall_mem_cons.mp each
    obtain ⟨results, rest⟩ := ih later
    refine ⟨result :: results, ?_⟩
    rw [List.mapM_cons, first, rest]
    rfl
