import Zester.Target.CompoundProofs

/-! What a target resolves to: the listed peels that its matcher accepts, from whichever source
the peels and their facts come. -/
namespace Zester.Target
open List

/-- The peels and facts that a matcher is tried on. -/
def Lister.load : Lister → Except String (List (String × Facts))
  | .plain peels facts =>
    peels.map fun ids => ids.filterMap fun id => (facts id).toOption.map fun known => (id, known)
  | .bulk _ all => all
  | .service (some index) _ => .ok index
  | .service none fallback => fallback.load

theorem resolvePlain_eq_resolveBulk (needs : needsFacts tt = true) (ids : List String)
    (facts : String → Except String Facts) : resolvePlain accepts tt ids facts = resolveBulk accepts
        (ids.filterMap fun id => (facts id).toOption.map fun known => (id, known)) := by
  induction ids with
  | nil => rfl
  | cons id ids ih =>
    simp only [resolvePlain, resolveBulk, needs, if_true, filter_cons,
      filterMap_cons] at ih ⊢
    cases facts id with
    | error text => simpa [Except.toOption] using ih
    | ok known => cases accepted : accepts id known <;> simpa [Except.toOption, accepted] using ih

theorem resolve_of_load (made : newMatcher lib expr tt = .ok accepts) (needs : needsFacts tt = true)
    (loaded : lister.load = .ok entries) :
    resolve lib expr tt lister = .ok (resolveBulk accepts entries) := by
  induction lister with
  | plain peels facts =>
    cases peels with
    | error text => cases loaded
    | ok ids =>
      cases loaded
      simp [resolve, made, resolvePlain_eq_resolveBulk needs]
  | bulk peels all =>
    obtain rfl : all = .ok entries := loaded
    simp [resolve, made, needs]
  | service index fallback ih =>
    cases index with
    | none => exact ih loaded
    | some index =>
      cases loaded
      simp [resolve, made, needs]

theorem resolve_of_load_error (made : newMatcher lib expr tt = .ok accepts)
    (needs : needsFacts tt = true)
    (failed : lister.load = .error text) : ∃ text', resolve lib expr tt lister = .error text' := by
  induction lister with
  | plain peels facts =>
    cases peels with
    | error text => simp [resolve, made]
    | ok ids => cases failed
  | bulk peels all =>
    obtain rfl : all = .error text := failed
    simp [resolve, made, needs]
  | service index fallback ih =>
    cases index with
    | none => exact ih failed
    | some index => cases failed

theorem resolve_of_newMatcher_error (failed : newMatcher lib expr tt = .error text)
    (lister : Lister) : ∃ text', resolve lib expr tt lister = .error text' := by
  induction lister with
  | plain peels facts | bulk peels all => simp [resolve, failed]
  | service index fallback ih =>
    obtain ⟨text', failed'⟩ := ih
    refine ⟨text', ?_⟩
    cases index <;> simp [resolve, failed, failed']

theorem resolve_eq_ok (needs : needsFacts tt = true) :
    resolve lib expr tt lister = .ok ids ↔ ∃ accepts entries,
      newMatcher lib expr tt = .ok accepts ∧ lister.load = .ok entries ∧
        ids = resolveBulk accepts entries := by
  constructor
  · intro resolved
    cases made : newMatcher lib expr tt with
    | error text =>
      obtain ⟨text', failed⟩ := resolve_of_newMatcher_error made lister
      cases resolved.symm.trans failed
    | ok accepts =>
      cases loaded : lister.load with
      | error text =>
        obtain ⟨text', failed⟩ := resolve_of_load_error made needs loaded
        cases resolved.symm.trans failed
      | ok entries =>
        cases resolved.symm.trans (resolve_of_load made needs loaded)
        exact ⟨accepts, entries, rfl, rfl, rfl⟩
  · rintro ⟨accepts, entries, made, loaded, rfl⟩
    exact resolve_of_load made needs loaded

theorem mem_resolveBulk {id : String} :
    id ∈ resolveBulk accepts entries ↔ ∃ facts, (id, facts) ∈ entries ∧
      accepts id facts = true := by
  simp [resolveBulk]

/-- The text says that it is a compound expression. -/
def readsCompound (expr : String) : Bool :=
  let lower := toLower expr
  contains lower " and " || contains lower " or " || "not ".toList.isPrefixOf lower

/-- The text begins as a single matcher. -/
def isMarked (expr : String) : Bool :=
  hasPrefix expr "E@" || hasPrefix expr "G@" || hasPrefix expr "I@" || hasPrefix expr "L@"

theorem detectType_eq_compound :
    detectType expr = .compound ↔ readsCompound expr = true ∧ isMarked expr = false := by
  have cases : detectType expr =
      if hasPrefix expr "E@" then .pcre else if hasPrefix expr "G@" then .fact
      else if hasPrefix expr "I@" then .settings else if hasPrefix expr "L@" then .list
      else if readsCompound expr then .compound else .glob := rfl
  rw [cases, isMarked]
  cases hasPrefix expr "E@" <;> cases hasPrefix expr "G@" <;> cases hasPrefix expr "I@" <;>
    cases hasPrefix expr "L@" <;> simp

theorem newMatcher_eq_ok :
    newMatcher lib expr .compound = .ok accepts ↔ ∃ m, parseCompound lib expr = .ok m ∧
      accepts = m.accepts lib := by
  cases parsed : parseCompound lib expr <;> simp [newMatcher, parsed, Except.map, eq_comm]

section
variable (made : newMatcher lib expr tt = .ok accepts)
include made

end

end Zester.Target
