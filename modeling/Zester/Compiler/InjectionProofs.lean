import Zester.Compiler.MergeProofs

/-! Injected requisites. What a state declares under a key grows by the references that
are injected, map by map. -/
namespace Zester.Compiler
open States List AList

variable {k : StateKey}

/-- The references under a key, map by map. -/
def sheets (args : List Config) (key : String) : List (List String) :=
  (settings args key).map parseReqEntries

theorem mem_sheets : (∃ refs ∈ sheets args key, ref ∈ refs) ↔ DeclaredRef args key ref := by
  simp [sheets, declaredRef_iff]

/-- How injections change the sheets of a key: the references `added` all come to
the first sheet, or to a new one when there was none. -/
inductive Grown (added : String → Prop) : List (List String) → List (List String) → Prop
  | none (nothing : ∀ ref, ¬ added ref) : Grown added [] []
  | new {refs : List String} (exactly : ∀ ref, ref ∈ refs ↔ added ref) : Grown added [] [refs]
  | first {refs grown : List String} {rest : List (List String)}
      (exactly : ∀ ref, ref ∈ grown ↔ ref ∈ refs ∨ added ref) :
      Grown added (refs :: rest) (grown :: rest)

namespace Grown
variable {new : List (List String)}

theorem refl (old : List (List String)) : Grown (fun _ => False) old old := by
  cases old with
  | nil => exact .none (by simp)
  | cons refs rest => exact .first (by simp)

theorem trans (first : Grown added old mid) (second : Grown more mid new) :
    Grown (fun ref => added ref ∨ more ref) old new := by
  cases first with
  | none nothing =>
    cases second with
    | none also => exact .none fun ref => by simp [nothing, also]
    | new exactly => exact .new fun ref => by simp [nothing, exactly]
  | new exactly =>
    cases second with
    | first also => exact .new fun ref => by simp [exactly, also]
  | first exactly =>
    cases second with
    | first also => exact .first fun ref => by simp [exactly, also, or_assoc]

section
variable (grown : Grown added old new)
include grown

theorem congr (same : ∀ ref, added ref ↔ more ref) :
    Grown more old new := by
  have : added = more := funext fun ref => propext (same ref)
  exact this ▸ grown

theorem mem_iff :
    (∃ refs ∈ new, ref ∈ refs) ↔ (∃ refs ∈ old, ref ∈ refs) ∨ added ref := by
  cases grown with
  | none nothing => simp [nothing]
  | new exactly => simp [exactly]
  | first exactly => simp [exactly, or_right_comm]

/-- With one sheet at most, what was added stands in the sheet that is read. -/
theorem last_of_single (single : old.length ≤ 1) :
    ref ∈ (new.getLast?).getD [] ↔ (∃ refs ∈ old, ref ∈ refs) ∨ added ref := by
  cases grown with
  | none nothing => simp [nothing]
  | new exactly => simp [exactly]
  | first exactly =>
    cases length_eq_zero_iff.mp (Nat.le_zero.mp (Nat.le_of_succ_le_succ single))
    simp [exactly]

/-- With several sheets nothing that was added is read. -/
theorem last_of_several (several : ¬ old.length ≤ 1) :
    new.getLast? = old.getLast? := by
  cases grown with
  | none | new => simp at several
  | @first refs head rest exactly =>
    cases rest with
    | nil => simp at several
    | cons next rest => simp [getLast?_cons_cons]

end

end Grown

theorem parse_injected (v : Value) (refs : List String) (ref : String) :
    ref ∈ parseReqEntries (.list (toAnyList v ++ toAnySlice refs)) ↔
      ref ∈ parseReqEntries v ∨ ref ∈ refs := by
  have added : ref ∈ (toAnySlice refs).flatMap parseReqEntry ↔ ref ∈ refs := by
    simp [toAnySlice, parseReqEntry]
  have kept : (toAnyList v).flatMap parseReqEntry = parseReqEntries v := by
    cases v <;> simp [toAnyList, parseReqEntries, parseReqEntry]
  rw [parseReqEntries_list rfl, asList, flatMap_append, mem_append, kept, added]

theorem injectArgs_sheets (refs : List String) (args : List Config) :
    Grown (· ∈ refs) (sheets args key) (sheets (injectArgs key refs args) key) := by
  induction args with
  | nil =>
    have written : sheets (injectArgs key refs []) key =
        [parseReqEntries (.list (toAnySlice refs))] := by
      simp [injectArgs, sheets, settings, singleton_lookup]
    rw [written]
    exact .new fun ref => by simpa [toAnyList, parseReqEntries] using parse_injected .null refs ref
  | cons arg args ih =>
    unfold injectArgs
    cases found : arg.lookup key with
    | none => simpa [sheets, settings, found] using ih
    | some v =>
      simp only [sheets, settings, filterMap_cons, found, lookup_insert, map_cons]
      exact .first (parse_injected v refs)

theorem injectArgs_other (different : other ≠ key) (refs : List String) (args : List Config) :
    settings (injectArgs key refs args) other = settings args other := by
  induction args with
  | nil => simp [injectArgs, settings, singleton_lookup, different.symm]
  | cons arg args ih =>
    unfold injectArgs
    split
    · simp only [settings, filterMap_cons, lookup_insert_ne different]
    · simp only [settings, filterMap_cons] at ih ⊢
      rw [ih]

theorem injectArgs_length (refs : List String) (args : List Config) :
    args.length ≤ (injectArgs key refs args).length := by
  induction args with
  | nil => simp
  | cons arg args ih =>
    unfold injectArgs
    split
    · simp
    · simpa using ih

def entryAt (args : List Config) (i : Nat) (key : String) : Option Value :=
  args[i]?.bind fun arg => arg.lookup key

theorem mem_settings_iff_entryAt :
    v ∈ settings args key ↔ ∃ i < args.length, entryAt args i key = some v := by
  rw [mem_settings]
  constructor
  · rintro ⟨arg, member, found⟩
    obtain ⟨i, bound, rfl⟩ := getElem_of_mem member
    exact ⟨i, bound, by simpa [entryAt, bound] using found⟩
  · rintro ⟨i, bound, found⟩
    exact ⟨args[i], getElem_mem bound, by simpa [entryAt, bound] using found⟩

theorem injectArgs_entryAt (different : other ≠ key) (refs : List String)
    (bound : i < args.length) :
    entryAt (injectArgs key refs args) i other = entryAt args i other := by
  induction args generalizing i with
  | nil => simp at bound
  | cons arg args ih =>
    unfold injectArgs
    split
    · cases i with
      | zero => simp [entryAt, lookup_insert_ne different]
      | succ i => simp [entryAt]
    · cases i with
      | zero => simp [entryAt]
      | succ i => exact ih (Nat.lt_of_succ_lt_succ bound)

theorem erase_settings (different : key ≠ dropped) (found : args[i]? = some arg) :
    settings (args.set i (arg.erase dropped)) key = settings args key := by
  induction args generalizing i with
  | nil => simp at found
  | cons head args ih =>
    cases i with
    | zero =>
      cases found
      simp only [set_cons_zero, settings, filterMap_cons, lookup_erase_ne different]
    | succ i =>
      have rest := ih found
      simp only [settings] at rest
      simp only [set_cons_succ, settings, filterMap_cons, rest]

/-- Where the alias loop stands before its `i`-th turn: the maps ahead still hold
their `listen`, and what those behind held is in the first sheet of `watch`. -/
structure AliasInv (args now : List Config) (i : Nat) : Prop where
  long : args.length ≤ now.length
  ahead : ∀ j, i ≤ j → j < args.length → entryAt now j "listen" = entryAt args j "listen"
  other : ∀ key, key ≠ "listen" → key ≠ "watch" → settings now key = settings args key
  watch :
    Grown (fun ref => ∃ j < i, ∃ v, entryAt args j "listen" = some v ∧ ref ∈ parseReqEntries v)
    (sheets args "watch") (sheets now "watch")

theorem aliasArg_inv (bound : i < args.length) (inv : AliasInv args now i) :
    AliasInv args (aliasArg i now ("listen", "watch")) (i + 1) := by
  have here := inv.ahead i le_rfl bound
  have reached : i < now.length := bound.trans_le inv.long
  obtain ⟨arg, found⟩ : ∃ arg, now[i]? = some arg := ⟨now[i], getElem?_eq_getElem reached⟩
  simp only [entryAt, found, Option.bind_some] at here
  have split : ∀ ref, (∃ j < i + 1, ∃ v, entryAt args j "listen" = some v ∧
      ref ∈ parseReqEntries v) ↔
      (∃ j < i, ∃ v, entryAt args j "listen" = some v ∧ ref ∈ parseReqEntries v) ∨
        ∃ v, entryAt args i "listen" = some v ∧ ref ∈ parseReqEntries v := by
    intro ref
    simp only [Nat.lt_succ_iff_lt_or_eq, or_and_right, exists_or, exists_eq_left]
  unfold aliasArg
  simp only [found]
  cases listens : arg.lookup "listen" with
  | none =>
    rw [listens] at here
    refine ⟨inv.long, fun j later => inv.ahead j (by omega), inv.other, inv.watch.congr ?_⟩
    intro ref
    rw [split]
    simp [entryAt, ← here]
  | some v =>
    rw [listens] at here
    have erased : ∀ {key}, key ≠ "listen" →
        settings (now.set i (arg.erase "listen")) key = settings now key :=
      fun different => erase_settings different found
    refine ⟨?_, ?_, ?_, ?_⟩
    · refine inv.long.trans ?_
      simpa using @injectArgs_length "watch" (parseReqEntries v) (now.set i (arg.erase "listen"))
    · intro j later inside
      have reach : j < (now.set i (arg.erase "listen")).length := by
        have := inv.long
        simp only [length_set]
        omega
      rw [injectArgs_entryAt (by decide) _ reach, ← inv.ahead j (by omega) inside]
      simp only [entryAt, getElem?_set_ne (show i ≠ j by omega)]
    · intro key unlisten unwatch
      rw [injectArgs_other unwatch, erased unlisten, inv.other key unlisten unwatch]
    · have grown := @injectArgs_sheets "watch" (parseReqEntries v) (now.set i (arg.erase "listen"))
      rw [sheets, erased (by decide)] at grown
      refine (inv.watch.trans grown).congr fun ref => ?_
      rw [split]
      simp [entryAt, ← here]

theorem aliasArgs_spec (args : List Config) :
    (∀ key, key ≠ "listen" → key ≠ "watch" → settings (aliasArgs args) key = settings args key) ∧
      Grown (DeclaredRef args "listen") (sheets args "watch")
        (sheets (aliasArgs args) "watch") := by
  have loop : ∀ n ≤ args.length, AliasInv args
      ((range n).foldl (fun args i => sameStateAlias.foldl (aliasArg i) args) args) n := by
    intro n
    induction n with
    | zero =>
      exact fun _ => ⟨le_rfl, fun _ _ _ => rfl, fun _ _ _ => rfl, (Grown.refl _).congr (by simp)⟩
    | succ n ih =>
      intro bound
      rw [range_succ, foldl_append]
      exact aliasArg_inv bound (ih (by omega))
  have final := loop args.length le_rfl
  refine ⟨final.other, final.watch.congr fun ref => ?_⟩
  rw [declaredRef_iff]
  constructor
  · rintro ⟨i, bound, v, found, named⟩
    exact ⟨v, mem_settings_iff_entryAt.mpr ⟨i, bound, found⟩, named⟩
  · rintro ⟨v, set, named⟩
    obtain ⟨i, bound, found⟩ := mem_settings_iff_entryAt.mp set
    exact ⟨i, bound, v, found, named⟩

/-- Neither part of the name holds a colon. -/
def StateKey.ColonFree (k : StateKey) : Prop := ':' ∉ k.module.toList ∧ ':' ∉ k.id.toList

instance (k : StateKey) : Decidable k.ColonFree := inferInstanceAs (Decidable (_ ∧ _))

theorem ref_toList (k : StateKey) : k.ref.toList = k.module.toList ++ ':' :: k.id.toList := by
  simp [StateKey.ref]

theorem splitRef_ref (plain : ':' ∉ k.id.toList) : splitRef k.ref = .ok k := by
  have before : ∀ c ∈ k.id.toList.reverse, decide (c ≠ ':') = true := by
    intro c member
    have : c ≠ ':' := fun same => plain (same ▸ mem_reverse.mp member)
    simpa using this
  simp only [splitRef, ref_toList, reverse_append, reverse_cons, append_assoc,
    singleton_append, dropWhile_append_of_pos before,
    takeWhile_append_of_pos before]
  simp

theorem eq_of_ref_eq (plain : b.ColonFree) (same : k.ref = b.ref) : k = b := by
  have count := congrArg (fun s => s.toList.count ':') same
  simp only [ref_toList, count_append, count_cons_self,
    count_eq_zero_of_not_mem plain.1, count_eq_zero_of_not_mem plain.2] at count
  have free : ':' ∉ k.id.toList := count_eq_zero.mp (by omega)
  have split := splitRef_ref free
  rw [same, splitRef_ref plain.2] at split
  exact (Except.ok.inj split).symm

/-- The reference names a declared state. -/
def Named (states : MergedStates) (ref : String) : Prop :=
  ∃ b ∈ states, b.ColonFree ∧ ref = b.ref

/-- The keys that requisites stand under once they are all forward. -/
def forwardKeys : List String := requisiteKeys ++ ["prereq"]

/-- What a rewriting step may do: the states stay, and under every forward key
of every state the references `added` come to the first sheet. -/
structure Injected (added : StateKey → String → String → Prop) (states out : MergedStates) :
    Prop where
  keys : ∀ k, k ∈ out ↔ k ∈ states
  grown : ∀ k, ∀ key ∈ forwardKeys,
    Grown (added k key) (sheets (states.args k) key) (sheets (out.args k) key)

end Zester.Compiler
