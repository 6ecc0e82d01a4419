import Mathlib.Data.List.TakeWhile
import Zester.Compiler.InjectionProofs

/-! What the rewriting of requisites does to any set of declarations: each reference that is
injected comes to the state that its target is cut into, and a state that is not declared is made
for it. -/
namespace Zester.Compiler
open States List AList

variable {it : Ranging} {states : MergedStates}

theorem splitRef_ok (cut : splitRef ref = .ok k) : k.ref = ref ∧ ':' ∉ k.id.toList := by
  unfold splitRef at cut
  dsimp only at cut
  have whole :=
    takeWhile_append_dropWhile (p := fun c => decide (c ≠ ':')) (l := ref.toList.reverse)
  split at cut
  · cases cut
  rename_i colon rest behind
  cases cut
  have separator : colon = ':' := by
    have head := head?_dropWhile_not (fun c => decide (c ≠ ':')) ref.toList.reverse
    rw [behind] at head
    simpa using head
  refine ⟨?_, ?_⟩
  · rw [behind, separator] at whole
    have back := congrArg reverse whole
    rw [reverse_append, reverse_cons, reverse_reverse] at back
    rw [← String.toList_inj, ref_toList]
    simpa using back
  · intro inside
    have member := mem_takeWhile_imp (mem_reverse.mp (by simpa using inside))
    simp at member

theorem splitRef_exists (colon : ':' ∈ ref.toList) : ∃ k, splitRef ref = .ok k := by
  unfold splitRef
  dsimp only
  split
  · rename_i none
    have all := dropWhile_eq_nil_iff.mp none ':' (mem_reverse.mpr colon)
    simp at all
  · exact ⟨_, rfl⟩

theorem splitRef_ref_exists (a : StateKey) : ∃ k, splitRef a.ref = .ok k :=
  splitRef_exists (by simp [ref_toList])

/-- What a rewriting step does: under every forward key of every state the references `added` come
to the first sheet, a state with such a reference is there afterwards, and the names lists stay. -/
structure Rewritten (added : StateKey → String → String → Prop) (states out : MergedStates) :
    Prop where
  keys : ∀ k, k ∈ out ↔ k ∈ states ∨ ∃ key ∈ forwardKeys, ∃ ref, added k key ref
  grown : ∀ k, ∀ key ∈ forwardKeys,
    Grown (added k key) (sheets (states.args k) key) (sheets (out.args k) key)
  names : ∀ k, settings (out.args k) "names" = settings (states.args k) "names"

namespace Rewritten

theorem refl (states : MergedStates) : Rewritten (fun _ _ _ => False) states states :=
  ⟨fun _ => by simp, fun _ _ _ => .refl _, fun _ => rfl⟩

theorem trans (first : Rewritten added states mid) (second : Rewritten more mid out) :
    Rewritten (fun k key ref => added k key ref ∨ more k key ref) states out := by
  refine ⟨fun k => ?_, fun k key forward => (first.grown k key forward).trans
    (second.grown k key forward), fun k => (second.names k).trans (first.names k)⟩
  rw [second.keys, first.keys, or_assoc]
  simp only [and_or_left, exists_or]

section
variable (rewritten : Rewritten added states out)
include rewritten

theorem congr
    (same : ∀ k, ∀ key ∈ forwardKeys, ∀ ref, added k key ref ↔ more k key ref) :
    Rewritten more states out := by
  refine ⟨fun k => ?_, fun k key forward =>
    (rewritten.grown k key forward).congr (same k key forward), rewritten.names⟩
  rw [rewritten.keys]
  refine or_congr_right (exists_congr fun key => and_congr_right fun forward =>
    exists_congr fun ref => ?_)
  exact same k key forward ref

theorem declared (forward : key ∈ forwardKeys) :
    DeclaredRef (out.args k) key ref ↔ DeclaredRef (states.args k) key ref ∨ added k key ref := by
  rw [← mem_sheets, ← mem_sheets]
  exact (rewritten.grown k key forward).mem_iff

theorem injected
    (declared : ∀ k, ∀ key ∈ forwardKeys, ∀ ref, added k key ref → k ∈ states) :
    Injected added states out := by
  refine ⟨fun k => (rewritten.keys k).trans (or_iff_left_of_imp ?_), rewritten.grown⟩
  rintro ⟨key, forward, ref, here⟩
  exact declared k key forward ref here

end

end Rewritten

theorem args_insert (states : MergedStates) (k j : StateKey) (args : List Config) :
    MergedStates.args (states.insert k args) j = if j = k then args else states.args j := by
  unfold MergedStates.args
  by_cases same : j = k
  · subst same
    simp
  · rw [if_neg same, lookup_insert_ne same]

theorem injectRequisite_rewrites (states : MergedStates) (k : StateKey)
    (forward : key ∈ forwardKeys) (ref : String) :
    Rewritten (fun j other found => j = k ∧ other = key ∧ found = ref) states
      (injectRequisite states k key [ref]) := by
  refine ⟨fun j => ?_, fun j other _ => ?_, fun j => ?_⟩
  · rw [injectRequisite, mem_insert, or_comm]
    refine or_congr_right ⟨fun same => ⟨key, forward, ref, same, rfl, rfl⟩, ?_⟩
    rintro ⟨-, -, -, same, -⟩
    exact same
  · rw [injectRequisite, args_insert]
    by_cases here : j = k
    · subst here
      rw [if_pos rfl]
      by_cases same : other = key
      · subst same
        exact (injectArgs_sheets [ref] _).congr fun ref => by simp
      · rw [sheets, sheets, injectArgs_other same]
        exact (Grown.refl _).congr fun ref => by simp [same]
    · rw [if_neg here]
      exact (Grown.refl _).congr fun ref => by simp [here]
  · have other : "names" ≠ key := by
      rintro rfl
      revert forward
      decide
    rw [injectRequisite, args_insert]
    split
    · rename_i same
      rw [injectArgs_other other, same]
    · rfl

theorem injectTargets_rewrites (what srcRef : String) (forward : fwdKey ∈ forwardKeys)
    (targets : List String)
    (cut : ∀ target ∈ targets, ∃ k, splitRef target = .ok k) (states : MergedStates) :
    ∃ out, injectTargets what fwdKey srcRef states targets = .ok out ∧
      Rewritten (fun k key ref => key = fwdKey ∧ ref = srcRef ∧
        ∃ target ∈ targets, splitRef target = .ok k) states out := by
  induction targets generalizing states with
  | nil => exact ⟨states, rfl, (Rewritten.refl states).congr (by simp)⟩
  | cons target targets ih =>
    obtain ⟨⟨b, split⟩, later⟩ := forall_mem_cons.mp cut
    have step := injectRequisite_rewrites states b forward srcRef
    obtain ⟨out, done, rest⟩ := ih later (injectRequisite states b fwdKey [srcRef])
    refine ⟨out, by simpa only [injectTargets,
      split] using done, (step.trans rest).congr fun k key _ ref => ?_⟩
    simp only [mem_cons, or_and_right, exists_or, exists_eq_left, split, Except.ok.injEq]
    tauto

theorem injectPending_rewrites (what : String) (pending : List Pending)
    (forward : ∀ p ∈ pending, p.fwdKey ∈ forwardKeys)
    (cut : ∀ p ∈ pending, ∀ target ∈ p.targets, ∃ k, splitRef target = .ok k)
    (states : MergedStates) : ∃ out, injectPending what states pending = .ok out ∧
      Rewritten (fun k key ref => ∃ p ∈ pending, key = p.fwdKey ∧ ref = p.srcRef ∧
        ∃ target ∈ p.targets, splitRef target = .ok k) states out := by
  induction pending generalizing states with
  | nil => exact ⟨states, rfl, (Rewritten.refl states).congr (by simp)⟩
  | cons p pending ih =>
    obtain ⟨here, forward⟩ := forall_mem_cons.mp forward
    obtain ⟨first, later⟩ := forall_mem_cons.mp cut
    obtain ⟨mid, injected, step⟩ := injectTargets_rewrites what p.srcRef here p.targets first states
    obtain ⟨out, done, rest⟩ := ih forward later mid
    refine ⟨out, ?_, (step.trans rest).congr fun k key _ ref => by simp⟩
    rw [injectPending, injected]
    exact done

theorem insert_keys (member : k ∈ states) (args : List Config) (j : StateKey) :
    j ∈ states.insert k args ↔ j ∈ states := by
  rw [mem_insert]
  exact ⟨fun h => h.elim (fun same => same ▸ member) id, .inr⟩

theorem foldl_insert_args (f : List Config → List Config) (keys : List StateKey)
    (distinct : keys.Nodup) (states : MergedStates) (j : StateKey) :
    MergedStates.args (keys.foldl (fun states k => states.insert k (f (states.args k))) states) j =
      if j ∈ keys then f (states.args j) else states.args j := by
  induction keys generalizing states with
  | nil => simp
  | cons k keys ih =>
    obtain ⟨fresh, distinct⟩ := nodup_cons.mp distinct
    rw [foldl_cons, ih distinct, args_insert]
    by_cases same : j = k
    · subst same
      simp [fresh]
    · simp [same]

theorem foldl_insert_keys (f : MergedStates → StateKey → List Config) (keys : List StateKey)
    (known : ∀ k ∈ keys, k ∈ states) (j : StateKey) :
    j ∈ keys.foldl (fun states k => states.insert k (f states k)) states ↔ j ∈ states := by
  induction keys generalizing states with
  | nil => rfl
  | cons k keys ih =>
    obtain ⟨member, known⟩ := forall_mem_cons.mp known
    have kept := insert_keys member (f states k)
    rw [foldl_cons, ih fun i inside => (kept i).mpr (known i inside), kept]

theorem args_of_not_mem (absent : k ∉ states) : states.args k = [] := by
  rw [MergedStates.args, lookup_eq_none.mpr absent, Option.getD_none]

theorem aliasStates_args (states : MergedStates) (j : StateKey) :
    (aliasStates it states).args j = aliasArgs (states.args j) := by
  have distinct : (it.order [0] states.keys).Nodup := (it.nodup_order _).mpr states.keys_nodup
  rw [aliasStates, foldl_insert_args aliasArgs _ distinct]
  split
  · rfl
  · rename_i absent
    rw [args_of_not_mem fun member => absent ((it.mem_order _).mpr (mem_keys.mp member))]
    rfl

theorem aliasStates_other (states : MergedStates) (unlisten : key ≠ "listen")
    (unwatch : key ≠ "watch") :
    settings ((aliasStates it states).args k) key = settings (states.args k) key := by
  rw [aliasStates_args]
  exact (aliasArgs_spec (states.args k)).1 key unlisten unwatch

theorem aliasStates_keys (states : MergedStates) (j : StateKey) :
    j ∈ aliasStates it states ↔ j ∈ states := by
  refine foldl_insert_keys (fun states k => aliasArgs (states.args k)) _ (fun k inside => ?_) j
  exact mem_keys.mpr ((it.mem_order _).mp inside)

theorem declared_mem (declared : DeclaredRef (states.args k) key ref) : k ∈ states := by
  by_contra absent
  rw [args_of_not_mem absent] at declared
  simp [DeclaredRef] at declared

theorem aliasStates_rewrites (states : MergedStates) :
    Rewritten (fun k key ref => key = "watch" ∧ DeclaredRef (states.args k) "listen" ref) states
      (aliasStates it states) := by
  refine ⟨fun k => ?_, fun k key forward => ?_,
    fun k => aliasStates_other states (by decide) (by decide)⟩
  · rw [aliasStates_keys]
    refine (or_iff_left_of_imp ?_).symm
    rintro ⟨-, -, ref, -, declared⟩
    exact declared_mem declared
  · by_cases same : key = "watch"
    · subst same
      rw [aliasStates_args]
      exact (aliasArgs_spec (states.args k)).2.congr fun ref => by simp
    · have unlisten : key ≠ "listen" := by
        rintro rfl
        revert forward
        decide
      rw [sheets, sheets, aliasStates_other states unlisten same]
      exact (Grown.refl _).congr fun ref => by simp [same]

theorem inverseForward_eq : inverseForward =
    [("listen_in", "watch"), ("require_in", "require"), ("watch_in", "watch"),
      ("onchanges_in", "onchanges"), ("onfail_in", "onfail"), ("prereq_in", "prereq")] := by
  decide

def inverseKeys : List String := inverseForward.map Prod.fst

theorem takeInverse_spec (srcRef : String) (entries : List (String × String))
    (distinct : (entries.map Prod.fst).Nodup) (taken : Config × List Pending) :
    (∀ key, key ∉ entries.map Prod.fst →
      (entries.foldl (takeInverse srcRef) taken).1.lookup key = taken.1.lookup key) ∧
    ∀ p, p ∈ (entries.foldl (takeInverse srcRef) taken).2 ↔
      p ∈ taken.2 ∨ ∃ entry ∈ entries, ∃ v, taken.1.lookup entry.1 = some v ∧
        p = ⟨entry.2, srcRef, parseReqEntries v⟩ := by
  induction entries generalizing taken with
  | nil => simp
  | cons entry entries ih =>
    obtain ⟨fresh, distinct⟩ := nodup_cons.mp distinct
    obtain ⟨kept, noted⟩ := ih distinct (takeInverse srcRef taken entry)
    have other : ∀ key, key ≠ entry.1 →
        (takeInverse srcRef taken entry).1.lookup key = taken.1.lookup key := by
      intro key different
      unfold takeInverse
      split
      · exact lookup_erase_ne different
      · rfl
    have here : ∀ p, p ∈ (takeInverse srcRef taken entry).2 ↔ p ∈ taken.2 ∨
        ∃ v, taken.1.lookup entry.1 = some v ∧ p = ⟨entry.2, srcRef, parseReqEntries v⟩ := by
      intro p
      unfold takeInverse
      cases found : taken.1.lookup entry.1 <;> simp
    constructor
    · intro key absent
      simp only [map_cons, mem_cons, not_or] at absent
      obtain ⟨different, absent⟩ := absent
      rw [foldl_cons, kept key absent, other key different]
    · intro p
      simp only [foldl_cons, noted, here, mem_cons, or_and_right, exists_or,
        exists_eq_left, or_assoc]
      refine or_congr_right (or_congr_right (exists_congr fun e => ?_))
      refine and_congr_right fun member => ?_
      rw [other e.1 fun same => fresh (same ▸ mem_map_of_mem member)]

theorem takeArgs_spec (loop : List Nat) (srcRef : String) (i : Nat) (args : List Config) :
    (∀ key, key ∉ inverseKeys →
      settings (takeArgs it loop srcRef i args).1 key = settings args key) ∧
    ∀ p, p ∈ (takeArgs it loop srcRef i args).2 ↔
      ∃ entry ∈ inverseForward, ∃ v ∈ settings args entry.1,
        p = ⟨entry.2, srcRef, parseReqEntries v⟩ := by
  induction args generalizing i with
  | nil => simp [takeArgs, settings]
  | cons arg args ih =>
    obtain ⟨keptRest, notedRest⟩ := ih (i + 1)
    have perm := (it.perm (i :: loop) inverseForward).map Prod.fst
    have distinct : (inverseForward.map Prod.fst).Nodup := by decide
    obtain ⟨kept, noted⟩ := takeInverse_spec srcRef (it.order (i :: loop) inverseForward)
      (perm.nodup_iff.mpr distinct) (arg, [])
    constructor
    · intro key absent
      have same := kept key fun h => absent (perm.mem_iff.mp h)
      have rest := keptRest key absent
      simp only [settings] at rest
      simp only [takeArgs, settings, filterMap_cons, same, rest]
    · intro p
      have split : ∀ key v, v ∈ settings (arg :: args) key ↔ arg.lookup key = some v ∨
          v ∈ settings args key := by
        simp [settings]
      simp only [takeArgs, mem_append, noted, notedRest, split, Ranging.mem_order, not_mem_nil,
        false_or, or_and_right, and_or_left, exists_or]

theorem takeStates_spec (i : Nat) (keys : List StateKey) (distinct : keys.Nodup)
    (known : ∀ k ∈ keys, k ∈ states) :
    (∀ k, k ∈ (takeStates it i states keys).1 ↔ k ∈ states) ∧
    (∀ k, ∀ key ∉ inverseKeys,
      settings ((takeStates it i states keys).1.args k) key = settings (states.args k) key) ∧
    ∀ p, p ∈ (takeStates it i states keys).2 ↔
      ∃ k ∈ keys, ∃ entry ∈ inverseForward, ∃ v ∈ settings (states.args k) entry.1,
        p = ⟨entry.2, k.ref, parseReqEntries v⟩ := by
  induction keys generalizing states i with
  | nil => simp [takeStates]
  | cons k keys ih =>
    obtain ⟨fresh, distinct⟩ := nodup_cons.mp distinct
    obtain ⟨member, known⟩ := forall_mem_cons.mp known
    let taken := takeArgs it [i, 1] k.ref 0 (states.args k)
    have kept := insert_keys member taken.1
    obtain ⟨keptArgs, noted⟩ := @takeArgs_spec it [i, 1] k.ref 0 (states.args k)
    obtain ⟨keysRest, argsRest, notedRest⟩ := ih (i + 1) distinct
      fun j inside => (kept j).mpr (known j inside)
    refine ⟨fun j => (keysRest j).trans (kept j), fun j key absent => ?_, fun p => ?_⟩
    · rw [takeStates, argsRest j key absent, args_insert]
      split
      · rename_i same
        rw [same]
        exact keptArgs key absent
      · rfl
    · simp only [takeStates, mem_append, noted, mem_cons, or_and_right, exists_or,
        exists_eq_left]
      refine or_congr_right ((notedRest p).trans
        (exists_congr fun j => and_congr_right fun inside => ?_))
      have other : j ≠ k := fun same => fresh (same ▸ inside)
      rw [args_insert, if_neg other]

/-- Step 2, without its injections: forward keys are not touched, and for every
inverse declaration of every state there is a pending injection. -/
theorem takeStates_rewrites (states : MergedStates) :
    Rewritten (fun _ _ _ => False) states (takeStates it 0 states (it.order [1] states.keys)).1 ∧
    ∀ p, p ∈ (takeStates it 0 states (it.order [1] states.keys)).2 ↔
      ∃ k ∈ states, ∃ entry ∈ inverseForward, ∃ v ∈ settings (states.args k) entry.1,
        p = ⟨entry.2, k.ref, parseReqEntries v⟩ := by
  have distinct : (it.order [1] states.keys).Nodup := (it.nodup_order _).mpr states.keys_nodup
  obtain ⟨keys, kept, noted⟩ := @takeStates_spec it states 0 _ distinct
    fun k inside => mem_keys.mpr ((it.mem_order _).mp inside)
  refine ⟨⟨fun k => by simp [keys k], fun k key forward => ?_, fun k => kept k "names" (by decide)⟩,
    fun p => ?_⟩
  · have absent : key ∉ inverseKeys := by
      revert key
      decide
    rw [sheets, sheets, kept k key absent]
    exact .refl _
  · simp only [noted, Ranging.mem_order, AList.mem_keys]

theorem mem_prereqOrders : p ∈ prereqOrders it states ↔
      ∃ k ∈ states, ∃ v ∈ settings (states.args k) "prereq",
        p = ⟨"require", k.ref, parseReqEntries v⟩ := by
  simp only [prereqOrders, mem_flatMap, Ranging.mem_order, AList.mem_keys, mem_filterMap,
    Option.map_eq_some_iff, settings]
  constructor
  · rintro ⟨k, member, arg, inside, v, found, rfl⟩
    exact ⟨k, member, v, ⟨arg, inside, found⟩, rfl⟩
  · rintro ⟨k, member, v, ⟨arg, inside, found⟩, rfl⟩
    exact ⟨k, member, arg, inside, v, found, rfl⟩

/-- What steps 1 and 2 bring to the state `b`: its own `listen` as `watch`, and every state with a
matching inverse declaration whose target is cut into `b`. -/
def InvertedOnto (states : MergedStates) (b : StateKey) (key ref : String) : Prop :=
  (key = "watch" ∧ DeclaredRef (states.args b) "listen" ref) ∨
  ∃ a ∈ states, ref = a.ref ∧ ∃ entry ∈ inverseForward, entry.2 = key ∧
    ∃ target, DeclaredRef (states.args a) entry.1 target ∧ splitRef target = .ok b

/-- What step 3 brings: under `require` every state with a prereq, declared or inverted, whose
target is cut into `b`. -/
def OrderedOnto (states : MergedStates) (b : StateKey) (key ref : String) : Prop :=
  key = "require" ∧ ∃ a, ref = a.ref ∧
    ∃ target, (DeclaredRef (states.args a) "prereq" target ∨
      InvertedOnto states a "prereq" target) ∧ splitRef target = .ok b

/-- Every target has a colon. -/
def Cut (states : MergedStates) : Prop :=
  ∀ a ∈ states, ∀ key ∈ "prereq" :: inverseKeys, ∀ target, DeclaredRef (states.args a) key target →
    ∃ b, splitRef target = .ok b

theorem inverse_mem_forwardKeys : ∀ entry ∈ inverseForward, entry.2 ∈ forwardKeys := by decide

theorem invertedOnto_prereq :
    InvertedOnto states a "prereq" ref ↔
      ∃ c ∈ states, ref = c.ref ∧ ∃ target, DeclaredRef (states.args c) "prereq_in" target ∧
        splitRef target = .ok a := by
  simp [InvertedOnto, inverseForward_eq]

section
variable (cut : Cut states)
include cut

theorem invert_rewrites : ∃ out,
    injectPending "inverse requisite" (takeStates it 0 (aliasStates it states)
          (it.order [1] (aliasStates it states).keys)).1
        (takeStates it 0 (aliasStates it states)
          (it.order [1] (aliasStates it states).keys)).2 = .ok out ∧
      Rewritten (InvertedOnto states) states out := by
  have aliased := @aliasStates_rewrites it states
  obtain ⟨took, noted⟩ := @takeStates_rewrites it (aliasStates it states)
  have plain : ∀ entry ∈ inverseForward, entry.1 ≠ "listen" ∧ entry.1 ≠ "watch" := by decide
  have pending : ∀ p, p ∈ (takeStates it 0 (aliasStates it states)
      (it.order [1] (aliasStates it states).keys)).2 ↔
      ∃ a ∈ states, ∃ entry ∈ inverseForward, ∃ v ∈ settings (states.args a) entry.1,
        p = ⟨entry.2, a.ref, parseReqEntries v⟩ := by
    intro p
    rw [noted]
    refine exists_congr fun a =>
      and_congr (aliasStates_keys states a) (exists_congr fun entry => ?_)
    refine and_congr_right fun inverse => ?_
    rw [aliasStates_other states (plain entry inverse).1 (plain entry inverse).2]
  obtain ⟨out, done, injected⟩ := injectPending_rewrites "inverse requisite" _ (fun p inside => by
      obtain ⟨a, member, entry, inverse, v, set, rfl⟩ := (pending p).mp inside
      exact inverse_mem_forwardKeys entry inverse) (fun p inside target listed => by
      obtain ⟨a, member, entry, inverse, v, set, rfl⟩ := (pending p).mp inside
      exact cut a member entry.1 (mem_cons_of_mem _ (mem_map_of_mem inverse)) target
        (declaredRef_iff.mpr ⟨v, set, listed⟩)) _
  refine ⟨out, done, ((aliased.trans took).trans injected).congr fun b key _ ref => ?_⟩
  simp only [or_false, InvertedOnto, declaredRef_iff]
  refine or_congr_right ?_
  constructor
  · rintro ⟨p, inside, rfl, rfl, target, listed, split⟩
    obtain ⟨a, member, entry, inverse, v, set, rfl⟩ := (pending p).mp inside
    exact ⟨a, member, rfl, entry, inverse, rfl, target, ⟨v, set, listed⟩, split⟩
  · rintro ⟨a, member, rfl, entry, inverse, rfl, target, ⟨v, set, listed⟩, split⟩
    exact ⟨_, (pending _).mpr ⟨a, member, entry, inverse, v, set, rfl⟩, rfl, rfl, target,
      listed, split⟩

theorem transformRequisites_rewrites : ∃ out, transformRequisites it states = .ok out ∧
    Rewritten (fun b key ref => InvertedOnto states b key ref ∨ OrderedOnto states b key ref) states
      out := by
  obtain ⟨inverted, done, rewritten⟩ := @invert_rewrites it states cut
  have prereqs : ∀ {a : StateKey} {ref}, DeclaredRef (inverted.args a) "prereq" ref ↔
      DeclaredRef (states.args a) "prereq" ref ∨ InvertedOnto states a "prereq" ref :=
    rewritten.declared (by decide)
  obtain ⟨out, ordered, last⟩ :=
    injectPending_rewrites "prereq" (prereqOrders it inverted) (fun p inside => by
      obtain ⟨a, member, v, set, rfl⟩ := mem_prereqOrders.mp inside
      exact (by decide : "require" ∈ forwardKeys)) (fun p inside target listed => by
      obtain ⟨a, member, v, set, rfl⟩ := mem_prereqOrders.mp inside
      obtain declared | inverse := prereqs.mp (declaredRef_iff.mpr ⟨v, set, listed⟩)
      · exact cut a (declared_mem declared) "prereq" mem_cons_self target declared
      · obtain ⟨c, -, rfl, -⟩ := invertedOnto_prereq.mp inverse
        exact splitRef_ref_exists c) inverted
  refine ⟨out, ?_, (rewritten.trans last).congr fun b key _ ref => or_congr_right ?_⟩
  · simp only [transformRequisites, done, bind, Except.bind, ordered]
  constructor
  · rintro ⟨p, inside, rfl, rfl, target, listed, split⟩
    obtain ⟨a, member, v, set, rfl⟩ := mem_prereqOrders.mp inside
    exact ⟨rfl, a, rfl, target, prereqs.mp (declaredRef_iff.mpr ⟨v, set, listed⟩), split⟩
  · rintro ⟨rfl, a, rfl, target, asked, split⟩
    have carried := prereqs.mpr asked
    obtain ⟨v, set, listed⟩ := declaredRef_iff.mp carried
    exact ⟨_, mem_prereqOrders.mpr ⟨a, declared_mem carried, v, set, rfl⟩, rfl, rfl, target,
      listed, split⟩

end
end Zester.Compiler
