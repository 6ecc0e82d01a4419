import Zester.States.LevelProofs

/-! How far failures spread: a failed state holds back its direct dependents only. -/
namespace Zester.States
open Layering List

variable {mode : RunMode}

section
open Run

theorem Leveled.distinct (accepted : Accepted states) (leveled : Leveled states levels) :
    (names levels.flatten).Nodup :=
  (leveled.once.map State.name).nodup_iff.mpr accepted.distinct

theorem Leveled.deps_before (accepted : Accepted states)
    (leveled : Leveled states (done ++ level :: rest))
    (member : s ∈ done.flatten ∨ s ∈ level) (needed : dep ∈ s.reqs.allDeps) :
    dep ∈ names done.flatten := by
  obtain ⟨i, bound, inside⟩ : ∃ i ≤ done.length, s ∈ layer (done ++ level :: rest) i := by
    rcases member with earlier | here
    · obtain ⟨i, inside⟩ := mem_flatten_iff_layer.mp earlier
      have bound : i < done.length := by
        by_contra outside
        rw [layer, getD_eq_default _ _ (Nat.le_of_not_lt outside)] at inside
        contradiction
      exact ⟨i, bound.le, by rwa [layer, getD_append _ _ _ _ bound]⟩
    · exact ⟨done.length, le_rfl, by simpa [layer] using here⟩
  have listed : s ∈ states := leveled.once.mem_iff.mp (mem_flatten_iff_layer.mpr ⟨i, inside⟩)
  obtain ⟨t, known, rfl⟩ := mem_map.mp (accepted.closed s listed dep needed)
  obtain ⟨j, lower, found⟩ := leveled.below inside known ⟨s, listed, rfl, needed⟩
  refine mem_map_of_mem (mem_flatten_iff_layer.mpr ⟨j, ?_⟩)
  rwa [layer, getD_append _ _ _ _ (by omega)] at found

/-- A require or watch edge from `a` to the state `c` that declares it. -/
def Feeds (states : List State) (a c : String) : Prop :=
  ∃ s ∈ states, s.name = c ∧ (a ∈ s.reqs.require ∨ a ∈ s.reqs.watch)

/-- Failures propagate: a state that a failed one reaches by require and watch
edges is not executed, and it is reported as skipped. -/
def Propagates (states : List State) (r : Run) : Prop :=
  ∀ a failure, r.result.states.lookup a = some failure → failure.error ≠ "" →
    ∀ c, Relation.TransGen (Feeds states) a c →
      c ∉ r.executed ∧ ∃ sr, r.result.states.lookup c = some sr ∧ sr.skipped = true

/-- A skipped state that a failure holds back: a require or watch dependency of
it failed or is held back itself. -/
inductive HeldBack (states : List State) (r : Run) : String → Prop
  | failed {a c : String} {sr : StateResult} (skipped : r.result.states.lookup c = some sr)
      (mark : sr.skipped = true) (edge : Feeds states a c) (failure : a ∈ r.failed) :
      HeldBack states r c
  | behind {b c : String} {sr : StateResult} (skipped : r.result.states.lookup c = some sr)
      (mark : sr.skipped = true) (edge : Feeds states b c) (held : HeldBack states r b) :
      HeldBack states r c

/-- The condition on one level, in the moment before it: no state that the
requisites and the prereq gate let run has a require or watch dependency that a
failure holds back. -/
def RunsClear (states : List State) (env : Outcomes) (d : DAG) (mode : RunMode) (r : Run) (i : Nat)
    (level : DAG.Level) : Prop :=
  r.halted env i = false → ∀ s ∈ r.launched env d mode level, ∀ b, Feeds states b s.name →
    ¬ HeldBack states r b

theorem Feeds.needed (accepted : Accepted states) (listed : s ∈ states)
    (edge : Feeds states a s.name) : a ∈ s.reqs.require ∨ a ∈ s.reqs.watch := by
  obtain ⟨t, member, same, edge⟩ := edge
  rwa [← accepted.same_state member listed same]

theorem Feeds.mem_allDeps (accepted : Accepted states) (listed : s ∈ states)
    (edge : Feeds states a s.name) : a ∈ s.reqs.allDeps := by
  rw [Requisites.mem_allDeps]
  rcases edge.needed accepted listed with h | h
  · exact .inl h
  · exact .inr (.inl h)

theorem HeldBack.source (held : HeldBack states r c) :
    ∃ a ∈ r.failed, Relation.TransGen (Feeds states) a c := by
  induction held with
  | failed _ _ edge failure => exact ⟨_, failure, .single edge⟩
  | behind _ _ edge _ ih =>
    obtain ⟨a, failure, path⟩ := ih
    exact ⟨a, failure, path.tail edge⟩

theorem HeldBack.settled (accepted : Accepted states)
    (leveled : Leveled states (done ++ level :: rest))
    (held : HeldBack states (reached env d mode (done ++ level :: rest)) c)
    (past : c ∈ names done.flatten) : HeldBack states (reached env d mode done) c := by
  have agree : ∀ {x}, x ∈ names done.flatten →
      Agree (reached env d mode done) (reached env d mode (done ++ level :: rest)) x :=
    fun inside => reached_agree (leveled.distinct accepted) inside
  have before : ∀ {a c}, c ∈ names done.flatten → Feeds states a c → a ∈ names done.flatten := by
    intro a c past edge
    obtain ⟨s, member, rfl⟩ := mem_map.mp past
    have listed : s ∈ states := leveled.once.mem_iff.mp (by simp [member])
    exact leveled.deps_before accepted (.inl member) (edge.mem_allDeps accepted listed)
  induction held with
  | failed skipped mark edge failure =>
    exact .failed ((agree past).result ▸ skipped) mark edge
      ((agree (before past edge)).failed.mp failure)
  | behind skipped mark edge _ ih =>
    exact .behind ((agree past).result ▸ skipped) mark edge (ih (before past edge))

theorem reached_reports (accepted : Accepted states) (leveled : Leveled states levels)
    (listed : s ∈ states) : ∃ sr, Reports (reached env d mode levels) s.name sr := by
  obtain ⟨level, inside, member⟩ := mem_flatten.mp (leveled.once.mem_iff.mpr listed)
  obtain ⟨done, rest, rfl⟩ := append_of_mem inside
  exact ⟨_, (reached_level (leveled.distinct accepted) member).1⟩

theorem reports_of_lookup (accepted : Accepted states) (leveled : Leveled states levels)
    (stored : (reached env d mode levels).result.states.lookup x = some sr) :
    Reports (reached env d mode levels) x sr := by
  have inside : x ∈ names levels.flatten := by
    by_contra absent
    have untouched : Untouched (reached env d mode levels) x := reached_untouched absent
    simp [untouched.result] at stored
  obtain ⟨s, member, rfl⟩ := mem_map.mp inside
  obtain ⟨found, reports⟩ : ∃ sr, Reports (reached env d mode levels) s.name sr :=
    reached_reports accepted leveled (leveled.once.mem_iff.mp member)
  cases reports.result.symm.trans stored
  exact reports

variable (forward : mode ≠ .revert) (accepted : Accepted states)
  (leveled : Leveled states levels)
include forward accepted leveled

section
variable (clear : ∀ done level rest, levels = done ++ level :: rest →
  RunsClear states env d mode (reached env d mode done) done.length level)
include clear

/-- With every level clear, no executed state has a failure or a state held back
among its require and watch dependencies. -/
theorem executed_clear (listed : s ∈ states) (edge : Feeds states b s.name)
    (executed : s.name ∈ (reached env d mode levels).executed) :
    b ∉ (reached env d mode levels).failed ∧ ¬ HeldBack states (reached env d mode levels) b := by
  obtain ⟨level, inside, member⟩ := mem_flatten.mp (leveled.once.mem_iff.mpr listed)
  obtain ⟨done, rest, rfl⟩ := append_of_mem inside
  obtain ⟨_, launch⟩ := reached_level (leveled.distinct accepted) member
  obtain ⟨going, launched⟩ := launch.mp executed
  have past : b ∈ names done.flatten :=
    leveled.deps_before accepted (.inr member) (edge.mem_allDeps accepted listed)
  constructor
  · intro failure
    obtain ⟨_, force, runs⟩ := mem_launched.mp launched
    exact verdict_exec_clear forward runs (edge.needed accepted listed)
      ((reached_agree (leveled.distinct accepted) past).failed.mp failure)
  · intro held
    exact clear done level rest rfl going s launched b edge (held.settled accepted leveled past)

theorem propagates_of_clear : Propagates states (reached env d mode levels) := by
  intro a failure stored error c path
  -- along the path every state is held back, so the next one is not executed
  suffices held : ∀ c, Relation.TransGen (Feeds states) a c →
      c ∉ (reached env d mode levels).executed ∧ HeldBack states (reached env d mode levels) c by
    obtain ⟨idle, held⟩ := held c path
    exact ⟨idle, by cases held <;> exact ⟨_, ‹_›, ‹_›⟩⟩
  have failed : a ∈ (reached env d mode levels).failed :=
    (reports_of_lookup accepted leveled stored).failed.mpr error
  have report : ∀ {s : State}, s ∈ states → ∃ sr, Reports (reached env d mode levels) s.name sr :=
    fun listed => reached_reports accepted leveled listed
  intro c path
  induction path with
  | single edge =>
    obtain ⟨s, listed, rfl, _⟩ := id edge
    obtain ⟨sr, reports⟩ := report listed
    have idle : s.name ∉ (reached env d mode levels).executed := fun executed =>
      (executed_clear forward accepted leveled clear listed edge executed).1 failed
    exact ⟨idle, .failed reports.result (reports.skipped_of_idle idle) edge failed⟩
  | tail _ edge ih =>
    obtain ⟨s, listed, rfl, _⟩ := id edge
    obtain ⟨sr, reports⟩ := report listed
    have idle : s.name ∉ (reached env d mode levels).executed := fun executed =>
      (executed_clear forward accepted leveled clear listed edge executed).2 ih.2
    exact ⟨idle, .behind reports.result (reports.skipped_of_idle idle) edge ih.2⟩

end

omit forward in
theorem clear_of_propagates (propagates : Propagates states (reached env d mode levels))
    (split : levels = done ++ level :: rest) :
    RunsClear states env d mode (reached env d mode done) done.length level := by
  subst split
  intro going s launched b edge held
  have member := (mem_launched.mp launched).1
  obtain ⟨a, failure, path⟩ := held.source
  have past : a ∈ names done.flatten := by
    by_contra absent
    exact (reached_untouched absent).failed failure
  have failed : a ∈ (reached env d mode (done ++ level :: rest)).failed :=
    (reached_agree (leveled.distinct accepted) past).failed.mpr failure
  obtain ⟨t, inside, rfl⟩ := mem_map.mp past
  obtain ⟨sr, reports⟩ : ∃ sr, Reports (reached env d mode (done ++ level :: rest)) t.name sr :=
    reached_reports accepted leveled (leveled.once.mem_iff.mp (by simp [inside]))
  obtain ⟨_, launch⟩ := reached_level (leveled.distinct accepted) member
  exact (propagates _ sr reports.result (reports.failed.mp failed) s.name (path.tail edge)).1
    (launch.mpr ⟨going, launched⟩)

omit leveled in
/-- Where every state also declares what its require and watch dependencies need, a failure
holds back each state by itself. -/
theorem runsClear_of_transitive
    (transitive : ∀ a b c, Feeds states a b → Feeds states b c → Feeds states a c)
    (listed : level ⊆ states) : RunsClear states env d mode r i level := by
  intro going s launched b edge held
  obtain ⟨a, failure, path⟩ := held.source
  have direct : Feeds states a s.name :=
    (path.tail edge).trans_induction_on id fun _ _ first second => transitive _ _ _ first second
  obtain ⟨member, force, runs⟩ := mem_launched.mp launched
  exact verdict_exec_clear forward runs (direct.needed accepted (listed member)) failure

end

theorem runTracked_ok (built : newDAG it states = .ok d)
    (resolved : d.resolve it = .ok levels) :
    Runner.runTracked it env states mode =
      .ok (Run.reached env d mode (Runner.orderLevels mode levels)) := by
  simp only [Runner.runTracked, built, Except.mapError, bind, Except.bind, resolved]
  rfl

theorem runTracked_forward (forward : mode ≠ .revert) (built : newDAG it states = .ok d)
    (resolved : d.resolve it = .ok levels) :
    Runner.runTracked it env states mode = .ok (Run.reached env d mode levels) := by
  rw [runTracked_ok built resolved, Runner.orderLevels, if_neg forward]

theorem Accepted.resolves (accepted : Accepted states) (it : Ranging)
    (acyclic : Acyclic (DependsOn states)) :
    ∃ d levels, newDAG it states = .ok d ∧ d.resolve it = .ok levels ∧ Leveled states levels := by
  obtain ⟨d, built⟩ := newDAG_exists it accepted
  have rep := (newDAG_ok built).2
  obtain ⟨levels, resolved⟩ := (resolve_iff_acyclic it accepted rep).mpr acyclic
  exact ⟨d, levels, built, resolved, resolve_leveled it accepted rep resolved⟩

/-- In apply and check mode a failure reaches every state behind it by require
and watch edges exactly when no level executes a state whose require or watch
dependency is itself held back by a failure. -/
theorem failure_propagates_iff (it : Ranging) (env : Outcomes) (states : List State)
    (mode : RunMode) (forward : mode ≠ .revert) (distinct : (states.map State.name).Nodup)
    (known : ∀ s ∈ states, ∀ dep ∈ s.reqs.allDeps, dep ∈ states.map State.name)
    (acyclic : Acyclic (DependsOn states)) :
    ∃ d levels r, newDAG it states = .ok d ∧ d.resolve it = .ok levels ∧
      Runner.runTracked it env states mode = .ok r ∧
      (Propagates states r ↔ ∀ done level rest, levels = done ++ level :: rest →
        RunsClear states env d mode (Run.reached env d mode done) done.length level) := by
  have accepted : Accepted states := ⟨distinct, known⟩
  obtain ⟨d, levels, built, resolved, leveled⟩ := accepted.resolves it acyclic
  refine ⟨d, levels, _, built, resolved, runTracked_forward forward built resolved, ?_, ?_⟩
  · intro propagates done level rest split
    exact clear_of_propagates accepted leveled propagates split
  · exact propagates_of_clear forward accepted leveled

def firstFails : Outcomes where
  check name _ := if name = "a" then .error "exit status 1" else .ok { needsChange := true }
  apply _ _ _ := .ok { changed := true }
  revert _ _ := .ok { changed := true }
  prereqCheck _ _ := .ok { needsChange := true }

theorem acyclic_of_resolve (accepted : Accepted states) (built : newDAG .listed states = .ok d)
    (resolved : d.resolve .listed = .ok levels) : Acyclic (DependsOn states) :=
  (resolve_iff_acyclic .listed accepted (newDAG_ok built).2).mp ⟨levels, resolved⟩

/-- The third state requires both others, so that a failure of the first holds it back. -/
def requireBoth : List State :=
  [{ name := "a" }, { name := "b", reqs := { require := ["a"] } },
    { name := "c", reqs := { require := ["a", "b"] } }]

theorem failure_propagates_iff_both :
    ∃ r, Runner.runTracked .listed firstFails requireBoth .apply = .ok r ∧
      Propagates requireBoth r := by
  have accepted : Accepted requireBoth := ⟨by decide, by decide⟩
  have acyclic : Acyclic (DependsOn requireBoth) := acyclic_of_resolve accepted rfl rfl
  obtain ⟨d, levels, r, built, resolved, ran, propagates⟩ := failure_propagates_iff .listed
    firstFails requireBoth .apply (by decide) accepted.distinct accepted.closed acyclic
  refine ⟨r, ran, propagates.mpr fun done level rest split => ?_⟩
  have leveled := resolve_leveled .listed accepted (newDAG_ok built).2 resolved
  refine runsClear_of_transitive (by decide) accepted ?_ fun s member =>
    leveled.once.mem_iff.mp (by simp [split, member])
  rintro a b c ⟨s, first, rfl, edge⟩ ⟨t, second, rfl, edge'⟩
  refine ⟨t, second, rfl, ?_⟩
  simp only [requireBoth, mem_cons, not_mem_nil, or_false] at first second
  rcases first with rfl | rfl | rfl <;> rcases second with rfl | rfl | rfl <;> simp_all

/-- A chain of two require edges; the third state does not name the first. -/
def requireChain : List State :=
  [{ name := "a" }, { name := "b", reqs := { require := ["a"] } },
    { name := "c", reqs := { require := ["b"] } }]

theorem requireChain_acyclic : Acyclic (DependsOn requireChain) :=
  acyclic_of_resolve ⟨by decide, by decide⟩ rfl rfl

/-- The first state fails and the second is skipped, but the third, which the
failure reaches through the second, is executed. -/
theorem failure_stops_at_skipped : Acyclic (DependsOn requireChain) ∧
      ∃ r, Runner.runTracked .listed firstFails requireChain .apply = .ok r ∧
        ¬ Propagates requireChain r := by
  refine ⟨requireChain_acyclic, _, rfl, fun propagates => ?_⟩
  have path : Relation.TransGen (Feeds requireChain) "a" "c" :=
    .tail (.single ⟨_, .tail _ (.head _), rfl, .inl (by decide)⟩)
      ⟨_, .tail _ (.tail _ (.head _)), rfl, .inl (by decide)⟩
  exact (propagates "a" { name := "a", error := "exit status 1" } rfl (by decide) "c" path).1
    (by decide)

end Zester.States
