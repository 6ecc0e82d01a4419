import Zester.States.RunnerProofs

/-! A run accounts for every state: one result for each, of one kind at most, and counted once. -/
namespace Zester.States
open Layering Runner List AList

variable {env : Outcomes} {d : DAG} {mode : RunMode} {r : Run}

/-- A result has at most one of the three marks. -/
structure StateResult.Single (sr : StateResult) : Prop where
  skipped : sr.skipped = true → sr.changed = false ∧ sr.error = ""
  changed : sr.changed = true → sr.error = ""

theorem execStateOnce_changed (s : State) (force : Bool) (attempt : Nat) :
    (execStateOnce env s mode force attempt).changed = true →
    (execStateOnce env s mode force attempt).error = "" := by
  unfold execStateOnce
  cases mode <;> dsimp only <;> repeat' split
  all_goals simp

theorem evaluate_single (s : State) (v : Verdict) : (Run.evaluate env mode s v).Single := by
  cases v with
  | skip reason => exact ⟨fun _ => ⟨rfl, rfl⟩, fun changed => by cases changed⟩
  | exec force =>
    refine ⟨fun skipped => ?_, ?_⟩
    · rw [Run.evaluate_exec_skipped] at skipped
      cases skipped
    · exact execState_of_once (P := fun sr => sr.changed = true → sr.error = "")
        (execStateOnce_changed s force)

/-- How many results are of a kind. -/
def RunResult.count (r : RunResult) (kind : StateResult → Bool) : Nat :=
  r.states.entries.countP fun entry => kind entry.2

namespace Run

/-- Every result is of one kind at most, and the counters say how many there are of each. -/
structure Balanced (r : Run) : Prop where
  single : ∀ x sr, r.result.states.lookup x = some sr → sr.name = x ∧ sr.Single
  failed : r.result.failed = r.result.count fun sr => sr.error ≠ ""
  changed : r.result.changed = r.result.count StateResult.changed
  skipped : r.result.skipped = r.result.count StateResult.skipped

theorem collect_balanced (balanced : r.Balanced) (fresh : sr.name ∉ r.result.states)
    (single : sr.Single) : (r.collect s sr).Balanced := by
  have entries := entries_insert_of_notMem (b := sr) fresh
  have counted : ∀ kind, (r.collect s sr).result.count kind =
      r.result.count kind + if kind sr then 1 else 0 := by
    intro kind
    simp only [RunResult.count, collect, entries, countP_cons]
  refine ⟨fun x other found => ?_, ?_, ?_, ?_⟩
  · by_cases same : x = sr.name
    · subst same
      rw [collect, lookup_insert, Option.some.injEq] at found
      exact found ▸ ⟨rfl, single⟩
    · rw [collect, lookup_insert_ne same] at found
      exact balanced.single x other found
  · rw [counted, ← balanced.failed]
    by_cases failed : sr.error = "" <;> simp [collect, failed]
  · rw [counted, ← balanced.changed]
    cases changed : sr.changed <;> simp [collect, changed]
  · rw [counted, ← balanced.skipped]
    cases skipped : sr.skipped <;> simp [collect, skipped]

theorem collectAll_balanced (balanced : r.Balanced)
    (distinct : (results.map fun done => done.2.name).Nodup)
    (fresh : ∀ done ∈ results, done.2.name ∉ r.result.states)
    (single : ∀ done ∈ results, done.2.Single) : (r.collectAll results).Balanced := by
  induction results generalizing r with
  | nil => exact balanced
  | cons done results ih =>
    obtain ⟨new, distinct⟩ := nodup_cons.mp distinct
    obtain ⟨here, fresh⟩ := forall_mem_cons.mp fresh
    obtain ⟨first, single⟩ := forall_mem_cons.mp single
    refine ih (collect_balanced balanced here first) distinct (fun other later stored => ?_) single
    rcases (mem_insert _).mp stored with same | before
    · exact new (mem_map.mpr ⟨other, later, same⟩)
    · exact fresh other later before

theorem levelResult_single (s : State) : (r.levelResult env d mode i s).Single := by
  unfold levelResult
  split
  · exact ⟨fun _ => ⟨rfl, rfl⟩, fun changed => by cases changed⟩
  · exact evaluate_single s _

theorem runLevel_balanced (balanced : r.Balanced) (distinct : (names level).Nodup)
    (fresh : ∀ s ∈ level, s.name ∉ r.result.states) : (r.runLevel env d mode i level).Balanced := by
  obtain ⟨canceled, executed, collects, -⟩ := @runLevel_collects env d mode r i level
  have collected : (r.collected env d mode i level).Balanced := by
    refine collectAll_balanced balanced (collected_names distinct) ?_ ?_
    all_goals
      intro done member
      obtain ⟨s, inside, rfl⟩ := mem_map.mp member
    · rw [levelResult_name]
      exact fresh s (mem_orderLevel.mp inside)
    · exact levelResult_single s
  rw [collects]
  exact ⟨collected.single, collected.failed, collected.changed, collected.skipped⟩

theorem reached_balanced (distinct : (names done.flatten).Nodup) :
    (reached env d mode done).Balanced := by
  induction done using reverseRecOn with
  | nil => exact ⟨fun x sr found => absurd found (by simp [reached, runLevels]), rfl, rfl, rfl⟩
  | append_singleton done level ih =>
    simp only [names, flatten_append, map_append, flatten_cons, flatten_nil, append_nil]
      at distinct
    obtain ⟨before, here, apart⟩ := nodup_append.mp distinct
    rw [reached_snoc]
    refine runLevel_balanced (ih before) here fun s member => ?_
    have absent : s.name ∉ names done.flatten :=
      fun old => apart s.name old s.name (mem_map_of_mem member) rfl
    exact lookup_eq_none.mp (reached_untouched absent).result

end Run

namespace Run
variable {done : List DAG.Level}

theorem collectAll_aborted (results : List (State × StateResult)) :
    (r.collectAll results).aborted =
    (r.aborted || results.any fun done => done.2.error ≠ "" && done.1.failHard) := by
  induction results generalizing r with
  | nil => simp [collectAll]
  | cons done results ih =>
    change ((r.collect done.1 done.2).collectAll results).aborted = _
    rw [ih, collect, any_cons, Bool.or_assoc]

theorem runLevel_aborted_iff : (r.runLevel env d mode i level).aborted = true ↔
    r.aborted = true ∨ ∃ s ∈ level, s.failHard = true ∧
      (r.levelResult env d mode i s).error ≠ "" := by
  obtain ⟨canceled, executed, collects, -⟩ := @runLevel_collects env d mode r i level
  rw [collects]
  change (r.collected env d mode i level).aborted = true ↔ _
  rw [collected, collectAll_aborted, Bool.or_eq_true, any_eq_true]
  refine or_congr_right ?_
  constructor
  · rintro ⟨done, member, fails⟩
    obtain ⟨s, inside, rfl⟩ := mem_map.mp member
    simp only [ne_eq, decide_not, Bool.and_eq_true, Bool.not_eq_true',
      decide_eq_false_iff_not] at fails
    exact ⟨s, mem_orderLevel.mp inside, fails.2, fails.1⟩
  · rintro ⟨s, inside, hard, fails⟩
    exact ⟨_, mem_map_of_mem (mem_orderLevel.mpr inside), by simp [fails, hard]⟩

theorem runLevels_aborted (aborted : r.aborted = true) (levels : List DAG.Level) :
    (r.runLevels env d mode i levels).aborted = true := by
  induction levels generalizing r i with
  | nil => exact aborted
  | cons level levels ih => exact ih (runLevel_aborted_iff.mpr (.inl aborted))

theorem reached_abort (distinct : (names (done ++ level :: rest).flatten).Nodup)
    (member : t ∈ level)
    (hard : t.failHard = true)
    (failed : t.name ∈ (reached env d mode (done ++ level :: rest)).failed)
    (later : s ∈ rest.flatten) :
    (reached env d mode (done ++ level :: rest)).result.states.lookup s.name =
    some { name := s.name, skipped := true, skipReason := "failhard_abort" } := by
  have fails := (reached_level distinct member).1.failed.mp failed
  have aborted : (reached env d mode (done ++ [level])).aborted = true := by
    rw [reached_snoc]
    exact runLevel_aborted_iff.mpr (.inr ⟨t, member, hard, fails⟩)
  obtain ⟨next, inside, here⟩ := mem_flatten.mp later
  obtain ⟨between, after, rfl⟩ := append_of_mem inside
  -- the run is still aborted before the level of the other state
  have split : done ++ level :: (between ++ next :: after) = (done ++ [level] ++ between) ++ next ::
      after := by simp
  have still : (reached env d mode (done ++ [level] ++ between)).aborted = true := by
    rw [reached, runLevels_append]
    exact runLevels_aborted aborted between
  rw [split] at distinct ⊢
  rw [(reached_level distinct here).1.result, levelResult, halted, still, if_pos (Bool.true_or _),
    if_pos rfl]

theorem reached_result (distinct : (names done.flatten).Nodup) (past : x ∈ names done.flatten) :
    ∃ sr, (reached env d mode done).result.states.lookup x = some sr := by
  obtain ⟨s, member, rfl⟩ := mem_map.mp past
  obtain ⟨level, inside, here⟩ := mem_flatten.mp member
  obtain ⟨before, after, rfl⟩ := append_of_mem inside
  exact ⟨_, (reached_level distinct here).1.result⟩

end Run

theorem orderLevels_perm (levels : List DAG.Level) :
    (orderLevels mode levels).flatten.Perm levels.flatten := by
  unfold orderLevels
  split
  · exact (reverse_perm levels).flatten
  · exact .refl _

/-- What is to have a result before a state is executed. -/
def Earlier (states : List State) (mode : RunMode) (x y : String) : Prop :=
  if mode = .revert then DependsOn states x y else DependsOn states y x

theorem Leveled.earlier (accepted : Accepted states) (leveled : Leveled states levels)
    (visited : orderLevels mode levels = done ++ level :: rest) (member : s ∈ level)
    (waits : Earlier states mode x s.name) : x ∈ names done.flatten := by
  have once := (@orderLevels_perm mode levels).trans leveled.once
  rw [visited] at once
  have listed : s ∈ states := once.mem_iff.mp (by simp [member])
  unfold orderLevels at visited
  unfold Earlier at waits
  split at visited
  · -- a dependent in the same level or in one that is visited later would need the state before it
    rename_i backwards
    rw [if_pos backwards] at waits
    obtain ⟨t, known, rfl, needs⟩ := waits
    have forwards : levels = rest.reverse ++ level :: done.reverse := by
      rw [← reverse_reverse levels, visited]
      simp
    rw [forwards] at leveled
    have unique := leveled.distinct accepted
    simp only [names, flatten_append, map_append, flatten_cons] at unique
    have outside : ¬ (t ∈ rest.reverse.flatten ∨ t ∈ level) := by
      intro inside
      have before := leveled.deps_before accepted inside needs
      exact (nodup_append.mp unique).2.2 s.name before s.name
        (mem_append_left _ (mem_map_of_mem member)) rfl
    have somewhere := leveled.once.mem_iff.mpr known
    simp only [flatten_append, mem_append, flatten_cons] at somewhere
    obtain inside | inside | inside := somewhere
    · exact absurd (.inl inside) outside
    · exact absurd (.inr inside) outside
    · exact mem_map_of_mem ((reverse_perm done).flatten.mem_iff.mp inside)
  · rename_i forwards
    rw [if_neg forwards] at waits
    obtain ⟨t, known, same, needed⟩ := waits
    rw [accepted.same_state known listed same] at needed
    exact (visited ▸ leveled).deps_before accepted (.inr member) needed

/-- What the run over the visited levels says of the states, and in which order it came to them. -/
structure Accounted (states : List State) (env : Outcomes) (d : DAG) (mode : RunMode)
    (visited : List DAG.Level)
    (r : Run) : Prop where
  once : r.result.states.keys.Perm (names states)
  single : ∀ x sr, r.result.states.lookup x = some sr → sr.name = x ∧ sr.Single
  failed : r.result.failed = r.result.count fun sr => sr.error ≠ ""
  changed : r.result.changed = r.result.count StateResult.changed
  skipped : r.result.skipped = r.result.count StateResult.skipped
  order : ∀ done level rest, visited = done ++ level :: rest → ∀ s ∈ level, s.name ∈ r.executed →
    s.name ∉ (Run.reached env d mode done).executed ∧
      ∀ x, Earlier states mode x s.name →
        ∃ sr, (Run.reached env d mode done).result.states.lookup x = some sr
  abort : ∀ done level rest, visited = done ++ level :: rest →
    ∀ t ∈ level, t.failHard = true → ∀ sr, r.result.states.lookup t.name = some sr → sr.error ≠ "" →
      ∀ s ∈ rest.flatten, r.result.states.lookup s.name =
        some { name := s.name, skipped := true, skipReason := "failhard_abort" }

/-- A run returns exactly one result for each state, with at most one of the three marks, and the
counters say how many results have each. A state is executed only after all that it waits for have a
result, and behind a level in which a failhard state failed every state is skipped for that
reason. -/
theorem run_accounts (it : Ranging) (env : Outcomes) (states : List State) (mode : RunMode)
    (distinct : (states.map State.name).Nodup)
    (known : ∀ s ∈ states, ∀ dep ∈ s.reqs.allDeps, dep ∈ states.map State.name)
    (acyclic : Acyclic (DependsOn states)) :
    ∃ d levels r, newDAG it states = .ok d ∧ d.resolve it = .ok levels ∧
      runTracked it env states mode = .ok r ∧ run it env states mode = .ok r.result ∧
      Accounted states env d mode (orderLevels mode levels) r := by
  have accepted : Accepted states := ⟨distinct, known⟩
  obtain ⟨d, levels, built, resolved, leveled⟩ := accepted.resolves it acyclic
  have once : (orderLevels mode levels).flatten.Perm states :=
    (orderLevels_perm levels).trans leveled.once
  have unique : (names (orderLevels mode levels).flatten).Nodup :=
    (once.map State.name).nodup_iff.mpr distinct
  have tracked : runTracked it env states mode = .ok _ := runTracked_ok built resolved
  refine ⟨d, levels, _, built, resolved, tracked, by rw [run, tracked]; rfl, ?_⟩
  have balanced := @Run.reached_balanced env d mode _ unique
  refine ⟨?_, balanced.single, balanced.failed, balanced.changed, balanced.skipped, ?_, ?_⟩
  · refine (perm_ext_iff_of_nodup (keys_nodup _) distinct).mpr fun x => ?_
    rw [← AList.mem_keys, ← AList.lookup_isSome, ← (once.map State.name).mem_iff]
    constructor
    · intro stored
      by_contra absent
      have untouched : Run.Untouched (Run.reached env d mode (orderLevels mode levels)) x :=
        Run.reached_untouched absent
      simp [untouched.result] at stored
    · intro past
      obtain ⟨sr, stored⟩ := @Run.reached_result env d mode _ x unique past
      rw [stored]
      rfl
  · intro done level rest visited s member executed
    rw [visited] at unique
    simp only [names, flatten_append, map_append, flatten_cons] at unique
    obtain ⟨before, -, apart⟩ := nodup_append.mp unique
    have new : s.name ∉ names done.flatten := fun old =>
      apart s.name old s.name (mem_append_left _ (mem_map_of_mem member)) rfl
    refine ⟨(Run.reached_untouched new).executed, fun x waits => ?_⟩
    exact Run.reached_result before (leveled.earlier accepted visited member waits)
  · intro done level rest visited t member hard sr found failed s later
    rw [visited] at unique found ⊢
    obtain ⟨reports, -⟩ : Run.Reports
        (Run.reached env d mode (done ++ level :: rest)) t.name _ ∧ _ :=
      Run.reached_level unique member
    refine Run.reached_abort unique member hard (reports.failed.mpr ?_) later
    rw [reports.result, Option.some.injEq] at found
    rwa [found]

theorem run_accounts_chain :
    ∃ d levels r, newDAG .listed requireChain = .ok d ∧ d.resolve .listed = .ok levels ∧
      runTracked .listed firstFails requireChain .revert = .ok r ∧
      run .listed firstFails requireChain .revert = .ok r.result ∧
      Accounted requireChain firstFails d .revert (orderLevels .revert levels) r :=
  run_accounts .listed firstFails requireChain .revert (by decide) (by decide) requireChain_acyclic

end Zester.States
