import Zester.States.DagProofs
import Zester.States.Runner

/-! What one level of a run changes, and what a whole run accounts for. -/
namespace Zester.States
open Layering List

variable {env : Outcomes} {d : DAG} {mode : RunMode} {r : Run}

theorem execStateOnce_name (s : State) (force : Bool) (attempt : Nat) :
    (execStateOnce env s mode force attempt).name = s.name := by
  unfold execStateOnce
  cases mode <;> dsimp only <;> repeat' split
  all_goals rfl

theorem execStateOnce_skipped (s : State) (force : Bool) (attempt : Nat) :
    (execStateOnce env s mode force attempt).skipped = false := by
  unfold execStateOnce
  cases mode <;> dsimp only <;> repeat' split
  all_goals rfl

theorem execState_of_once {P : StateResult → Prop}
    (once : ∀ attempt, P (execStateOnce env s mode force attempt)) :
    P (execState env s mode force) := by
  have loop : ∀ left attempt sr, P sr → P (retry env s mode force left attempt sr) := by
    intro left
    induction left with
    | zero => exact fun _ _ holds => holds
    | succ left ih =>
      intro attempt sr holds
      unfold retry
      split
      · exact holds
      · split
        · exact holds
        · exact ih _ _ (once attempt)
  exact loop _ _ _ (once 0)

namespace Run

@[simp] theorem evaluate_name (s : State) (v : Verdict) :
    (evaluate env mode s v).name = s.name := by
  cases v with
  | skip reason => rfl
  | exec force =>
    exact execState_of_once (P := fun sr => sr.name = s.name) (execStateOnce_name s force)

theorem evaluate_exec_skipped (s : State) (force : Bool) :
    (evaluate env mode s (.exec force)).skipped = false :=
  execState_of_once (P := fun sr => sr.skipped = false) (execStateOnce_skipped s force)

theorem mem_launched :
    s ∈ r.launched env d mode level ↔ s ∈ level ∧
      ∃ force, r.verdict env d mode s = .exec force := by
  unfold launched
  rw [mem_filter]
  cases r.verdict env d mode s <;> simp

theorem mem_orderLevel : s ∈ orderLevel level ↔ s ∈ level :=
  (perm_insertionSort _ level).mem_iff

theorem verdict_exec_clear (forward : mode ≠ .revert) (runs : r.verdict env d mode s = .exec force)
    (edge : dep ∈ s.reqs.require ∨ dep ∈ s.reqs.watch) : dep ∉ r.failed := by
  have passed : ∃ force, resolveRequisites s.reqs r.failed r.changed = .exec force := by
    unfold verdict at runs
    cases mode with
    | revert => contradiction
    | apply | check =>
      dsimp only at runs
      split at runs
      · contradiction
      · exact ⟨_, ‹_›⟩
  obtain ⟨force, passed⟩ := passed
  unfold resolveRequisites at passed
  split at passed
  · contradiction
  split at passed
  · contradiction
  · rename_i required watched
    intro failure
    exact edge.elim (fun h => required ⟨dep, h, failure⟩) fun h => watched ⟨dep, h, failure⟩

end Run

namespace Run

/-- Two moments of a run say the same about a state. -/
structure Agree (r t : Run) (x : String) : Prop where
  result : t.result.states.lookup x = r.result.states.lookup x
  failed : x ∈ t.failed ↔ x ∈ r.failed
  executed : x ∈ t.executed ↔ x ∈ r.executed

theorem Agree.refl (r : Run) (x : String) : Agree r r x := ⟨rfl, .rfl, .rfl⟩

theorem Agree.trans (first : Agree r s x) (second : Agree s t x) : Agree r t x :=
  ⟨second.result.trans first.result, second.failed.trans first.failed,
    second.executed.trans first.executed⟩

/-- The run says of the state `x` that its result is `sr`, and keeps the
variables of the loop in line with that result. -/
structure Reports (r : Run) (x : String) (sr : StateResult) : Prop where
  result : r.result.states.lookup x = some sr
  failed : x ∈ r.failed ↔ sr.error ≠ ""
  executed : x ∈ r.executed ↔ sr.skipped = false
  harmless : sr.skipped = true → sr.error = ""

/-- The run has not come to the state `x` yet. -/
structure Untouched (r : Run) (x : String) : Prop where
  result : r.result.states.lookup x = none
  failed : x ∉ r.failed
  executed : x ∉ r.executed

theorem Reports.agree (reports : Reports r x sr) (agree : Agree r t x) : Reports t x sr :=
  ⟨agree.result.trans reports.result, agree.failed.trans reports.failed,
    agree.executed.trans reports.executed, reports.harmless⟩

theorem Reports.skipped_of_idle (reports : Reports r x sr) (idle : x ∉ r.executed) :
    sr.skipped = true := by
  rw [reports.executed] at idle
  simpa using idle

theorem Untouched.agree (untouched : Untouched r x) (agree : Agree r t x) : Untouched t x :=
  ⟨agree.result.trans untouched.result, mt agree.failed.mp untouched.failed,
    mt agree.executed.mp untouched.executed⟩

section

theorem collectAll_other (absent : ∀ done ∈ results, done.2.name ≠ x) :
    Agree r (r.collectAll results) x := by
  induction results generalizing r with
  | nil => exact .refl r x
  | cons done results ih =>
    obtain ⟨other, absent⟩ := forall_mem_cons.mp absent
    have step : Agree r (r.collect done.1 done.2) x := by
      refine ⟨AList.lookup_insert_ne other.symm, ?_, .rfl⟩
      simp only [collect]
      split <;> simp [other.symm]
    exact step.trans (ih absent)

theorem collectAll_reports (distinct : (results.map fun done => done.2.name).Nodup)
    (listed : (s, sr) ∈ results) (fresh : sr.name ∉ r.failed) :
    (r.collectAll results).result.states.lookup sr.name = some sr ∧
      (sr.name ∈ (r.collectAll results).failed ↔ sr.error ≠ "") := by
  induction results generalizing r with
  | nil => contradiction
  | cons done results ih =>
    obtain ⟨new, distinct⟩ := nodup_cons.mp distinct
    rcases mem_cons.mp listed with rfl | listed
    · have rest : Agree (r.collect s sr) ((r.collect s sr).collectAll results) sr.name :=
        collectAll_other fun done member same =>
          new (mem_map.mpr ⟨done, member, same⟩)
      refine ⟨rest.result.trans (AList.lookup_insert _), rest.failed.trans ?_⟩
      simp only [collect]
      split <;> simp_all
    · refine ih distinct listed ?_
      have other : sr.name ≠ done.2.name := fun same =>
        new (mem_map.mpr ⟨(s, sr), listed, same⟩)
      simp only [collect]
      split <;> simp [other, fresh]

theorem collectAll_skipped (reason : String) (level : List State) :
    r.collectAll (level.map fun s =>
      (s, { name := s.name, skipped := true, skipReason := reason })) =
      { r with
        result := { r.result with
          states := level.foldl
            (fun states s => states.insert s.name
              { name := s.name, skipped := true, skipReason := reason }) r.result.states
          skipped := r.result.skipped + level.length } } := by
  induction level generalizing r with
  | nil => rfl
  | cons s level ih =>
    rw [map_cons, collectAll, foldl_cons, ← collectAll, ih]
    simp [collect, Nat.add_assoc, Nat.add_comm 1]

variable {i : Nat}

/-- What a level makes of one of its states, from the moment before the level. -/
def levelResult (env : Outcomes) (d : DAG) (mode : RunMode) (r : Run) (i : Nat) (s : State) :
    StateResult :=
  if r.halted env i then
    { name := s.name, skipped := true, skipReason := if r.aborted then "failhard_abort" else "" }
  else evaluate env mode s (r.verdict env d mode s)

@[simp] theorem levelResult_name (s : State) : (r.levelResult env d mode i s).name = s.name := by
  unfold levelResult
  split
  · rfl
  · exact evaluate_name s _

theorem levelResult_skipped (member : s ∈ level) :
    ((r.levelResult env d mode i s).skipped = false ↔ r.halted env i = false ∧
      s ∈ r.launched env d mode level) ∧
      ((r.levelResult env d mode i s).skipped = true →
        (r.levelResult env d mode i s).error = "") := by
  unfold levelResult
  rw [mem_launched]
  split
  · simp [*]
  · cases verdict : r.verdict env d mode s with
    | skip reason => simp [evaluate]
    | exec force => simp [evaluate_exec_skipped, *]

/-- The results of a level, collected one by one. -/
def collected (env : Outcomes) (d : DAG) (mode : RunMode) (r : Run) (i : Nat)
    (level : DAG.Level) : Run :=
  r.collectAll ((orderLevel level).map fun s => (s, r.levelResult env d mode i s))

/-- A level that is skipped collects its results like any other. -/
theorem runLevel_collects (r : Run) (i : Nat) (level : DAG.Level) : ∃ canceled executed,
    r.runLevel env d mode i level = { r.collected env d mode i level with
      result := { (r.collected env d mode i level).result with canceled := canceled }, executed :=
  executed } ∧
    ∀ x, x ∈ executed ↔ x ∈ r.executed ∨ r.halted env i = false ∧
        ∃ s ∈ r.launched env d mode level, s.name = x := by
  unfold runLevel collected levelResult
  split
  · exact ⟨_, r.executed, by rw [collectAll_skipped]; rfl, by simp [*]⟩
  · refine ⟨_, _, rfl, fun x => ?_⟩
    simp [mem_launched, mem_orderLevel, *]

theorem names_orderLevel : (names (orderLevel level)).Perm (names level) :=
  (perm_insertionSort _ level).map State.name

theorem collected_names (distinct : (names level).Nodup) :
    (((orderLevel level).map fun s => (s, r.levelResult env d mode i s)).map fun done =>
      done.2.name).Nodup := by
  simpa [Function.comp_def, names] using names_orderLevel.nodup_iff.mpr distinct

theorem runLevel_other (absent : x ∉ names level) : Agree r (r.runLevel env d mode i level) x := by
  obtain ⟨canceled, executed, collects, listed⟩ := @runLevel_collects env d mode r i level
  have collected : Agree r (r.collected env d mode i level) x := by
    refine collectAll_other fun done member same => ?_
    obtain ⟨s, inside, rfl⟩ := mem_map.mp member
    exact absent (mem_map.mpr ⟨s, mem_orderLevel.mp inside, (levelResult_name s).symm.trans same⟩)
  rw [collects]
  refine ⟨collected.result, collected.failed, (listed x).trans (or_iff_left ?_)⟩
  rintro ⟨-, s, launch, rfl⟩
  exact absent (mem_map_of_mem (mem_launched.mp launch).1)

theorem runLevel_reports (distinct : (names level).Nodup) {s : State} (member : s ∈ level)
    (new : Untouched r s.name) :
    Reports (r.runLevel env d mode i level) s.name (r.levelResult env d mode i s) ∧
      (s.name ∈ (r.runLevel env d mode i level).executed ↔
        r.halted env i = false ∧ s ∈ r.launched env d mode level) := by
  obtain ⟨canceled, executed, collects, listed⟩ := @runLevel_collects env d mode r i level
  obtain ⟨result, failed⟩ := collectAll_reports (collected_names distinct)
    (mem_map_of_mem (mem_orderLevel.mpr member)) (by simpa using new.failed)
  rw [levelResult_name] at result failed
  obtain ⟨runs, harmless⟩ := @levelResult_skipped env d mode r i level s member
  have launched : s.name ∈ executed ↔ r.halted env i = false ∧ s ∈ r.launched env d mode level := by
    rw [listed, or_iff_right new.executed]
    refine and_congr_right fun _ => ⟨?_, fun launch => ⟨s, launch, rfl⟩⟩
    rintro ⟨t, launch, same⟩
    rwa [← inj_on_of_nodup_map distinct (mem_launched.mp launch).1 member same]
  rw [collects]
  exact ⟨⟨result, failed, launched.trans runs.symm, harmless⟩, launched⟩

end

theorem runLevels_append : r.runLevels env d mode i (done ++ rest) =
    (r.runLevels env d mode i done).runLevels env d mode (i + done.length) rest := by
  induction done generalizing r i with
  | nil => rfl
  | cons level done ih =>
    simp only [cons_append, runLevels, ih, length_cons]
    congr 1
    omega

theorem runLevels_other (absent : x ∉ names levels.flatten) :
    Agree r (r.runLevels env d mode i levels) x := by
  induction levels generalizing r i with
  | nil => exact .refl r x
  | cons level levels ih =>
    simp only [names, flatten_cons, map_append, mem_append, not_or] at absent
    exact (runLevel_other absent.1).trans (ih absent.2)

/-- The moment of the run before the level that follows the levels `done`. -/
def reached (env : Outcomes) (d : DAG) (mode : RunMode) (done : List DAG.Level) : Run :=
  runLevels env d mode 0 {} done

section
variable {level : DAG.Level}

theorem reached_untouched (absent : x ∉ names done.flatten) :
    Untouched (reached env d mode done) x :=
  Untouched.agree ⟨rfl, by simp, by simp⟩ (runLevels_other absent)

/-- What a run said about a state it has come past stands to its end. -/
theorem reached_agree (distinct : (names (done ++ rest).flatten).Nodup)
    (past : x ∈ names done.flatten) :
    Agree (reached env d mode done) (reached env d mode (done ++ rest)) x := by
  rw [reached, reached, runLevels_append]
  refine runLevels_other fun later => ?_
  simp only [names, flatten_append, map_append] at distinct
  exact (nodup_append.mp distinct).2.2 x past x later rfl

theorem reached_snoc : reached env d mode (done ++ [level]) =
    (reached env d mode done).runLevel env d mode done.length level := by
  rw [reached, runLevels_append, Nat.zero_add]
  rfl

theorem reached_level (distinct : (names (done ++ level :: rest).flatten).Nodup) {s : State}
    (member : s ∈ level) :
    Reports (reached env d mode (done ++ level :: rest)) s.name
        ((reached env d mode done).levelResult env d mode done.length s) ∧
      (s.name ∈ (reached env d mode (done ++ level :: rest)).executed ↔
        (reached env d mode done).halted env done.length = false ∧
          s ∈ (reached env d mode done).launched env d mode level) := by
  have split : done ++ level :: rest = (done ++ [level]) ++ rest := by simp
  have parts := distinct
  simp only [names, flatten_append, map_append, flatten_cons] at parts
  obtain ⟨_, inner, apart⟩ := nodup_append.mp parts
  have new : s.name ∉ names done.flatten := fun old =>
    apart s.name old s.name (mem_append_left _ (mem_map_of_mem member)) rfl
  obtain ⟨reports, executed⟩ :=
    @runLevel_reports env d mode (reached env d mode done) done.length level
    (nodup_append.mp inner).1 s member (reached_untouched new)
  rw [← reached_snoc] at reports executed
  have past : s.name ∈ names (done ++ [level]).flatten := by
    simp only [names, flatten_append, map_append, flatten_cons, mem_append]
    exact .inr (.inl (mem_map_of_mem member))
  have agree : Agree (reached env d mode (done ++ [level]))
      (reached env d mode (done ++ level :: rest)) s.name := by
    rw [split]
    exact reached_agree (split ▸ distinct) past
  exact ⟨reports.agree agree, agree.executed.trans executed⟩

end

end Run

end Zester.States
