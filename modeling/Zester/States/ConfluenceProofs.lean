import Zester.States.RunnerProofs

/-! Runs do not depend on the order of the state list, nor on the order in which the states of a
level finish: each writes into a slot of its own, and the slots are read when all have finished. -/
namespace Zester.States
open List

/-- Results in the order in which they come in, each with the index of its slot. -/
def fill (n : Nat) (writes : List (Nat × α)) : List (Option α) :=
  writes.foldl (fun slots write => slots.set write.1 (some write.2)) (replicate n none)

theorem fill_perm (perm : writes'.Perm writes)
    (distinct : (writes.map Prod.fst).Nodup) (n : Nat) : fill n writes' = fill n writes := by
  apply perm.foldl_eq'
  intro first member second member' slots
  by_cases same : first.1 = second.1
  · rw [inj_on_of_nodup_map distinct (perm.mem_iff.mp member) (perm.mem_iff.mp member') same]
  · exact set_comm _ _ same

theorem fill_indexed (xs : List α) : fill xs.length (xs.zipIdx.map Prod.swap) = xs.map some := by
  -- the slots before the index are filled, those from the index on are empty
  have rest : ∀ (xs : List α) (before : List (Option α)),
      ((xs.zipIdx before.length).map Prod.swap).foldl
        (fun slots write => slots.set write.1 (some write.2))
        (before ++ replicate xs.length none) = before ++ xs.map some := by
    intro xs
    induction xs with
    | nil => simp
    | cons x xs ih =>
      intro before
      have next := ih (before ++ [some x])
      simp only [length_append, length_singleton] at next
      simpa [zipIdx_cons, replicate_succ, set_append] using next
  simpa [fill] using rest xs []

namespace Run

def collectSlots (r : Run) (ordered : DAG.Level) (slots : List (Option StateResult)) : Run :=
  (ordered.zip slots).foldl
    (fun r slot => match slot.2 with
      | none => r
      | some sr => r.collect slot.1 sr) r

/-- `runLevel` with the slots of the level, which are written in the order given by `it`. -/
def runLevelIn (it : Ranging) (env : Outcomes) (d : DAG) (mode : RunMode) (r : Run) (i : Nat)
    (level : DAG.Level) : Run :=
  let ordered := orderLevel level
  if r.halted env i then
    r.skipLevel env i ordered
  else
    let results := ordered.map fun s => evaluate env mode s (r.verdict env d mode s)
    { r.collectSlots ordered (fill ordered.length
      (it.order [3, i] (results.zipIdx.map Prod.swap))) with
      executed := r.executed ++ (r.launched env d mode ordered).map State.name }

def runLevelsIn (it : Ranging) (env : Outcomes) (d : DAG) (mode : RunMode) :
    Nat → Run → List DAG.Level → Run
  | _, r, [] => r
  | i, r, level :: levels =>
    runLevelsIn it env d mode (i + 1) (r.runLevelIn it env d mode i level) levels

end Run

/-- A run in which map iteration and the states of a level take any order. -/
def Runner.runIn (it : Ranging) (env : Outcomes) (states : List State) (mode : RunMode) :
    Except String RunResult := do
  let d ← (newDAG it states).mapError runnerError
  let levels ← (d.resolve it).mapError runnerError
  return (Run.runLevelsIn it env d mode 0 {} (orderLevels mode levels)).result

namespace Run

theorem collectSlots_map (r : Run) (ordered : DAG.Level) (f : State → StateResult) :
    r.collectSlots ordered (ordered.map fun s => some (f s)) =
      r.collectAll (ordered.map fun s => (s, f s)) := by
  induction ordered generalizing r with
  | nil => rfl
  | cons s ordered ih => exact ih (r.collect s (f s))

theorem runLevelIn_eq (it : Ranging) (r : Run) (i : Nat) (level : DAG.Level) :
    r.runLevelIn it env d mode i level = r.runLevel env d mode i level := by
  have written : ∀ results : List StateResult,
      fill results.length (it.order [3, i] (results.zipIdx.map Prod.swap)) = results.map some := by
    intro results
    rw [fill_perm (it.perm _ _), fill_indexed]
    simpa [Function.comp_def] using nodup_range' (s := 0) (n := results.length)
  simp only [runLevelIn, runLevel]
  split
  · rfl
  · have filled :=
      written ((orderLevel level).map fun s => evaluate env mode s (r.verdict env d mode s))
    rw [length_map] at filled
    rw [filled, map_map]
    simp only [Function.comp_def, collectSlots_map]

theorem runLevelsIn_eq (it : Ranging) (i : Nat) (r : Run) (levels : List DAG.Level) :
    runLevelsIn it env d mode i r levels = runLevels env d mode i r levels := by
  induction levels generalizing i r with
  | nil => rfl
  | cons level levels ih => rw [runLevelsIn, runLevelIn_eq, ih, runLevels]

/-- The graph matters to a run only through the states that it holds. -/
theorem runLevel_graph (same : d.get = e.get) (r : Run) (i : Nat) (level : DAG.Level) :
    r.runLevel env d mode i level = r.runLevel env e mode i level := by
  have prereqs : ∀ s i targets, anyPrereq env d s i targets = anyPrereq env e s i targets := by
    intro s i targets
    induction targets generalizing i with
    | nil => rfl
    | cons name targets ih => simp only [anyPrereq, same, ih]
  have verdicts : r.verdict env d mode = r.verdict env e mode := by
    funext s
    simp only [verdict, evalPrereq, prereqs]
  simp only [runLevel, launched, verdicts]

theorem runLevels_graph (same : d.get = e.get) (i : Nat) (r : Run) (levels : List DAG.Level) :
    runLevels env d mode i r levels = runLevels env e mode i r levels := by
  induction levels generalizing i r with
  | nil => rfl
  | cons level levels ih => rw [runLevels, runLevels, runLevel_graph same, ih]

end Run

theorem Represents.get_perm (rep : Represents d states) (rep' : Represents e states')
    (perm : states'.Perm states) : d.get = e.get := by
  funext name
  by_cases listed : name ∈ names states
  · obtain ⟨s, member, rfl⟩ := mem_map.mp listed
    rw [rep.node s member, rep'.node s (perm.mem_iff.mpr member)]
  · have unlisted : name ∉ names states' :=
      fun member => listed ((perm.map State.name).mem_iff.mp member)
    rw [DAG.get, DAG.get, AList.lookup_eq_none.mpr (mt rep.mem_nodes.mp listed),
      AList.lookup_eq_none.mpr (mt rep'.mem_nodes.mp unlisted)]

/-- For an accepted state set, every order of the list, of the map iterations and of the
completions in a level gives the same results and counters. -/
theorem run_confluent {it : Ranging} {env : Outcomes} {states states' : List State} {mode : RunMode}
    {r : RunResult}
    (ran : Runner.runIn it env states mode = .ok r) (perm : states'.Perm states) (it' : Ranging) :
    Runner.runIn it' env states' mode = .ok r := by
  obtain ⟨d, built, ran⟩ := Except.bind_ok ran
  obtain ⟨levels, resolved, ran⟩ := Except.bind_ok ran
  cases ran
  obtain ⟨accepted, rep⟩ := newDAG_ok (Except.mapError_ok built)
  obtain ⟨e, built'⟩ := newDAG_exists it' (accepted.perm perm)
  have rep' := (newDAG_ok built').2
  have resolved' : e.resolve it' = .ok levels :=
    resolve_perm accepted rep rep' perm (Except.mapError_ok resolved)
  simp only [Runner.runIn, Except.mapError, bind, Except.bind, built', resolved', pure, Except.pure]
  rw [Run.runLevelsIn_eq, Run.runLevelsIn_eq, Run.runLevels_graph (rep.get_perm rep' perm)]

theorem run_confluent_reversed : ∃ r, Runner.runIn .listed firstFails requireChain .apply = .ok r ∧
      Runner.runIn (.rotated 1) firstFails requireChain.reverse .apply = .ok r := by
  have ran : Runner.runIn .listed firstFails requireChain .apply = .ok _ := rfl
  exact ⟨_, ran, run_confluent ran (reverse_perm _) _⟩

end Zester.States
