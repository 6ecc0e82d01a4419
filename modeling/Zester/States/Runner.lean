import Zester.States.Dag

/-! The runner: states are executed level by level, and what happened in earlier
levels decides which states of the next one run. -/
namespace Zester.States

inductive RunMode where
  | apply
  | check
  | revert
  deriving DecidableEq, Repr

structure CheckResult where
  needsChange : Bool
  diff : String := ""
  deriving DecidableEq, Repr

structure ApplyResult where
  changed : Bool
  diff : String := ""
  details : List (String × String) := []
  deriving DecidableEq, Repr

structure StateResult where
  name : String
  changed : Bool := false
  diff : String := ""
  details : List (String × String) := []
  error : String := ""
  skipped : Bool := false
  skipReason : String := ""
  deriving DecidableEq, Repr

structure RunResult where
  states : Table StateResult
  changed : Nat := 0
  failed : Nat := 0
  skipped : Nat := 0
  canceled : Bool := false

/-- Everything a run asks the outside: what the methods of a state return or
with which text they fail, by the number of the attempt and by whether Apply
was forced, what a gated state's prereq targets answer, and when the context
was canceled. -/
structure Outcomes where
  check : String → Nat → Except String CheckResult
  apply : String → Bool → Nat → Except String ApplyResult
  revert : String → Nat → Except String ApplyResult
  /-- The answer of the state's `i`-th prereq target. -/
  prereqCheck : String → Nat → Except String CheckResult
  /-- The first level that sees the context canceled. -/
  cancelAt : Option Nat := none
  /-- Whether the context is seen canceled before the given retry. -/
  giveUp : String → Nat → Bool := fun _ _ => false

namespace Outcomes

def canceled (env : Outcomes) (i : Nat) : Bool :=
  match env.cancelAt with
  | none => false
  | some first => first ≤ i

end Outcomes

def execStateOnce (env : Outcomes) (s : State) (mode : RunMode) (forceApply : Bool)
    (attempt : Nat) : StateResult :=
  let sr : StateResult := { name := s.name }
  let applied (forced : Bool) : StateResult :=
    match env.apply s.name forced attempt with
    | .error text => { sr with error := text }
    | .ok ar => { sr with changed := ar.changed, diff := ar.diff, details := ar.details }
  match mode with
  | .check =>
    match env.check s.name attempt with
    | .error text => { sr with error := text }
    | .ok cr => { sr with changed := cr.needsChange, diff := cr.diff }
  | .apply =>
    if forceApply then
      applied true
    else
      match env.check s.name attempt with
      | .error text => { sr with error := text }
      | .ok cr => if cr.needsChange then applied false else sr
  | .revert =>
    match env.revert s.name attempt with
    | .error text => { sr with error := text }
    | .ok ar => { sr with changed := ar.changed, diff := ar.diff, details := ar.details }

/-- The retry loop with `left` attempts to go. -/
def retry (env : Outcomes) (s : State) (mode : RunMode) (forceApply : Bool) :
    Nat → Nat → StateResult → StateResult
  | 0, _, sr => sr
  | left + 1, attempt, sr =>
    if sr.error = "" then
      sr
    else if env.giveUp s.name attempt then
      sr
    else
      retry env s mode forceApply left (attempt + 1) (execStateOnce env s mode forceApply attempt)

def execState (env : Outcomes) (s : State) (mode : RunMode) (forceApply : Bool) : StateResult :=
  let attempts := if mode = .check then 0 else s.retryAttempts.toNat
  retry env s mode forceApply attempts 1 (execStateOnce env s mode forceApply 0)

/-- What the requisites decide about a state: to skip it for a reason, or to
execute it, with Apply forced or not. -/
inductive Verdict where
  | skip (reason : String)
  | exec (forceApply : Bool)
  deriving DecidableEq, Repr

def resolveRequisites (reqs : Requisites) (failed changed : List String) : Verdict :=
  if ∃ dep ∈ reqs.require, dep ∈ failed then
    .skip "require_failed"
  else if ∃ dep ∈ reqs.watch, dep ∈ failed then
    .skip "require_failed"
  else if reqs.onChanges ≠ [] ∧ ∃ dep ∈ reqs.onChanges, dep ∈ failed then
    .skip "require_failed"
  else if reqs.onChanges ≠ [] ∧ ¬ ∃ dep ∈ reqs.onChanges, dep ∈ changed then
    .skip "onchanges_not_met"
  else if reqs.onFail ≠ [] ∧ ¬ ∃ dep ∈ reqs.onFail, dep ∈ failed then
    .skip "onfail_not_met"
  else
    .exec (decide (∃ dep ∈ reqs.watch, dep ∈ changed))

/-- The loop over the prereq targets from the `i`-th on: a target that is not in
the graph or whose Check fails is passed over. -/
def anyPrereq (env : Outcomes) (d : DAG) (s : State) : Nat → List String → Bool
  | _, [] => false
  | i, name :: targets =>
    match d.get name, env.prereqCheck s.name i with
    | some _, .ok cr => cr.needsChange || anyPrereq env d s (i + 1) targets
    | _, _ => anyPrereq env d s (i + 1) targets

/-- `(gated, skip)`. -/
def evalPrereq (env : Outcomes) (d : DAG) (s : State) : Bool × Bool :=
  if s.prereqTargets = [] then
    (false, false)
  else if anyPrereq env d s 0 s.prereqTargets then
    (true, false)
  else
    (false, true)

/-- The loop's variables, and the names of the states handed to `execState`,
which the source does not keep. -/
structure Run where
  result : RunResult := { states := ∅ }
  failed : List String := []
  changed : List String := []
  aborted : Bool := false
  executed : List String := []

namespace Run

def verdict (env : Outcomes) (d : DAG) (mode : RunMode) (r : Run) (s : State) : Verdict :=
  match mode with
  | .revert =>
    if ∃ dep ∈ s.reqs.require, dep ∈ r.failed then .skip "require_failed" else .exec false
  | .apply | .check =>
    match resolveRequisites s.reqs r.failed r.changed with
    | .skip reason => .skip reason
    | .exec forceApply =>
      match evalPrereq env d s with
      | (_, true) => .skip "prereq_not_met"
      | (gated, false) => .exec (forceApply || gated)

def evaluate (env : Outcomes) (mode : RunMode) (s : State) : Verdict → StateResult
  | .skip reason => { name := s.name, skipped := true, skipReason := reason }
  | .exec forceApply => execState env s mode forceApply

/-- The body of the loop that collects the results of a level. -/
def collect (r : Run) (s : State) (sr : StateResult) : Run :=
  { r with
    result :=
      { r.result with
        states := r.result.states.insert sr.name sr
        failed := if sr.error ≠ "" then r.result.failed + 1 else r.result.failed
        changed := if sr.changed then r.result.changed + 1 else r.result.changed
        skipped := if sr.skipped then r.result.skipped + 1 else r.result.skipped }
    failed := if sr.error ≠ "" then sr.name :: r.failed else r.failed
    changed := if sr.changed then sr.name :: r.changed else r.changed
    aborted := r.aborted || (sr.error ≠ "" && s.failHard) }

def collectAll (r : Run) (results : List (State × StateResult)) : Run :=
  results.foldl (fun r done => r.collect done.1 done.2) r

/-- Lower `order:` first, then by name. -/
def orderLevel (level : DAG.Level) : DAG.Level :=
  level.insertionSort fun a b => a.order < b.order ∨ a.order = b.order ∧ a.name ≤ b.name

def halted (env : Outcomes) (r : Run) (i : Nat) : Bool := r.aborted || env.canceled i

/-- A level after a failhard abort or a cancellation. -/
def skipLevel (env : Outcomes) (r : Run) (i : Nat) (level : DAG.Level) : Run :=
  let reason := if r.aborted then "failhard_abort" else ""
  { r with
    result :=
      { r.result with
        canceled := r.result.canceled || env.canceled i
        states := level.foldl (fun states s =>
            states.insert s.name { name := s.name, skipped := true, skipReason := reason })
          r.result.states
        skipped := r.result.skipped + level.length } }

/-- The states of the level that are handed to `execState`. -/
def launched (env : Outcomes) (d : DAG) (mode : RunMode) (r : Run) (level : DAG.Level) :
    List State :=
  level.filter fun s =>
    match r.verdict env d mode s with
    | .skip _ => false
    | .exec _ => true

def runLevel (env : Outcomes) (d : DAG) (mode : RunMode) (r : Run) (i : Nat)
    (level : DAG.Level) : Run :=
  let ordered := orderLevel level
  if r.halted env i then
    r.skipLevel env i ordered
  else
    -- the states of a level run at the same time, so none sees another's result
    { r.collectAll (ordered.map fun s => (s, evaluate env mode s (r.verdict env d mode s))) with
      executed := r.executed ++ (r.launched env d mode ordered).map State.name }

def runLevels (env : Outcomes) (d : DAG) (mode : RunMode) : Nat → Run → List DAG.Level → Run
  | _, r, [] => r
  | i, r, level :: levels => runLevels env d mode (i + 1) (r.runLevel env d mode i level) levels

end Run

namespace Runner

/-- The levels in the order in which the mode visits them. -/
def orderLevels (mode : RunMode) (levels : List DAG.Level) : List DAG.Level :=
  if mode = .revert then levels.reverse else levels

def runnerError (e : DagError) : String := "runner: " ++ e.message

def runTracked (it : Ranging) (env : Outcomes) (states : List State) (mode : RunMode) :
    Except String Run := do
  let d ← (newDAG it states).mapError runnerError
  let levels ← (d.resolve it).mapError runnerError
  return Run.runLevels env d mode 0 {} (orderLevels mode levels)

def run (it : Ranging) (env : Outcomes) (states : List State) (mode : RunMode) :
    Except String RunResult :=
  (runTracked it env states mode).map Run.result

end Runner
end Zester.States
