import Zester.Jobs.Manager
import Zester.Lib.Registry

/-! The table of the watchers of one manager. Watchers are known by a number, and each is listed
with the job that it watches. The table files them by their job alone, so that it holds those that
run only if no two watchers of one job are there at a time. -/
namespace Zester.Jobs

structure Watching where
  watchers : String → Option Nat
  running : List (String × Nat)
  /-- The goroutines whose `Watch` has returned and that have still to clear the table. -/
  returned : List (String × Nat)
  created : Nat
  /-- What the calls of `Shutdown` found in the table. -/
  detached : List (String → Option Nat)

namespace Watching
variable (m : Watching)

def runWatcher (jid : String) : Watching :=
  { m with
    watchers := Function.update m.watchers jid (some m.created)
    running := (jid, m.created) :: m.running
    created := m.created + 1 }

/-- Whether `ReclaimJob` ends in a watcher, by the clock and the outcome of its update. -/
def reclaims (now : Int) (updated : Bool) (j : Job) : Bool :=
  j.reclaimCount ≤ maxReclaims &&
    match j.status with
    | .claimed => (normalizeDeadline now j).deadline ≤ now || updated
    | .running => true
    | _ => false

/-- The calls that change the table. -/
inductive Call where
  /-- A `Dispatch` that has published its job. -/
  | dispatch (jid : String)
  | reclaim (now : Int) (updated : Bool) (j : Job)
  /-- The end of a `Shutdown`. -/
  | clear

inductive Step (permitted : Watching → Call → Prop) (m : Watching) : Watching → Prop where
  | dispatch (jid : String) (may : permitted m (.dispatch jid)) :
      Step permitted m (m.runWatcher jid)
  | reclaim (now : Int) (updated : Bool) (j : Job) (may : permitted m (.reclaim now updated j))
      (starts : reclaims now updated j) : Step permitted m (m.runWatcher j.jid)
  | returns (watches : m.running.Perm (w :: others)) :
      Step permitted m { m with running := others, returned := w :: m.returned }
  | removes (ends : m.returned.Perm (w :: others)) :
      Step permitted m { m with
        returned := others, watchers := Function.update m.watchers w.1 none }
  | detach : Step permitted m { m with detached := m.watchers :: m.detached }
  | clear (may : permitted m .clear) (found : table ∈ m.detached)
      (done : ∀ w ∈ m.running, table w.1 ≠ some w.2) :
        Step permitted m { m with watchers := fun _ => none }

def Reached (permitted : Watching → Call → Prop) : Watching → Prop :=
  Relation.ReflTransGen (Step permitted) ⟨fun _ => none, [], [], 0, []⟩

end Watching

namespace Watching

/-- A watcher is started only while no other goroutine of its job is left, and the table is cleared
only while no watcher runs. -/
def Careful (m : Watching) : Call → Prop
  | .dispatch jid => ∀ w ∈ m.running ++ m.returned, w.1 ≠ jid
  | .reclaim _ _ j => ∀ w ∈ m.running ++ m.returned, w.1 ≠ j.jid
  | .clear => m.running = []

theorem registered_step (registered : Registered m.running m.returned m.watchers)
    (step : Step Careful m m') : Registered m'.running m'.returned m'.watchers := by
  cases step with
  | dispatch jid careful => exact registered.file careful
  | reclaim now updated j careful _ => exact registered.file careful
  | returns watches =>
    refine registered.perm (fun entry member => watches.symm.subset (.tail _ member)) ?_
    exact List.perm_middle.trans (watches.symm.append_right m.returned)
  | removes ends => exact (registered.perm (List.Subset.refl _) (ends.symm.append_left _)).remove
  | detach => exact registered
  | clear careful _ _ => exact ⟨by simp [show m.running = [] from careful], registered.apart⟩

/-- While no two watchers of a job are there at a time, each that runs is in the table. -/
theorem running_registered (reached : Reached Careful m) (runs : (jid, w) ∈ m.running) :
    m.watchers jid = some w := by
  have registered : Registered m.running m.returned m.watchers := by
    clear runs
    induction reached with
    | refl => exact ⟨by simp, by simp⟩
    | tail _ step registered => exact registered_step registered step
  exact registered.filed _ runs

/-- Two jobs are dispatched, and the watcher of the first ends. -/
theorem running_registered_second : ∃ m, Reached Careful m ∧ m.running = [("k", 1)] ∧
    m.watchers "j" = none ∧ m.watchers "k" = some 1 := by
  have reached : Reached Careful _ :=
    (((Relation.ReflTransGen.single (.dispatch "j" (by simp [Careful]))).tail
      (.dispatch "k" (by simp [Careful, runWatcher]))).tail
      (.returns (.swap ("j", 0) ("k", 1) []))).tail (.removes (.refl _))
  exact ⟨_, reached, rfl, rfl, running_registered reached (List.mem_singleton.mpr rfl)⟩

/-- The job comes back to its master, the first watcher ends, and the second one is out of reach. -/
theorem reclaimed_watcher_unregistered : ∃ m, Reached (fun _ _ => True) m ∧ m.running = [("j", 1)] ∧
    m.watchers "j" = none := by
  have reached : Reached (fun _ _ => True) _ :=
    (((Relation.ReflTransGen.single (.dispatch "j" trivial)).tail
      (.reclaim 0 false { jid := "j", status := .running } trivial rfl)).tail
      (.returns (.swap ("j", 0) ("j", 1) []))).tail (.removes (.refl _))
  exact ⟨_, reached, rfl, rfl⟩

end Watching
end Zester.Jobs
