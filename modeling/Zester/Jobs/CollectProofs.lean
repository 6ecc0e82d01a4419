import Zester.Jobs.ReplayProofs

/-! What a watcher collects, in whatever order it comes: a real return stays. -/
namespace Zester.Jobs
open Watcher List

/-- What reaches a watcher that was seeded from the bucket. -/
inductive Input where
  | seed (returns : List Return)
  | ack (subject : String) (payload : Option String)
  | live (subject : String) (payload : Option Return)
  | merge (returns : List Return)
  | mark (now : Int)
  | cancel
  | detach

/-- The returns that an input brings; a live one counts on the subject of its peel. -/
def Input.returns : Input → List Return
  | .seed returns | .merge returns => returns
  | .live subject (some ret) => if subjectPeelID subject = some ret.peelID then [ret] else []
  | _ => []

namespace Watcher

def take (w : Watcher) : Input → Watcher
  | .seed returns => w.seedReturnsPersist returns
  | .ack subject payload => w.receiveAck subject payload
  | .live subject payload => (w.receiveReturn subject payload).1
  | .merge returns => (w.mergeReturns returns).1
  | .mark now => (w.markUnreachable now).1
  | .cancel => { w with canceled := true }
  | .detach => { w with detached := true }

variable {w : Watcher}

/-- Only targets are added, real returns stay, and the given ones are taken where there is none. -/
structure Merges (w : Watcher) (given : List Return) (w' : Watcher) : Prop where
  job : w'.job = w.job
  target : ∀ peel ∈ w'.returns, peel ∈ w.returns ∨ peel ∈ w.job.targets
  kept : ∀ peel, isReal (w.returns.lookup peel) → w'.returns.lookup peel = w.returns.lookup peel
  brought : ∀ r ∈ w.targetReturns given, r.unreachable = false → isReal (w'.returns.lookup r.peelID)

theorem Merges.nothing (job : w'.job = w.job) (same : w'.returns = w.returns) : w.Merges [] w' where
  job := job
  target _ member := .inl (same ▸ member)
  kept _ _ := by rw [same]
  brought _ member := by cases member

theorem Merges.append (first : w.Merges given w') (second : w'.Merges later w'') :
    w.Merges (given ++ later) w'' where
  job := second.job.trans first.job
  target peel member := by
    obtain old | target := second.target peel member
    · exact first.target peel old
    · exact .inr (first.job ▸ target)
  kept peel real := by
    have kept := first.kept peel real
    rw [second.kept peel (kept ▸ real), kept]
  brought r member real := by
    rw [targetReturns, filter_append, mem_append] at member
    obtain early | late := member
    · have here := first.brought r early real
      rwa [second.kept _ here]
    · refine second.brought r ?_ real
      simpa only [targetReturns, isTarget, first.job] using late

theorem Merges.foldl {returns : α → List Return} {as : List α}
    (step : ∀ w' : Watcher, w'.job = w.job → ∀ a ∈ as, w'.Merges (returns a) (f w' a)) :
    w.Merges (as.flatMap returns) (as.foldl f w) := by
  induction as generalizing w with
  | nil => exact .nothing rfl rfl
  | cons a as ih =>
    have first := step w rfl a mem_cons_self
    exact first.append (ih fun w' same a' member =>
      step w' (same.trans first.job) a' (mem_cons_of_mem a member))

theorem merges_mergeReturn (target : r.peelID ∈ w.job.targets) :
    w.Merges [r] (w.mergeReturn r) := by
  have single (peel : String) := @lookup_foldl_mergeReturn peel w [r]
  refine ⟨w.job_mergeReturn r, fun peel member => ?_, fun peel real => ?_, fun r' member real => ?_⟩
  · by_cases same : r.peelID = peel
    · exact .inr (same ▸ target)
    · rw [← AList.lookup_isSome] at member ⊢
      simp_all
  · by_cases same : r.peelID = peel <;> cases recorded : w.returns.lookup peel <;>
      simp_all [merged, supersedesReturn, isReal]
  · obtain rfl : r' = r := mem_singleton.mp (mem_filter.mp member).1
    have here := single r'.peelID
    simp_all [isReal_merged]

/-- Whatever is merged after a check lets all real returns of targets pass. -/
theorem merges_filter (targets : ∀ r, keep r → r.peelID ∈ w.job.targets)
    (passes : ∀ r, r.peelID ≠ "" → r.peelID ∈ w.job.targets → r.unreachable = false → keep r)
    (given : List Return) : w.Merges given ((given.filter keep).foldl mergeReturn w) := by
  have merges : w.Merges ((given.filter keep).flatMap ([·]))
      ((given.filter keep).foldl mergeReturn w) :=
    .foldl fun w' same r member => merges_mergeReturn (same ▸ targets r (mem_filter.mp member).2)
  refine { merges with brought := fun r member real => merges.brought r ?_ real }
  simp_all [targetReturns, isTarget]

theorem receiveReturn_eq (w : Watcher) (subject : String) (payload : Option Return) :
    (w.receiveReturn subject payload).1 = ((Input.live subject payload).returns.filter fun r =>
      w.isTarget r.peelID && !r.unreachable).foldl mergeReturn w := by
  unfold receiveReturn
  cases found : subjectPeelID subject with
  | none => cases payload <;> simp [Input.returns, found]
  | some peel =>
    cases payload with
    | none => rfl
    | some ret =>
      by_cases same : ret.peelID = peel
      · subst same
        cases target : w.isTarget ret.peelID <;> cases synthetic : ret.unreachable <;>
          cases recorded : w.returns.lookup ret.peelID <;>
          simp [Input.returns, mergeReturn, supersedesReturn, *]
        split <;> rfl
      · simp [Input.returns, found, same, Ne.symm same]

theorem merges_markTarget (now : Int) (target : peel ∈ w.job.targets) :
    w.Merges [] (w.markTarget now peel) := by
  unfold markTarget
  split
  · exact .nothing rfl rfl
  rename_i silent
  have merges := @merges_mergeReturn w (w.unreachableReturn now peel) target
  have fresh : w.returns.lookup peel = none := by simp_all
  rw [mergeReturn, show (w.unreachableReturn now peel).peelID = peel from rfl, fresh] at merges
  exact { merges with brought := fun _ member => (by cases member) }

theorem merges_take (w : Watcher) (input : Input) : w.Merges input.returns (w.take input) := by
  cases input with
  | seed returns | merge returns =>
    exact merges_filter (by simp [isTarget]) (by simp +contextual [isTarget]) returns
  | live subject payload =>
    rw [take, receiveReturn_eq]
    exact merges_filter (by simp +contextual [isTarget]) (by simp +contextual [isTarget]) _
  | mark now =>
    have marks : w.Merges (w.job.targets.flatMap fun _ => [])
        (w.job.targets.foldl (markTarget now) w) :=
      .foldl fun w' same peel target => merges_markTarget now (same ▸ target)
    rw [take, markUnreachable]
    split
    · exact .nothing rfl rfl
    · exact { marks with brought := fun _ member => (by cases member) }
  | ack subject payload =>
    exact .nothing (w.job_receiveAck subject payload) (w.receiveAck_keeps subject payload).2
  | cancel | detach => exact .nothing rfl rfl

end Watcher

theorem newest_of_mem {returns : List Return} (once : (returns.map Return.peelID).Nodup)
    (member : r ∈ returns) : newest returns r.peelID = some r := by
  induction returns with
  | nil => cases member
  | cons first returns ih =>
    rw [map_cons, nodup_cons] at once
    rw [newest_cons]
    obtain rfl | later := mem_cons.mp member
    · simp [newest_eq_none.mpr once.1]
    · simp [ih once.2 later]

theorem merges_seedReturns (once : (existing.map Return.peelID).Nodup) (now : Int)
    (j : Job) : (newWatcher now j).Merges existing ((newWatcher now j).seedReturns existing) := by
  have seeded (peel : String) : ((newWatcher now j).seedReturns existing).returns.lookup peel =
      newest ((newWatcher now j).targetReturns existing) peel :=
    (lookup_foldl_insert _ _).trans Option.or_none
  refine ⟨rfl, fun peel member => .inr ?_, nofun, fun r member real => ?_⟩
  · rw [← AList.lookup_isSome, seeded] at member
    obtain ⟨r, found⟩ := Option.isSome_iff_exists.mp member
    have listed := mem_reverse.mp (mem_of_find?_eq_some found)
    have same := find?_some found
    simp_all [targetReturns, isTarget]
  · have alone : newest ((newWatcher now j).targetReturns existing) r.peelID = some r :=
      newest_of_mem (once.sublist (filter_sublist.map _)) member
    rw [seeded, alone, isReal_some, real]
    rfl

/-- A watcher that is seeded from the bucket first, with one return for each peel, may be given
everything else in any order. -/
theorem real_return_kept (now : Int) (j : Job) (existing : List Return)
    (once : (existing.map Return.peelID).Nodup) (inputs : List Input) :
    let seeded := (newWatcher now j).seedReturns existing
    let w := inputs.foldl take seeded
    (∀ peel ∈ w.returns, peel ∈ j.targets) ∧
      (∀ before after, before ++ after = inputs → ∀ peel r, r.unreachable = false →
        (before.foldl take seeded).returns.lookup peel = some r →
        w.returns.lookup peel = some r) ∧
      ∀ r, (r ∈ existing ∨ ∃ input ∈ inputs, r ∈ input.returns) → r.unreachable = false →
        r.peelID ≠ "" → r.peelID ∈ j.targets → isReal (w.returns.lookup r.peelID) = true := by
  intro seeded w
  have runs (w : Watcher) (inputs : List Input) :
      w.Merges (inputs.flatMap Input.returns) (inputs.foldl take w) :=
    .foldl fun w' _ input _ => w'.merges_take input
  have all := (merges_seedReturns once now j).append (runs seeded inputs)
  refine ⟨fun peel member => ?_, fun before after whole peel r real recorded => ?_,
    fun r given real named target => all.brought r ?_ real⟩
  · exact targets_newWatcher now ▸ (all.target peel member).resolve_left nofun
  · have kept := (runs (before.foldl take seeded) after).kept peel (by simp [recorded, real])
    rwa [← foldl_append, whole, recorded] at kept
  · simp_all [targetReturns, isTarget, targets_newWatcher]

def returnOf (peel : String) (unreachable : Bool) : Return :=
  { peelID := peel, success := true, unreachable := unreachable }

/-- One return was stored before, and the watcher has marked the other peel when its return is
merged. -/
theorem real_return_kept_web :
    let w := [Input.mark 5, .merge [returnOf "web" false]].foldl take
      ((newWatcher 0 { targets := ["db", "web"] }).seedReturns [returnOf "db" false])
    isReal (w.returns.lookup "db") = true ∧ isReal (w.returns.lookup "web") = true := by
  have kept := (real_return_kept 0 { targets := ["db", "web"] } [returnOf "db" false] (by decide)
    [.mark 5, .merge [returnOf "web" false]]).2.2
  exact ⟨kept (returnOf "db" false) (.inl mem_cons_self) rfl (by decide) mem_cons_self,
    kept (returnOf "web" false) (.inr ⟨_, mem_of_mem_tail mem_cons_self, mem_cons_self⟩) rfl
      (by decide) (mem_cons_of_mem _ mem_cons_self)⟩

/-- `SeedReturns` puts what it is given in the place of a real return that was seeded before. -/
theorem seed_replaces_real :
    let w := (newWatcher 0 { targets := ["web"] }).seedReturnsPersist [returnOf "web" false]
    w.returns.lookup "web" = some (returnOf "web" false) ∧
      (w.seedReturns [returnOf "web" true]).returns.lookup "web" = some (returnOf "web" true) := by
  decide

end Zester.Jobs
