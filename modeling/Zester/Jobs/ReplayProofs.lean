import Zester.Jobs.Replay
import Zester.Jobs.WatcherProofs

/-! Which return a recovery leaves recorded for a peel. -/
namespace Zester.Jobs
open Watcher List AList
variable {returns : List Return} {replay : Replay}

def newest (returns : List Return) (peel : String) : Option Return :=
  returns.reverse.find? fun r => r.peelID == peel

/-- What becomes of the return of one peel when another one comes in. -/
def merged (recorded : Option Return) (incoming : Return) : Option Return :=
  if supersedesReturn recorded incoming then some incoming else recorded

theorem newest_cons (r : Return) (returns : List Return) : newest (r :: returns) peel =
      (newest returns peel).or (if r.peelID = peel then some r else none) := by
  simp only [newest, reverse_cons, find?_append, find?_singleton, beq_iff_eq]

theorem newest_concat (returns : List Return) (r : Return) :
    newest (returns ++ [r]) peel = if r.peelID = peel then some r else newest returns peel := by
  by_cases same : r.peelID = peel <;> simp [newest, same]

theorem newest_eq_none : newest returns peel = none ↔ peel ∉ returns.map Return.peelID := by
  rw [newest, find?_eq_none]
  simp

theorem newest_filter (kept : ∀ r : Return, r.peelID = peel → keep r = true)
    (returns : List Return) : newest (returns.filter keep) peel = newest returns peel := by
  rw [newest, ← filter_reverse, find?_filter, newest]
  congr 1
  funext r
  by_cases same : r.peelID = peel <;> simp [same, kept]

theorem lookup_foldl_insert (all : Returns) (returns : List Return) :
    (returns.foldl (fun all r => all.insert r.peelID r) all).lookup peel =
      (newest returns peel).or (all.lookup peel) := by
  induction returns generalizing all with
  | nil => rfl
  | cons r returns ih =>
    rw [foldl_cons, ih, newest_cons, Option.or_assoc]
    by_cases same : r.peelID = peel
    · subst same
      simp
    · simp [same, lookup_insert_ne (Ne.symm same)]

/-- The merge of one peel does not see the returns of the others. -/
theorem lookup_foldl_mergeReturn (w : Watcher) (returns : List Return) :
    (returns.foldl mergeReturn w).returns.lookup peel =
      (returns.filter (·.peelID = peel)).foldl merged (w.returns.lookup peel) := by
  induction returns generalizing w with
  | nil => rfl
  | cons r returns ih =>
    rw [foldl_cons, ih]
    by_cases same : r.peelID = peel
    · subst same
      have step : (w.mergeReturn r).returns.lookup r.peelID =
          merged (w.returns.lookup r.peelID) r := by
        unfold mergeReturn merged
        split
        · exact lookup_insert _
        · rfl
      simp [step]
    · have step : (w.mergeReturn r).returns.lookup peel = w.returns.lookup peel := by
        unfold mergeReturn
        split
        · exact lookup_insert_ne (Ne.symm same)
        · rfl
      simp [step, same]

/-- A replay knows the newest return of each peel. -/
structure Replay.Knows (replay : Replay) (returns : List Return) : Prop where
  newest : ∀ peel, replay.byPeel.lookup peel = newest returns peel
  listed : ∀ peel, peel ∈ replay.order ↔ peel ∈ replay.byPeel
  once : replay.order.Nodup

theorem Replay.Knows.add (knows : replay.Knows returns) (message : Message) :
    (replay.add message).Knows (returns ++ message.return?.toList) := by
  unfold Replay.add
  cases message.return? with
  | none => simpa using knows
  | some ret =>
    simp only [Option.toList_some]
    constructor
    · intro peel
      rw [newest_concat]
      by_cases same : ret.peelID = peel
      · subst same
        simp
      · simp [same, lookup_insert_ne (Ne.symm same), knows.newest]
    · intro peel
      by_cases known : ret.peelID ∈ replay.byPeel
      · simp only [known, if_true, knows.listed, mem_insert]
        exact ⟨.inr, fun either => either.elim (fun same => same ▸ known) id⟩
      · simp [known, knows.listed, or_comm]
    · by_cases known : ret.peelID ∈ replay.byPeel
      · simpa [known] using knows.once
      · have fresh : ret.peelID ∉ replay.order := fun listed => known ((knows.listed _).mp listed)
        simpa [known] using Nodup.concat fresh knows.once

theorem Replay.Knows.foldl (knows : replay.Knows returns) (messages : List Message) :
    (messages.foldl Replay.add replay).Knows (returns ++ messages.filterMap Message.return?) := by
  induction messages generalizing replay returns with
  | nil => simpa using knows
  | cons message messages ih =>
    have rest := ih (knows.add message)
    cases read : message.return? <;> simpa [read] using rest

/-- Reading batches up to the empty one is reading their messages. -/
theorem Replay.read_delivering (replay : Replay) {batches : List (List Message)}
    (filled : ∀ batch ∈ batches, batch ≠ []) :
    replay.read (batches.map (.batch · none) ++ [.batch [] none]) =
      .ok (batches.flatten.foldl Replay.add replay) := by
  induction batches generalizing replay with
  | nil => rfl
  | cons batch batches ih =>
    obtain ⟨first, rest⟩ := forall_mem_cons.mp filled
    simp only [List.map_cons, List.cons_append, Replay.read, List.isEmpty_iff, first, if_false]
    rw [ih _ rest, flatten_cons, foldl_append]

/-- A replay returns the newest return of each peel, and no other. -/
theorem Replay.Knows.filter_returns (knows : replay.Knows returns) (peel : String) :
    replay.returns.filter (·.peelID = peel) = (Jobs.newest returns peel).toList := by
  have own : ∀ {key r}, replay.byPeel.lookup key = some r → r.peelID = key := by
    intro key r found
    rw [knows.newest] at found
    simpa using find?_some found
  have part : replay.returns.filter (·.peelID = peel) =
      (replay.order.filter (· = peel)).filterMap replay.byPeel.lookup := by
    rw [Replay.returns, filter_filterMap, filterMap_filter]
    congr 1
    funext key
    cases found : replay.byPeel.lookup key with
    | none => simp
    | some r => simp [own found, Option.filter]
  rw [part, filter_eq, Nodup.count knows.once]
  by_cases listed : peel ∈ replay.order
  · cases found : Jobs.newest returns peel <;> simp [listed, knows.newest, found]
  · have absent : replay.byPeel.lookup peel = none :=
      lookup_eq_none.mpr fun known => listed ((knows.listed peel).mpr known)
    rw [knows.newest] at absent
    simp [listed, absent]

theorem filter_unseen (seen : List String) (returns : List Return) :
    (unseen seen returns).filter (·.peelID = peel) =
      if peel = "" ∨ peel ∈ seen then [] else (returns.filter (·.peelID = peel)).take 1 := by
  induction returns generalizing seen with
  | nil => simp [unseen]
  | cons r returns ih =>
    unfold unseen
    by_cases known : r.peelID = "" ∨ r.peelID ∈ seen
    · simp only [Bool.or_eq_true, decide_eq_true_eq, known, if_true, ih]
      by_cases same : r.peelID = peel
      · subst same
        simp [known]
      · simp [same]
    · simp only [Bool.or_eq_true, decide_eq_true_eq, known, if_false]
      by_cases same : r.peelID = peel
      · subst same
        simp [known, ih]
      · simp [same, ih, Ne.symm same]

section
variable (now : Int) {j : Job} (bucket : List (String × Option Return))

def returnsOf (batches : List (List Message)) : List Return :=
  batches.flatten.filterMap Message.return?

theorem replay_invalid (invalid : replayable jid = false) (consumer : Except String (List Fetch)) :
    replayReturnsFromStream jid consumer =
      .error ("job: replay returns: invalid jid " ++ jid.quote) := by
  simp only [replayReturnsFromStream, invalid]
  rfl

theorem replay_delivering (valid : replayable j.jid = true)
    (filled : ∀ batch ∈ batches, batch ≠ []) :
    ∃ returns, replayReturnsFromStream j.jid (delivering batches) = .ok returns ∧
      ∀ peel, returns.filter (·.peelID = peel) = (newest (returnsOf batches) peel).toList := by
  have start : ({} : Replay).Knows [] := ⟨fun _ => rfl, fun _ => by simp, nodup_nil⟩
  refine ⟨(batches.flatten.foldl Replay.add {}).returns, ?_, ?_⟩
  · simp [replayReturnsFromStream, delivering, valid, Replay.read_delivering _ filled]
  · exact fun peel => (start.foldl batches.flatten).filter_returns peel

theorem filter_targetReturns {w : Watcher} (named : peel ≠ "") (target : peel ∈ w.job.targets)
    (returns : List Return) :
    (w.targetReturns returns).filter (·.peelID = peel) = returns.filter (·.peelID = peel) := by
  rw [targetReturns, filter_filter]
  refine filter_congr fun r _ => ?_
  by_cases same : r.peelID = peel <;> simp [same, named, target, isTarget]

theorem filter_targetReturns_unnamed (w : Watcher) (returns : List Return) :
    (w.targetReturns returns).filter (·.peelID = "") = [] := by
  rw [targetReturns, filter_filter, filter_eq_nil_iff]
  intro r _
  by_cases same : r.peelID = "" <;> simp [same]

theorem newest_eq_filter (returns : List Return) :
    newest returns peel = newest (returns.filter (·.peelID = peel)) peel :=
  (newest_filter (fun r same => by simpa using same) returns).symm

theorem targets_newWatcher : (newWatcher now j).job.targets = j.targets := by
  unfold newWatcher normalizeDeadline
  split <;> rfl

theorem lookup_recoveryWatcher (named : peel ≠ "") (target : peel ∈ j.targets)
    (filled : ∀ batch ∈ batches, batch ≠ []) :
    (recoveryWatcher now j bucket
        (some (replayReturnsFromStream j.jid (delivering batches)))).returns.lookup peel =
      (newest (recoverPerPeelReturns j.jid bucket) peel).or
        (if replayable j.jid then newest (returnsOf batches) peel else none) := by
  have target' : peel ∈ (newWatcher now j).job.targets := by rwa [targets_newWatcher now]
  unfold recoveryWatcher
  generalize recoverPerPeelReturns j.jid bucket = existing
  have seeded : ((newWatcher now j).seedReturns existing).returns.lookup peel =
      newest existing peel := by
    rw [seedReturns, lookup_foldl_insert, newest_eq_filter,
      filter_targetReturns named target', ← newest_eq_filter]
    exact Option.or_none
  rw [seedReturnsPersist, lookup_foldl_mergeReturn,
    filter_targetReturns (w := (newWatcher now j).seedReturns existing) named target', seeded]
  cases valid : replayable j.jid with
  | false => simp [replayed, replay_invalid valid]
  | true =>
    obtain ⟨returns, replay, only⟩ := replay_delivering valid filled
    simp only [replay, replayed, filter_unseen, only, named, false_or]
    cases held : newest existing peel with
    | none =>
      have fresh := newest_eq_none.mp held
      cases newest (returnsOf batches) peel <;> simp [fresh, merged, supersedesReturn]
    | some r =>
      have seen : peel ∈ existing.map Return.peelID := by
        by_contra fresh
        cases held.symm.trans (newest_eq_none.mpr fresh)
      simp [seen]

theorem targets_recoveryWatcher (replay : Option (Except String (List Return))) :
    (recoveryWatcher now j bucket replay).job.targets = j.targets := by
  unfold recoveryWatcher seedReturnsPersist
  rw [job_foldl _ job_mergeReturn]
  exact targets_newWatcher now

theorem lookup_recoveryWatcher_unnamed (replay : Option (Except String (List Return))) :
    (recoveryWatcher now j bucket replay).returns.lookup "" = none := by
  unfold recoveryWatcher
  rw [seedReturnsPersist, lookup_foldl_mergeReturn, filter_targetReturns_unnamed,
    foldl_nil, seedReturns, lookup_foldl_insert, newest_eq_filter,
    filter_targetReturns_unnamed]
  rfl

theorem lookup_mergeGapReturns (named : peel ≠ "")
    (target : peel ∈ w.job.targets) (filled : ∀ batch ∈ later, batch ≠ []) :
    (mergeGapReturns w (some (replayReturnsFromStream j.jid (delivering later)))).returns.lookup
      peel = if replayable j.jid then
        (newest (returnsOf later) peel).toList.foldl merged (w.returns.lookup peel)
      else w.returns.lookup peel := by
  cases valid : replayable j.jid with
  | false => simp [mergeGapReturns, replay_invalid valid]
  | true =>
    obtain ⟨returns, replay, only⟩ := replay_delivering valid filled
    simp only [replay, mergeGapReturns, mergeReturns, lookup_foldl_mergeReturn,
      filter_targetReturns named target, only, if_true]

theorem lookup_mergeGapReturns_unnamed (w : Watcher)
    (replay : Option (Except String (List Return))) :
    (mergeGapReturns w replay).returns.lookup "" = w.returns.lookup "" := by
  unfold mergeGapReturns
  split
  · rw [mergeReturns, lookup_foldl_mergeReturn, filter_targetReturns_unnamed]
    rfl
  · rfl

end

def isReal (recorded : Option Return) : Bool := recorded.any fun r => !r.unreachable

@[simp] theorem isReal_some (r : Return) : isReal (some r) = !r.unreachable := rfl

theorem isReal_merged (recorded : Option Return) (incoming : Return) :
    isReal (merged recorded incoming) = (isReal recorded || !incoming.unreachable) := by
  cases recorded with
  | none => simp [merged, supersedesReturn, isReal]
  | some r =>
    cases old : r.unreachable <;> cases new : incoming.unreachable <;>
      simp [merged, supersedesReturn, isReal, old, new]

/-- The recovered watcher of a running job, after the second replay if there is one. -/
def recovered (now : Int) (j : Job) (bucket : List (String × Option Return))
    (batches : List (List Message)) (gap : Option (List (List Message))) : Watcher :=
  mergeGapReturns
    (recoveryWatcher now j bucket (some (replayReturnsFromStream j.jid (delivering batches))))
    (gap.map fun later => replayReturnsFromStream j.jid (delivering later))

/-- The recovery of a job records a real return for a target exactly if the bucket holds one,
or holds none at all and the newest one in the stream is real, or if the stream is read a
second time and the newest one is real then. -/
theorem recovered_real_iff (now : Int) (j : Job) (bucket : List (String × Option Return))
    (batches : List (List Message)) (gap : Option (List (List Message)))
    (filled : ∀ batch ∈ batches, batch ≠ [])
    (gapFilled : ∀ later ∈ gap, ∀ batch ∈ later, batch ≠ [])
    (peel : String) (target : peel ∈ j.targets) :
    isReal ((recovered now j bucket batches gap).returns.lookup peel) = true ↔
      peel ≠ "" ∧ (isReal (newest (recoverPerPeelReturns j.jid bucket) peel) = true ∨
        (newest (recoverPerPeelReturns j.jid bucket) peel = none ∧ replayable j.jid = true ∧
          isReal (newest (returnsOf batches) peel) = true) ∨
        (replayable j.jid = true ∧
          ∃ later ∈ gap, isReal (newest (returnsOf later) peel) = true)) := by
  by_cases named : peel = ""
  · subst named
    simp [recovered, lookup_mergeGapReturns_unnamed, lookup_recoveryWatcher_unnamed, isReal]
  have direct : isReal ((recoveryWatcher now j bucket
      (some (replayReturnsFromStream j.jid (delivering batches)))).returns.lookup peel) = true ↔
      isReal (newest (recoverPerPeelReturns j.jid bucket) peel) = true ∨
        (newest (recoverPerPeelReturns j.jid bucket) peel = none ∧ replayable j.jid = true ∧
          isReal (newest (returnsOf batches) peel) = true) := by
    rw [lookup_recoveryWatcher now bucket named target filled]
    cases newest (recoverPerPeelReturns j.jid bucket) peel <;> cases replayable j.jid <;>
      simp [isReal]
  have target' : peel ∈ (recoveryWatcher now j bucket
      (some (replayReturnsFromStream j.jid (delivering batches)))).job.targets := by
    rwa [targets_recoveryWatcher]
  unfold recovered
  generalize recoveryWatcher now j bucket _ = w at direct target' ⊢
  cases gap with
  | none => simpa [mergeGapReturns, named] using direct
  | some later =>
    rw [Option.map_some, lookup_mergeGapReturns named target' (gapFilled later rfl), ← or_assoc,
      ← direct]
    cases replayable j.jid with
    | false => simp [named]
    | true =>
      cases last : newest (returnsOf later) peel with
      | none => simp [named, last, isReal]
      | some r => simp [named, last, isReal_merged]

def synthetic : Return :=
  { jid := "j1", peelID := "web1", error := unreachableError, unreachable := true, timestamp := 5 }

def success : Return := { jid := "j1", peelID := "web1", success := true, timestamp := 7 }

def oneTarget : Job :=
  { jid := "j1", targets := ["web1"], status := .running, epoch := 4, deadline := 60 }

def onStream (r : Return) : Message := ⟨"zester.job.j1.return." ++ r.peelID, some r⟩

theorem recovered_real_iff_gap :
    isReal ((recovered 50 oneTarget [("j1.web1", some synthetic)] [[onStream success]]
      (some [[onStream success]])).returns.lookup "web1") = true :=
  (recovered_real_iff 50 oneTarget [("j1.web1", some synthetic)] [[onStream success]]
    (some [[onStream success]]) (by simp) (by simp) "web1" (by decide)).mpr
    ⟨by decide, .inr (.inr ⟨by decide, _, rfl, by decide⟩)⟩

/-- The peel answered after it had been given up: its return is in the stream only. A watcher
that ends before it subscribes never sees it, and one that reads a synthetic return after
the real one forgets it. -/
theorem real_return_given_up :
    (recovered 70 oneTarget [("j1.web1", some synthetic)] [[onStream success]]
        none).returns.lookup "web1" = some synthetic ∧
      (recovered 50 oneTarget [] [[onStream success, onStream synthetic]]
        (some [[onStream success, onStream synthetic]])).returns.lookup "web1" = some synthetic :=
  ⟨by decide, by decide⟩

end Zester.Jobs
