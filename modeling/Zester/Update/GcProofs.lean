import Zester.Update.Gc

/-! Which binaries a pass deletes, when it spares those that a rollout still needs, and which it
reclaims when nothing fails. The record of a dry run is never driven and never becomes terminal,
but it holds its version as the record of any other rollout does. -/
namespace Zester.Update
open List

/-- The object is a binary of the version that the rollout is for. -/
def Deletion.Of : Deletion → Rollout → Prop
  | .binary m, r => r.config.component = m.component ∧ r.config.version = m.version
  | .orphan info, r =>
    ∃ goos goarch, info.name = objectKeyFor r.config.component goos goarch r.config.version

def Stored.Readable {α : Type} (entry : Stored α) : Prop := ∃ a, entry.read = .ok a

namespace BinaryGC

section
variable (g : BinaryGC) (started : Deletion → List StartCall) (now : Int)

/-- The records in the bucket when an object is deleted: those that were there when the pass listed
them, and those that calls of `StartRollout` stored since then. -/
def recordsAt (d : Deletion) : List Rollout :=
  g.rollouts.entries.filterMap (·.value) ++ (started d).filterMap fun call =>
    (startRollout call).toOption

/-- The pass deletes no binary of a version with a live rollout, and none at all after a record that
it could not read. -/
structure Spares : Prop where
  live : ∀ d ∈ (g.run now).1, ∀ r ∈ g.recordsAt started d, r.live = true → ¬ d.Of r
  refuses : (∃ entry ∈ g.rollouts.entries, ¬ entry.Readable) → (g.run now).1 = []

/-- A readable record of a live rollout names the version. -/
def Claimed (component version : String) : Prop :=
  ∃ entry ∈ g.rollouts.entries, ∃ r, entry.read = .ok r ∧ r.live = true ∧
    versionKey r.config.component r.config.version = versionKey component version

def Due (d : Deletion) : Prop :=
  ∃ manifests, manifestStoreList g.manifests = .ok manifests ∧ g.rollouts.failure = none ∧
    match d with
    | .binary m => m ∈ manifests ∧ m.expired now = true ∧ ¬ g.Claimed m.component m.version
    | .orphan info => (∃ infos, g.binaries = .ok infos ∧ some info ∈ infos) ∧
        (∀ m ∈ manifests, m.objectKey ≠ info.name) ∧ orphanMinAge ≤ now - info.modTime

end

variable {g : BinaryGC}

theorem mem_reapAll {manifests : List BinaryManifest} : d ∈ (g.reapAll active now manifests res).1 ↔
      ∃ m ∈ manifests, d = .binary m ∧ m.expired now = true ∧
        versionKey m.component m.version ∉ active := by
  induction manifests generalizing res with
  | nil => simp [reapAll]
  | cons m rest ih =>
    have one : ∀ res, d ∈ (g.reap active now m res).1 ↔
        d = .binary m ∧ m.expired now = true ∧ versionKey m.component m.version ∉ active := by
      intro res
      unfold reap
      split
      · rename_i kept
        simp only [Bool.not_eq_eq_eq_not, Bool.not_true] at kept
        simp [kept]
      · rename_i expired
        simp only [Bool.not_eq_eq_eq_not, Bool.not_true, Bool.not_eq_false] at expired
        split
        · rename_i claimed
          simp [claimed]
        · rename_i free
          simp [expired, free]
    simp only [reapAll, mem_append, one, ih, mem_cons, exists_eq_or_imp]

theorem mem_sweepAll : d ∈ (g.sweepAll named now infos res).1 ↔
      ∃ info, some info ∈ infos ∧ d = .orphan info ∧ info.name ∉ named ∧
        orphanMinAge ≤ now - info.modTime := by
  induction infos generalizing res with
  | nil => simp [sweepAll]
  | cons first rest ih =>
    have one : ∀ res, d ∈ (g.sweep named now first res).1 ↔ ∃ info, some info = first ∧
        d = .orphan info ∧ info.name ∉ named ∧ orphanMinAge ≤ now - info.modTime := by
      intro res
      unfold sweep
      cases first with
      | none => simp
      | some info =>
        dsimp only
        split
        · rename_i member
          simp [member]
        split
        · rename_i young
          simp [young]
        · rename_i free old
          simp [free, Int.not_lt.mp old]
    simp only [sweepAll, mem_append, one, ih, mem_cons, or_and_right, exists_or]

theorem toOption_eq_some {x : Except ε α} {a : α} : x.toOption = some a ↔ x = .ok a := by
  cases x <;> simp [Except.toOption]

theorem rolloutStoreList_eq (shelf : Shelf Rollout) : rolloutStoreList shelf =
      match shelf.failure with
      | some text => .error ("update: rollout list keys: " ++ text)
      | none => .ok (shelf.entries.filterMap fun entry => entry.read.toOption) := by
  unfold rolloutStoreList Shelf.keys
  cases shelf.failure with
  | some text => rfl
  | none =>
    cases shelf.entries with
    | nil | cons entry rest => rfl

/-- The versions that a pass takes for active are those of the live rollouts that it could read. -/
theorem activeRolloutVersions_spec (listed : g.activeRolloutVersions = .ok active)
    (component version : String) :
    versionKey component version ∈ active ↔ g.Claimed component version := by
  unfold activeRolloutVersions at listed
  rw [rolloutStoreList_eq] at listed
  cases failure : g.rollouts.failure with
  | some text => rw [failure] at listed; cases listed
  | none =>
    rw [failure] at listed
    cases listed
    simp only [mem_map, mem_filter, mem_filterMap, toOption_eq_some, Claimed]
    constructor
    · rintro ⟨r, ⟨⟨entry, member, read⟩, live⟩, same⟩
      exact ⟨entry, member, r, read, live, same⟩
    · rintro ⟨entry, member, r, read, live, same⟩
      exact ⟨r, ⟨⟨entry, member, read⟩, live⟩, same⟩

theorem activeRolloutVersions_ok :
    (∃ active, g.activeRolloutVersions = .ok active) ↔ g.rollouts.failure = none := by
  unfold activeRolloutVersions
  rw [rolloutStoreList_eq]
  cases g.rollouts.failure <;> simp [bind, Except.bind, pure, Except.pure]

theorem mem_run : d ∈ (g.run now).1 ↔ g.Due now d := by
  unfold run Due
  cases listed : manifestStoreList g.manifests with
  | error text => simp
  | ok manifests =>
    cases found : g.activeRolloutVersions with
    | error text =>
      have failed : g.rollouts.failure ≠ none := by
        intro fine
        obtain ⟨active, ok⟩ := activeRolloutVersions_ok.mpr fine
        cases found.symm.trans ok
      simp [failed]
    | ok active =>
      have fine := activeRolloutVersions_ok.mp ⟨active, found⟩
      have claimed := activeRolloutVersions_spec found
      cases objects : g.binaries with
      | error text =>
        cases d with
        | binary m => simp [mem_reapAll, fine, claimed]
        | orphan info => simp [mem_reapAll]
      | ok infos =>
        cases d with
        | binary m => simp [mem_reapAll, mem_sweepAll, fine, claimed]
        | orphan info => simp [mem_reapAll, mem_sweepAll, fine]

theorem read_eq_value {entry : Stored α} {a : α} (readable : entry.Readable)
    (stored : entry.value = some a) : entry.read = .ok a := by
  obtain ⟨b, read⟩ := readable
  unfold Stored.read at read ⊢
  cases failure : entry.failure with
  | some text => rw [failure] at read; cases read
  | none => rw [stored]

/-- With every record readable, what is due by its manifest is of no live rollout's version. -/
theorem due_binary_unclaimed (readable : ∀ entry ∈ g.rollouts.entries, entry.Readable)
    (due : g.Due now (.binary m)) (member : entry ∈ g.rollouts.entries)
    (stored : entry.value = some r) (live : r.live = true) : ¬ (Deletion.binary m).Of r := by
  rintro ⟨component, version⟩
  obtain ⟨_, _, _, _, _, unclaimed⟩ := due
  exact unclaimed ⟨entry, member, r, read_eq_value (readable entry member) stored, live,
    by rw [component, version]⟩

/-- A pass spares the live rollouts, if and only if every rollout record is readable or nothing is
due, no rollout of a due version is started between the listing and the deletion, and no due object
without a manifest is a binary of a live rollout's version. -/
theorem gc_spares_rollouts_iff (g : BinaryGC) (started : Deletion → List StartCall) (now : Int) :
    g.Spares started now ↔ ((∀ entry ∈ g.rollouts.entries, entry.Readable) ∨ ∀ d, ¬ g.Due now d) ∧
      (∀ d, g.Due now d → ∀ call ∈ started d, ∀ r, startRollout call = .ok r → ¬ d.Of r) ∧
      (∀ info, g.Due now (.orphan info) → ∀ entry ∈ g.rollouts.entries, ∀ r, entry.value = some r →
        r.live = true → ¬ (Deletion.orphan info).Of r) := by
  constructor
  · intro spares
    refine ⟨?_, fun d due call member r stored => ?_, fun info due entry member r stored live => ?_⟩
    · by_cases readable : ∀ entry ∈ g.rollouts.entries, entry.Readable
      · exact .inl readable
      push Not at readable
      refine .inr fun d due => ?_
      have deletes := mem_run.mpr due
      rw [spares.refuses readable] at deletes
      cases deletes
    · refine spares.live d (mem_run.mpr due) r (mem_append_right _ ?_) (startRollout_live stored).1
      exact mem_filterMap.mpr ⟨call, member, toOption_eq_some.mpr stored⟩
    · refine spares.live _ (mem_run.mpr due) r (mem_append_left _ ?_) live
      exact mem_filterMap.mpr ⟨entry, member, stored⟩
  · rintro ⟨readableOrIdle, noStart, noOrphan⟩
    constructor
    · intro d deletes r present live
      have due := mem_run.mp deletes
      obtain readable | idle := readableOrIdle
      · obtain listed | later := mem_append.mp present
        · obtain ⟨entry, member, stored⟩ := mem_filterMap.mp listed
          cases d with
          | binary m => exact due_binary_unclaimed readable due member stored live
          | orphan info => exact noOrphan info due entry member r stored live
        · obtain ⟨call, member, stored⟩ := mem_filterMap.mp later
          exact noStart d due call member r (toOption_eq_some.mp stored)
      · exact absurd due (idle d)
    · rintro ⟨entry, member, unreadable⟩
      obtain readable | idle := readableOrIdle
      · exact absurd (readable entry member) unreadable
      · exact eq_nil_iff_forall_not_mem.mpr fun d deletes => idle d (mem_run.mp deletes)

def oldPeel : BinaryManifest where
  version := "0.4.0"
  component := "peel"
  promoted := false
  goos := "linux"
  goarch := "amd64"
  sha256 := "9f86d081"
  objectKey := objectKeyFor "peel" "linux" "amd64" "0.4.0"
  published := 0
  minProtocol := 0
  expiresAtUnix := 1000

def oldPeelRollout : Rollout where
  id := "rol-2xQ"
  config := ⟨"0.4.0", "peel", "*", 1, 0, 60 * secondNanos, 30 * secondNanos, 1, false, ""⟩
  state := .rolling
  batches := [["web-01"]]
  nodeResults := []
  currentBatch := 0
  startedAt := 0
  finishedAt := none
  failedCount := 0
  error := ""
  driverID := "drv-1"
  driverHeartbeat := 0
  revision := 2

/-- The record of the rollout cannot be read for once. -/
def unreadableGC : BinaryGC where
  manifests := ⟨none, [⟨"peel.linux.amd64.0.4.0", some oldPeel, none⟩]⟩
  rollouts := ⟨none, [⟨"rol-2xQ", some oldPeelRollout, some "nats: timeout"⟩]⟩
  binaries := .ok []
  deleteBinary _ := none
  deleteManifest _ := none

/-- The binary of a running rollout is deleted, because its record could not be read. -/
theorem unreadable_rollout_loses_binary :
    (unreadableGC.run (2000 * secondNanos)).1 = [.binary oldPeel] ∧ oldPeelRollout.live = true ∧
      ¬ unreadableGC.Spares (fun _ => []) (2000 * secondNanos) := by
  have deletes : (unreadableGC.run (2000 * secondNanos)).1 = [.binary oldPeel] := by decide
  refine ⟨deletes, rfl, fun spares => ?_⟩
  refine spares.live (.binary oldPeel)
    (by rw [deletes]; exact mem_singleton.mpr rfl) oldPeelRollout ?_ rfl
    ⟨rfl, rfl⟩
  exact mem_singleton.mpr rfl

end BinaryGC

/-- A driver can still drive the rollout. -/
def Rollout.drivable (r : Rollout) : Bool := r.live && !r.config.dryRun

def Deletion.version? : Deletion → Option String
  | .binary m => some m.objectKey
  | .orphan _ => none

def Deletion.orphan? : Deletion → Option String
  | .binary _ => none
  | .orphan info => some info.name

namespace BinaryGC
variable (g : BinaryGC) (now : Int) (manifests : List BinaryManifest)
    (infos : List (Option ObjectInfo))

/-- All records are read, and what is there is deleted. -/
structure Faultless : Prop where
  manifests : manifestStoreList g.manifests = .ok manifests
  rollouts : g.rollouts.failure = none ∧ ∀ entry ∈ g.rollouts.entries, entry.Readable
  binaries : g.binaries = .ok infos
  missing : ∀ key, (g.deleteBinary key).any (fun text => !objectGone text) = false
  listed : ∀ info, some info ∈ infos → g.deleteBinary info.name = none
  unpublished : ∀ key, g.deleteManifest key = none

/-- A rollout that can still be driven is for the version. -/
def Needed (m : BinaryManifest) : Prop :=
  ∃ entry ∈ g.rollouts.entries, ∃ r, entry.value = some r ∧ r.drivable = true ∧
    r.config.component = m.component ∧ r.config.version = m.version

/-- What a pass should delete. -/
def Garbage : Deletion → Prop
  | .binary m => m ∈ manifests ∧ m.expired now = true ∧ ¬ g.Needed m
  | .orphan info =>
    some info ∈ infos ∧ (∀ m ∈ manifests, m.objectKey ≠ info.name) ∧
      orphanMinAge ≤ now - info.modTime

/-- A version is reported when its object and its manifest are deleted. -/
def Reports (before after : GCResult) (calls : List Deletion) : Prop :=
  after.deleted = before.deleted ++ calls.filterMap Deletion.version? ∧
    after.orphans = before.orphans ++ calls.filterMap Deletion.orphan?

def Reclaims : Prop :=
  (∀ d, d ∈ (g.run now).1 ↔ g.Garbage now manifests infos d) ∧ ∃ res, (g.run now).2 = .ok res ∧
    Reports {} res (g.run now).1

variable {g now manifests infos}

theorem Reports.append (first : Reports before res calls) (second : Reports res final calls') :
    Reports before final (calls ++ calls') := by
  simp [Reports, first.1, first.2, second.1, second.2]

theorem Faultless.reapAll (faultless : g.Faultless manifests infos) (ms : List BinaryManifest)
    (res : GCResult) :
    Reports res (g.reapAll active now ms res).2 (g.reapAll active now ms res).1 := by
  induction ms generalizing res with
  | nil => simp [BinaryGC.reapAll, Reports]
  | cons m rest ih =>
    have one : Reports res (g.reap active now m res).2 (g.reap active now m res).1 := by
      unfold reap
      rw [faultless.missing, faultless.unpublished]
      split_ifs <;> simp_all [Reports, Deletion.version?, Deletion.orphan?]
    exact one.append (ih _)

theorem sweepAll_reports (listed : ∀ info, some info ∈ infos → g.deleteBinary info.name = none)
    (res : GCResult) :
    Reports res (g.sweepAll named now infos res).2 (g.sweepAll named now infos res).1 := by
  induction infos generalizing res with
  | nil => simp [sweepAll, Reports]
  | cons first rest ih =>
    have one : Reports res (g.sweep named now first res).2 (g.sweep named now first res).1 := by
      cases first with
      | none => simp [sweep, Reports]
      | some info =>
        simp only [sweep, listed info mem_cons_self]
        split_ifs <;> simp_all [Reports, Deletion.version?, Deletion.orphan?]
    exact one.append (ih (fun info member => listed info (mem_cons_of_mem _ member)) _)

/-- With nothing failing, a pass reclaims what it should, if and only if every expired version that
a live record names is one that a drivable rollout is for. -/
theorem gc_reclaims_iff (g : BinaryGC) (now : Int) (manifests : List BinaryManifest)
    (infos : List (Option ObjectInfo)) (faultless : g.Faultless manifests infos) :
    g.Reclaims now manifests infos ↔
      ∀ m ∈ manifests, m.expired now = true → g.Claimed m.component m.version → g.Needed m := by
  obtain ⟨active, found⟩ := activeRolloutVersions_ok.mpr faultless.rollouts.1
  constructor
  · intro reclaims m member expired claimed
    by_contra unneeded
    have deletes := mem_run.mp ((reclaims.1 (.binary m)).mpr ⟨member, expired, unneeded⟩)
    obtain ⟨-, -, -, -, -, unclaimed⟩ := deletes
    exact unclaimed claimed
  · intro dry
    refine ⟨fun d => mem_run.trans ?_, ?_⟩
    · cases d with
      | orphan info =>
        simp [Due, Garbage, faultless.manifests, faultless.rollouts, faultless.binaries]
      | binary m =>
        simp only [Due, Garbage, faultless.manifests, faultless.rollouts, Except.ok.injEq,
          exists_eq_left', true_and]
        refine and_congr_right fun member => and_congr_right fun expired =>
          not_congr ⟨dry m member expired, ?_⟩
        rintro ⟨entry, among, r, stored, drivable, component, version⟩
        refine ⟨entry, among, r, read_eq_value (faultless.rollouts.2 entry among) stored, ?_,
          by rw [component, version]⟩
        exact (Bool.and_eq_true_iff.mp drivable).1
    · simp only [run, faultless.manifests, found, faultless.binaries]
      exact ⟨_, rfl, (faultless.reapAll manifests {}).append (sweepAll_reports faultless.listed _)⟩

/-- An expired version, and one record that names it, as it is stored at its start. -/
def claimedGC (dryRun : Bool) : BinaryGC where
  manifests := ⟨none, [⟨"peel.linux.amd64.0.4.0", some oldPeel, none⟩]⟩
  rollouts := ⟨none, [⟨"rol-2xQ", some { oldPeelRollout with
    state := .created, config := { oldPeelRollout.config with dryRun := dryRun } }, none⟩]⟩
  binaries := .ok [some ⟨"peel/linux/amd64/0.3.0", 0⟩]
  deleteBinary _ := none
  deleteManifest _ := none

theorem claimedGC_faultless (dryRun : Bool) :
    (claimedGC dryRun).Faultless [oldPeel] [some ⟨"peel/linux/amd64/0.3.0", 0⟩] where
  manifests := by cases dryRun <;> decide
  rollouts := ⟨rfl, by simp [claimedGC, Stored.Readable, Stored.read]⟩
  binaries := rfl
  missing _ := rfl
  listed _ _ := rfl
  unpublished _ := rfl

theorem gc_reclaims_iff_rolling :
    (claimedGC false).Reclaims (4000 * secondNanos) [oldPeel]
    [some ⟨"peel/linux/amd64/0.3.0", 0⟩] := by
  refine (gc_reclaims_iff _ _ _ _ (claimedGC_faultless false)).mpr fun m member _ _ => ?_
  obtain rfl := mem_singleton.mp member
  exact ⟨_, mem_singleton.mpr rfl, _, rfl, by decide, rfl, rfl⟩

/-- The version of a dry run is kept for good. -/
theorem dry_run_keeps_binary :
    (claimedGC true).Faultless [oldPeel] [some ⟨"peel/linux/amd64/0.3.0", 0⟩] ∧
      (claimedGC true).Garbage (4000 * secondNanos) [oldPeel]
      [some ⟨"peel/linux/amd64/0.3.0", 0⟩] (.binary oldPeel) ∧
      .binary oldPeel ∉ ((claimedGC true).run (4000 * secondNanos)).1 := by
  refine ⟨claimedGC_faultless true, ⟨mem_singleton.mpr rfl, by decide, ?_⟩, by decide⟩
  rintro ⟨entry, member, r, stored, drivable, -⟩
  obtain rfl := mem_singleton.mp member
  cases stored
  cases drivable

end BinaryGC
end Zester.Update
