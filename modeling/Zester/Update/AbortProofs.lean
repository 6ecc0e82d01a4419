import Zester.Update.AutoRollout

/-! Which aborted rollouts keep a promoted version from being rolled out. The decision looks at the
IDs of the records, in which a version is only a part of a text. -/
namespace Zester.Update
open List

/-- The random part of the ID of a rollout that an operator started. -/
abbrev Ksuid := { text : String // ∀ c ∈ text.toList, c.isAlphanum = true }

abbrev Ended := { state : RolloutPhase // rolloutTerminal state = true }

/-- A rollout that has ended: a run of the auto-rollout, or one that an operator started. -/
inductive Past where
  | auto (component version : String) (generation : Nat) (state : Ended) (dryRun : Bool)
  | manual (ksuid : Ksuid) (component : String) (state : Ended) (dryRun : Bool)

def Past.record : Past → RolloutState
  | .auto component version generation state dryRun =>
    ⟨autoRolloutID component version generation, state, component, dryRun⟩
  | .manual ksuid component state dryRun => ⟨"rol-" ++ ksuid, state, component, dryRun⟩

def Aborted (past : List (Option Past)) (component version : String) : Prop :=
  ∃ generation state dryRun, some (.auto component version generation state dryRun) ∈ past ∧
    state.1 = .aborted

/-- What the ID of a run says about its target. -/
def targetName (component version : String) : String :=
  component ++ "-" ++ rolloutIDSanitize version

/-- The ID of the run reads like one of the target: the names are the same, the name of the run
goes on with `-r`, or that of the target ends in the generation of the run. -/
def ReadsLike (component version component' version' : String) (generation : Nat) : Prop :=
  targetName component' version' = targetName component version ∨
  (targetName component version ++ "-r").toList <+: (targetName component' version').toList ∨
  targetName component version = targetName component' version' ++ "-r" ++ toString generation

instance (component version component' version' : String) (generation : Nat) :
    Decidable (ReadsLike component version component' version' generation) :=
  inferInstanceAs (Decidable (_ ∨ _ ∨ _))

theorem marked_prefix (plain : '-' ∉ d) :
    a ++ ['-', 'r'] <+: b ++ ['-', 'r'] ++ d ↔ b = a ∨ a ++ ['-', 'r'] <+: b := by
  constructor
  · rintro ⟨s, same⟩
    rw [append_assoc, append_assoc] at same
    obtain ⟨u, rfl, rest⟩ | ⟨u, rfl, rest⟩ := append_eq_append_iff.mp same
    · obtain _ | ⟨c, _ | ⟨c', u⟩⟩ := u
      · exact .inl (append_nil a)
      · simp at rest
      · obtain ⟨rfl, rfl, -⟩ : '-' = c ∧ 'r' = c' ∧ _ := by simpa using rest
        exact .inr ⟨u, by simp⟩
    · obtain _ | ⟨c, _ | ⟨c', u⟩⟩ := u
      · exact .inl (append_nil b).symm
      · simp at rest
      · obtain ⟨-, -, rfl⟩ : '-' = c ∧ 'r' = c' ∧ d = u ++ ('-' :: 'r' :: s) := by simpa using rest
        simp at plain
  · rintro (rfl | within)
    · exact prefix_append _ _
    · exact within.trans (by simp)

theorem dash_not_mem_toString (n : Nat) : '-' ∉ (toString n).toList := by
  intro dash
  rw [show toString n = Nat.repr n from rfl, Nat.toList_repr] at dash
  exact absurd (Nat.isDigit_of_mem_toDigits (by decide) (by decide) dash) (by decide)

/-- The test that the second loop makes of an ID. -/
def matchesBase (base id : String) : Bool := (base ++ "-r").toList.isPrefixOf id.toList || id = base

theorem matchesBase_auto (component version component' version' : String) (generation : Nat) :
    matchesBase (autoRolloutBase component version)
      (autoRolloutID component' version' generation) = true ↔
      ReadsLike component version component' version' generation := by
  have base : ∀ component version, (autoRolloutBase component version).toList =
      "rol-auto-".toList ++ (targetName component version).toList := by
    intro component version
    simp [autoRolloutBase, targetName, String.toList_append, append_assoc]
  have runs : (autoRolloutID component' version' generation).toList =
      "rol-auto-".toList ++ ((targetName component' version').toList ++ ['-', 'r'] ++
        (toString generation).toList) := by
    rw [autoRolloutID, String.toList_append, String.toList_append, base]
    simp [append_assoc]
  rw [matchesBase, Bool.or_eq_true, isPrefixOf_iff_prefix, decide_eq_true_eq, ReadsLike, ← or_assoc]
  refine or_congr ?_ ?_
  · rw [runs, String.toList_append, base, append_assoc, prefix_append_right_inj]
    rw [← String.toList_inj, String.toList_append]
    exact marked_prefix (dash_not_mem_toString generation)
  · rw [← String.toList_inj, runs, base, append_cancel_left_eq, ← String.toList_inj]
    simp only [String.toList_append]
    exact eq_comm

theorem matchesBase_manual (component version : String) (ksuid : Ksuid) :
    matchesBase (autoRolloutBase component version) ("rol-" ++ ksuid.1) = false := by
  have dashed : ∀ {rest : List Char},
      ¬ ("rol-auto-".toList ++ rest <+: ("rol-" ++ ksuid.1).toList) := by
    rintro rest ⟨s, same⟩
    have tail : ksuid.1.toList = ['a', 'u', 't', 'o', '-'] ++ rest ++ s := by
      simpa [String.toList_append] using same.symm
    exact absurd (ksuid.2 '-' (by simp [tail])) (by decide)
  have base : (autoRolloutBase component version).toList =
      "rol-auto-".toList ++ (targetName component version).toList := by
    simp [autoRolloutBase, targetName, String.toList_append, append_assoc]
  rw [matchesBase, Bool.or_eq_false_iff, decide_eq_false_iff_not]
  constructor
  · rw [Bool.eq_false_iff]
    intro found
    have prefixed := isPrefixOf_iff_prefix.mp found
    rw [String.toList_append, base, append_assoc] at prefixed
    exact dashed prefixed
  · intro same
    refine @dashed (targetName component version).toList ⟨[], ?_⟩
    rw [append_nil, same, base]

/-- Among rollouts that have ended, an aborted one with a matching ID is what stops the loop. -/
theorem nextGeneration_eq_none_iff
    (ended : ∀ r, some r ∈ rollouts → rolloutTerminal r.state = true) :
    nextGeneration component base generation rollouts = none ↔
      ∃ r, some r ∈ rollouts ∧ matchesBase base r.id = true ∧ r.state = .aborted := by
  induction rollouts generalizing generation with
  | nil => simp [nextGeneration]
  | cons r rollouts ih =>
    have rest : ∀ generation, _ := fun generation =>
      @ih generation fun r member => ended r (mem_cons_of_mem _ member)
    cases r with
    | none => simpa [nextGeneration] using rest generation
    | some r =>
      have terminal := ended r mem_cons_self
      rw [nextGeneration, if_neg (by simp [terminal]), ← matchesBase]
      simp only [mem_cons, Option.some.injEq, or_and_right, exists_or, exists_eq_left]
      split
      · rename_i found
        split <;> rename_i aborted
        · simp [found, aborted]
        · simp [rest, aborted]
      · rename_i other
        simp [rest, other]

/-- A run of some target, whose ID reads like one of the given target, was aborted. -/
def AbortedLike (past : List (Option Past)) (component version : String) : Prop :=
  ∃ component' version' generation state dryRun,
    some (.auto component' version' generation state dryRun) ∈ past ∧ state.1 = .aborted ∧
    ReadsLike component version component' version' generation

theorem Aborted.like (aborted : Aborted past component version) :
    AbortedLike past component version := by
  obtain ⟨generation, state, dryRun, member, state'⟩ := aborted
  exact ⟨component, version, generation, state, dryRun, member, state', .inl rfl⟩

theorem pickAutoRollout_eq_none_iff (component : String) (manifests : List (Option Manifest))
    (statuses : List (Option NodeStatus)) (past : List (Option Past)) (target : Manifest)
    (picked : pickTarget component manifests = some target)
    (lagging : laggingNodes target.version statuses ≠ []) :
    pickAutoRollout component manifests statuses (past.map (Option.map Past.record)) = none ↔
      AbortedLike past component target.version := by
  have ended : ∀ r, some r ∈ past.map (Option.map Past.record) →
      rolloutTerminal r.state = true := by
    intro r member
    obtain ⟨before, -, same⟩ := mem_map.mp member
    obtain ⟨run, rfl, rfl⟩ := Option.map_eq_some_iff.mp same
    cases run with
    | auto component version generation state dryRun | manual ksuid component state dryRun =>
      exact state.2
  have decides : pickAutoRollout component manifests statuses
      (past.map (Option.map Past.record)) = none ↔
      nextGeneration component (autoRolloutBase component target.version) 1
        (past.map (Option.map Past.record)) = none := by
    cases next : nextGeneration component (autoRolloutBase component target.version) 1
        (past.map (Option.map Past.record)) with
    | none => simp [pickAutoRollout, picked, next]
    | some generation => simp [pickAutoRollout, picked, next, lagging]
  rw [decides, nextGeneration_eq_none_iff ended]
  constructor
  · rintro ⟨r, member, found, aborted⟩
    obtain ⟨before, among, same⟩ := mem_map.mp member
    obtain ⟨run, rfl, rfl⟩ := Option.map_eq_some_iff.mp same
    cases run with
    | auto component' version' generation state dryRun =>
      exact ⟨component', version', generation, state, dryRun, among, aborted,
        (matchesBase_auto _ _ _ _ _).mp found⟩
    | manual ksuid component' state dryRun =>
      rw [Past.record, matchesBase_manual] at found
      cases found
  · rintro ⟨component', version', generation, state, dryRun, member, aborted, like⟩
    exact ⟨_, mem_map.mpr ⟨_, member, rfl⟩, (matchesBase_auto _ _ _ _ _).mpr like, aborted⟩

/-- For a promoted version with nodes that lag behind: only its own aborted runs block it, if and
only if one of them was aborted or no run whose ID reads like one of its own was. -/
theorem abort_blocks_its_version_iff (component : String) (manifests : List (Option Manifest))
    (statuses : List (Option NodeStatus)) (past : List (Option Past)) (target : Manifest)
    (picked : pickTarget component manifests = some target)
    (lagging : laggingNodes target.version statuses ≠ []) :
    ((pickAutoRollout component manifests statuses (past.map (Option.map Past.record)) = none ↔
        Aborted past component target.version) ↔
      (AbortedLike past component target.version → Aborted past component target.version)) := by
  rw [pickAutoRollout_eq_none_iff component manifests statuses past target picked lagging]
  exact ⟨Iff.mp, fun only => ⟨only, Aborted.like⟩⟩

def laggingNode : NodeStatus := ⟨"web-01", "0.4.9", false⟩

def promotedPeel (version : String) : Manifest := ⟨version, "peel", true⟩

def abortedRun (version : String) : Past := .auto "peel" version 1 ⟨.aborted, rfl⟩ false

/-- The aborted run of another version is no obstacle. -/
theorem abort_blocks_its_version_iff_other :
    laggingNodes "0.5.0" [some laggingNode] ≠ [] ∧
    (pickAutoRollout "peel" [some (promotedPeel "0.5.0")] [some laggingNode]
        [some (abortedRun "0.4.9").record] = none ↔
      Aborted [some (abortedRun "0.4.9")] "peel" "0.5.0") := by
  refine ⟨by decide, (abort_blocks_its_version_iff "peel" [some (promotedPeel "0.5.0")]
    [some laggingNode] [some (abortedRun "0.4.9")] (promotedPeel "0.5.0") rfl (by decide)).mpr ?_⟩
  rintro ⟨component', version', generation, state, dryRun, member, -, like⟩
  simp only [mem_singleton, Option.some.injEq] at member
  cases member
  exact absurd like (by decide)

/-- A release candidate that was aborted keeps the release itself from being rolled out. -/
theorem aborted_candidate_blocks_release :
    laggingNodes "0.5.0" [some laggingNode] ≠ [] ∧
    pickAutoRollout "peel" [some (promotedPeel "0.5.0")] [some laggingNode]
      [some (abortedRun "0.5.0-rc1").record] = none ∧
    ¬ Aborted [some (abortedRun "0.5.0-rc1")] "peel" "0.5.0" := by
  refine ⟨by decide, by decide, ?_⟩
  rintro ⟨generation, state, dryRun, member, -⟩
  simp [abortedRun] at member

end Zester.Update
