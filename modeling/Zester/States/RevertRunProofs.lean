import Zester.States.AccountProofs

/-! Failures in a revert run. The states are visited before the ones that they require, so the
requisites of a state never name one that has failed, and only an abort or a cancellation keeps a
state from its revert. -/
namespace Zester.States
open Layering List

variable {env : Outcomes} {d : DAG} {states : List State} {levels done rest : List DAG.Level}
    {level : DAG.Level}

/-- The revert of the state fails, with all its retries. -/
def Outcomes.RevertFails (env : Outcomes) (s : State) : Prop :=
  (execState env s .revert false).error ≠ ""

instance (env : Outcomes) (s : State) : Decidable (env.RevertFails s) :=
  inferInstanceAs (Decidable (_ ≠ _))

namespace Run

/-- A run that is to revert stops before a level because of a failhard state of an earlier one, or
because it was canceled. -/
def Stops (env : Outcomes) (done : List DAG.Level) : Prop :=
  env.canceled done.length = true ∨ ∃ u ∈ done.flatten, u.failHard = true ∧ env.RevertFails u

theorem canceled_mono (later : i ≤ j) (canceled : env.canceled i = true) :
    env.canceled j = true := by
  unfold Outcomes.canceled at *
  split at canceled
  · cases canceled
  · simp only [decide_eq_true_eq] at canceled ⊢
    omega

/-- Visited backwards, a state is not held back by its requisites. -/
theorem verdict_revert {r : Run} (unfailed : ∀ dep ∈ s.reqs.require, dep ∉ r.failed) :
    r.verdict env d .revert s = .exec false := by
  unfold verdict
  rw [if_neg]
  rintro ⟨dep, required, failed⟩
  exact unfailed dep required failed

theorem Stops.later (stops : Stops env done) : Stops env (done ++ more) := by
  obtain canceled | ⟨u, member, fails⟩ := stops
  · exact .inl (canceled_mono (by simp) canceled)
  · exact .inr ⟨u, by simp [member], fails⟩

end Run

section
open Run
variable (accepted : Accepted states) (leveled : Leveled states levels)
include accepted leveled

theorem Leveled.distinct_reverse : (names levels.reverse.flatten).Nodup :=
  (((reverse_perm levels).flatten.trans leveled.once).map State.name).nodup_iff.mpr
    accepted.distinct

section
variable (visited : levels.reverse = done ++ level :: rest) (member : s ∈ level)
include visited member

theorem Leveled.deps_later (needed : dep ∈ s.reqs.allDeps) : dep ∉ names done.flatten := by
  intro past
  obtain ⟨t, inside, rfl⟩ := mem_map.mp past
  obtain ⟨level', listed, here⟩ := mem_flatten.mp inside
  obtain ⟨before, between, rfl⟩ := append_of_mem listed
  have listed : s ∈ states :=
    leveled.once.mem_iff.mp ((reverse_perm levels).flatten.mem_iff.mp (by simp [visited, member]))
  have unique := leveled.distinct_reverse accepted
  have split : Runner.orderLevels .revert levels = before ++ level' ::
      (between ++ level :: rest) := by
    simpa [Runner.orderLevels] using visited
  have earlier : s.name ∈ names before.flatten :=
    leveled.earlier accepted split here ⟨s, listed, rfl, needed⟩
  rw [visited] at unique
  simp only [names, flatten_append, map_append, flatten_cons, append_assoc] at unique
  refine (nodup_append.mp unique).2.2 s.name earlier s.name ?_ rfl
  simp only [mem_append]
  exact .inr (.inr (.inl (mem_map_of_mem member)))

theorem verdict_backwards :
    (reached env d .revert done).verdict env d .revert s = .exec false := by
  refine verdict_revert fun dep required => ?_
  exact (reached_untouched (leveled.deps_later accepted visited member
    (Requisites.mem_allDeps.mpr (.inl required)))).failed

theorem levelResult_backwards :
    (reached env d .revert done).levelResult env d .revert done.length s =
      if (reached env d .revert done).halted env done.length then
        { name := s.name, skipped := true,
          skipReason := if (reached env d .revert done).aborted then "failhard_abort" else "" }
      else execState env s .revert false := by
  rw [levelResult, verdict_backwards accepted leveled visited member]
  rfl

end

/-- The run lemma: the run stops before a level where the inputs say so. -/
theorem halted_iff_stops (visited : levels.reverse = done ++ rest) :
    (reached env d .revert done).halted env done.length = true ↔ Stops env done := by
  induction done using reverseRecOn generalizing rest with
  | nil => simp [halted, reached, runLevels, Stops]
  | append_singleton done level ih =>
    have here : levels.reverse = done ++ level :: rest := by simpa using visited
    have before : (reached env d .revert done).halted env done.length = true ↔
        Stops env done := ih here
    have fails : ∀ s ∈ level,
        ((reached env d .revert done).levelResult env d .revert done.length s).error ≠ "" ↔
        ¬ Stops env done ∧ env.RevertFails s := by
      intro s member
      rw [levelResult_backwards accepted leveled here member, ← before]
      by_cases halts : (reached env d .revert done).halted env done.length = true <;>
        simp [halts, Outcomes.RevertFails]
    have aborts :=
      @runLevel_aborted_iff env d .revert (reached env d .revert done) done.length level
    rw [reached_snoc, halted, Bool.or_eq_true, aborts]
    constructor
    · rintro ((aborted | ⟨s, member, hard, failed⟩) | canceled)
      · exact (before.mp (by simp [halted, aborted])).later
      · exact .inr ⟨s, by simp [member], hard, ((fails s member).mp failed).2⟩
      · exact .inl canceled
    · intro stops
      by_cases earlier : Stops env done
      · have halts := before.mpr earlier
        rw [halted, Bool.or_eq_true] at halts
        obtain aborted | canceled := halts
        · exact .inl (.inl aborted)
        · exact .inr (canceled_mono (by simp) canceled)
      · obtain canceled | ⟨u, member, hard, failed⟩ := stops
        · exact .inr canceled
        rw [flatten_append, mem_append] at member
        obtain past | inside := member
        · exact absurd (.inr ⟨u, past, hard, failed⟩) earlier
        · have inside : u ∈ level := by simpa using inside
          exact .inl (.inr ⟨u, inside, hard, (fails u inside).mpr ⟨earlier, failed⟩⟩)

theorem backwards_result (visited : levels.reverse = done ++ level :: rest) (member : s ∈ level) :
    (s.name ∈ (reached env d .revert levels.reverse).executed ↔ ¬ Stops env done) ∧
      ∃ sr, (reached env d .revert levels.reverse).result.states.lookup s.name = some sr ∧
        (sr.skipped = true ↔ Stops env done) ∧
        (sr.error ≠ "" ↔ ¬ Stops env done ∧ env.RevertFails s) := by
  have unique := leveled.distinct_reverse accepted
  rw [visited] at unique ⊢
  obtain ⟨reports, executed⟩ := @reached_level env d .revert level done rest unique s member
  have stops := @halted_iff_stops env d states levels done (level :: rest) accepted leveled visited
  have launched : s ∈ (reached env d .revert done).launched env d .revert level :=
    mem_launched.mpr ⟨member, _, verdict_backwards accepted leveled visited member⟩
  refine ⟨?_, _, reports.result, ?_⟩
  · rw [executed, ← stops]
    simp [launched]
  rw [levelResult_backwards accepted leveled visited member, ← stops]
  by_cases halts : (reached env d .revert done).halted env done.length = true
  · simp [halts]
  · simp only [halts, Bool.false_eq_true, if_false, not_false_eq_true, true_and, iff_false]
    have reverted : (execState env s .revert false).skipped = false :=
      @evaluate_exec_skipped env .revert s false
    exact ⟨by simp [reverted], .rfl⟩

end

/-- No state is reverted once the revert of a state has failed that a require relation connects it
with and that was visited before it; it is reported as skipped instead. -/
def RespectsFailures (visited : List DAG.Level) (r : Run) : Prop :=
  ∀ done level rest, visited = done ++ level :: rest → ∀ s ∈ level, ∀ t ∈ done.flatten,
    s.name ∈ t.reqs.require ∨ t.name ∈ s.reqs.require →
    ∀ failure, r.result.states.lookup t.name = some failure → failure.error ≠ "" →
      s.name ∉ r.executed ∧ ∃ sr, r.result.states.lookup s.name = some sr ∧ sr.skipped = true

/-- A revert run respects the failed ones if and only if, whenever the revert of a state fails, the
run stops before the states that it requires, because it is canceled or because the revert of a
failhard state fails in a level before. -/
theorem revert_respects_iff (it : Ranging) (env : Outcomes) (states : List State)
    (distinct : (states.map State.name).Nodup)
    (known : ∀ s ∈ states, ∀ dep ∈ s.reqs.allDeps, dep ∈ states.map State.name)
    (acyclic : Acyclic (DependsOn states)) :
    ∃ d levels r, newDAG it states = .ok d ∧ d.resolve it = .ok levels ∧
      Runner.runTracked it env states .revert = .ok r ∧
      (RespectsFailures levels.reverse r ↔
        ∀ done level rest, levels.reverse = done ++ level :: rest → ∀ s ∈ level, ∀ t ∈ done.flatten,
          s.name ∈ t.reqs.require → env.RevertFails t →
            env.canceled done.length = true ∨ ∃ u ∈ done.flatten, u.failHard = true ∧
              env.RevertFails u) := by
  have accepted : Accepted states := ⟨distinct, known⟩
  obtain ⟨d, levels, built, resolved, leveled⟩ := accepted.resolves it acyclic
  refine ⟨d, levels, _, built, resolved, runTracked_ok built resolved, ?_⟩
  rw [Runner.orderLevels, if_pos rfl]
  have result {done level rest} :=
    @backwards_result env d states levels done level rest accepted leveled
  constructor
  · intro respects done level rest visited s member t past required failed
    by_contra going
    -- the run has not stopped before the level of the failing state either
    obtain ⟨level', inside, here⟩ := mem_flatten.mp past
    obtain ⟨before, between, rfl⟩ := append_of_mem inside
    have split : levels.reverse = before ++ level' :: (between ++ level :: rest) := by
      simpa using visited
    have running : ¬ Run.Stops env before := fun stops => going stops.later
    obtain ⟨-, failure, stored, -, fails⟩ := result split here
    obtain ⟨executed, -⟩ := result visited member
    exact (respects _ _ _ visited s member t past (.inl required) failure stored
      (fails.mpr ⟨running, failed⟩)).1
      (executed.mpr going)
  · intro condition done level rest visited s member t past related failure stored failed
    obtain ⟨level', inside, here⟩ := mem_flatten.mp past
    obtain ⟨before, between, rfl⟩ := append_of_mem inside
    have split : levels.reverse = before ++ level' :: (between ++ level :: rest) := by
      simpa using visited
    obtain ⟨-, found, looked, -, fails⟩ := result split here
    cases looked.symm.trans stored
    have required : s.name ∈ t.reqs.require := by
      refine related.resolve_right fun backwards => ?_
      refine leveled.deps_later accepted visited member
        (Requisites.mem_allDeps.mpr (.inl backwards)) ?_
      exact mem_map_of_mem past
    have stops : Run.Stops env _ :=
      condition _ _ _ visited s member t past required (fails.mp failed).2
    obtain ⟨executed, sr, reported, skipped, -⟩ := result visited member
    exact ⟨fun runs => executed.mp runs stops, sr, reported, skipped.mpr stops⟩

def lastStuck : Outcomes where
  check _ _ := .ok { needsChange := true }
  apply _ _ _ := .ok { changed := true }
  revert name _ := if name = "c" then .error "exit status 1" else .ok { changed := true }
  prereqCheck _ _ := .ok { needsChange := true }

theorem revert_respects_iff_chain :
    ∃ d levels r, newDAG .listed requireChain = .ok d ∧ d.resolve .listed = .ok levels ∧
      Runner.runTracked .listed lastStuck requireChain .revert = .ok r ∧
      (RespectsFailures levels.reverse r ↔
        ∀ done level rest, levels.reverse = done ++ level :: rest → ∀ s ∈ level, ∀ t ∈ done.flatten,
          s.name ∈ t.reqs.require → lastStuck.RevertFails t →
            lastStuck.canceled done.length = true ∨ ∃ u ∈ done.flatten, u.failHard = true ∧
              lastStuck.RevertFails u) :=
  revert_respects_iff .listed lastStuck requireChain (by decide) (by decide) requireChain_acyclic

/-- The revert of the last state fails, and the one that it requires is reverted all the same. -/
theorem required_state_reverted :
    Acyclic (DependsOn requireChain) ∧ ∃ d levels r, newDAG .listed requireChain = .ok d ∧
      d.resolve .listed = .ok levels ∧
      Runner.runTracked .listed lastStuck requireChain .revert = .ok r ∧
      ¬ RespectsFailures levels.reverse r := by
  refine ⟨requireChain_acyclic, _, _, _, rfl, rfl, rfl, fun respects => ?_⟩
  have idle := respects [[{ name := "c", reqs := { require := ["b"] } }]]
    [{ name := "b", reqs := { require := ["a"] } }]
    [[{ name := "a" }]] rfl _ (mem_singleton_self _) _ (mem_singleton_self _) (.inl (by decide))
    { name := "c", error := "exit status 1" } rfl (by decide)
  exact absurd (by decide) idle.1

end Zester.States
