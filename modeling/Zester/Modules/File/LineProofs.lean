import Zester.Modules.File.Line
import Zester.Modules.File.SurgeryProofs

/-! When the state `file.line` has nothing left to do after it was applied. -/
namespace Zester.Modules.File
open States FileProgram List

namespace FileLine
variable {compile : Text → Option Regexp} {f : FileLine}

theorem computeEnsure_unchanged_iff :
    (f.computeEnsure compile lines).2 = false ↔
    lines.find? (f.selects compile) = some f.content := by
  rw [find?_eq_bind_findIdx?_getElem?]
  unfold computeEnsure
  cases lines.findIdx? (f.selects compile) with
  | none => simp
  | some i => by_cases here : lines[i]? = some f.content <;> simp [here]

def Settled (compile : Text → Option Regexp) (f : FileLine) (lines : List Text) : Prop :=
  match f.operation with
  | .delete => ∀ l ∈ lines, f.selects compile l = false
  | .replace => ∀ l ∈ lines, f.selects compile l = true → l = f.content
  | .insert => f.content ∈ lines
  | .ensure => lines.find? (f.selects compile) = some f.content

theorem compute_unchanged_iff : (f.compute compile lines).2 = false ↔ f.Settled compile lines := by
  unfold compute Settled
  cases f.operation with
  | delete => simp [computeDelete]
  | replace => simp [computeReplace, outdated]
  | insert => by_cases here : f.content ∈ lines <;> simp [computeInsert, here]
  | ensure => exact computeEnsure_unchanged_iff

theorem insert_eq (compile : Text → Option Regexp) (f : FileLine) (lines : List Text) :
    ∃ before after, lines = before ++ after ∧
      f.insert compile lines = before ++ f.content :: after := by
  unfold insert
  cases f.anchor compile lines with
  | some idx => exact ⟨lines.take idx, lines.drop idx, (take_append_drop idx lines).symm, rfl⟩
  | none => exact ⟨lines, [], (append_nil lines).symm, rfl⟩

/-- What `ensure` puts the line in the place of: the first line that is selected, or nothing. -/
theorem computeEnsure_changed (changed : (f.computeEnsure compile lines).2 = true) :
    ∃ before old after, lines = before ++ old ++ after ∧
      (f.computeEnsure compile lines).1 = before ++ f.content :: after ∧
      (∀ l ∈ before, f.selects compile l = false) ∧
      (old = [] ∨ ∃ l, old = [l] ∧ l ≠ f.content) := by
  unfold computeEnsure at changed ⊢
  cases found : lines.findIdx? (f.selects compile) with
  | none =>
    obtain ⟨before, after, whole, inserted⟩ := insert_eq compile f lines
    refine ⟨before, [], after, by simpa using whole, inserted, fun l member => ?_, .inl rfl⟩
    exact findIdx?_eq_none_iff.mp found l (whole ▸ mem_append_left _ member)
  | some i =>
    obtain ⟨inside, -, earlier⟩ := findIdx?_eq_some_iff_getElem.mp found
    rw [found] at changed
    by_cases here : lines[i]? = some f.content
    · simp [here] at changed
    refine ⟨lines.take i, [lines[i]], lines.drop (i + 1), ?_, ?_, ?_, .inr ⟨_, rfl, fun same => ?_⟩⟩
    · simp
    · simp only [here, if_false, set_eq_take_append_cons_drop, inside, if_true]
    · intro l member
      obtain ⟨j, less, rfl⟩ := mem_take_iff_getElem.mp member
      simpa using earlier j (by omega)
    · exact here (by rw [getElem?_eq_getElem inside, same])

section
variable {content : Option Text}

/-- With a line that it writes itself, `ensure` is content if and only if it selects the line. -/
theorem find_written_iff {before after : List Text}
    (earlier : ∀ l ∈ before, f.selects compile l = false) :
    (before ++ f.content :: after).find? (f.selects compile) = some f.content ↔
    f.selects compile f.content = true := by
  constructor
  · exact find?_some
  · intro selected
    rw [find?_append, find?_eq_none.mpr (by simpa using earlier), Option.none_or,
      find?_cons_of_pos selected]

/-- The condition under which `Apply` is followed by a `Check` that reports no change. -/
def Stable (compile : Text → Option Regexp) (f : FileLine) : Prop :=
  f.operation = .ensure → f.selects compile f.content = true

theorem settled_compute (visible : f.content ≠ []) (single : '\n' ∉ f.content)
    (newlines : ∀ l ∈ lines, '\n' ∉ l)
    (trailingNL : Bool) (changed : (f.compute compile lines).2 = true) :
    f.Settled compile (fsxSplitLines (fsxJoinLines (f.compute compile lines).1 trailingNL)).1 ↔
      f.Stable compile := by
  unfold Stable compute Settled at *
  cases operation : f.operation with
  | delete =>
    simp only [reduceCtorEq, false_implies, iff_true]
    intro l member
    have kept := mem_of_mem_fsxJoinLines (fun l kept => newlines l (mem_of_mem_filter kept)) member
    simpa using (mem_filter.mp kept).2
  | replace =>
    have written : ∀ l ∈ (f.computeReplace compile lines).1, l = f.content ∨ l ∈ lines ∧
        f.outdated compile l = false := by
      intro l member
      obtain ⟨old, here, rfl⟩ := mem_map.mp member
      cases rewritten : f.outdated compile old with
      | true => exact .inl rfl
      | false => exact .inr ⟨here, rewritten⟩
    have newlines' : ∀ l ∈ (f.computeReplace compile lines).1, '\n' ∉ l := by
      intro l member
      obtain rfl | ⟨here, -⟩ := written l member
      · exact single
      · exact newlines l here
    simp only [reduceCtorEq, false_implies, iff_true]
    intro l member selected
    obtain same | ⟨-, current⟩ := written l (mem_of_mem_fsxJoinLines newlines' member)
    · exact same
    · simpa [outdated, selected] using current
  | insert =>
    have absent : f.content ∉ lines := by
      intro here
      simp [operation, computeInsert, here] at changed
    obtain ⟨before, after, rfl, inserted⟩ := insert_eq compile f lines
    have newlines' : ∀ l ∈ before ++ f.content :: after, '\n' ∉ l := by
      simp only [forall_mem_append, forall_mem_cons] at newlines ⊢
      exact ⟨newlines.1, single, newlines.2⟩
    simp only [reduceCtorEq, false_implies, iff_true, computeInsert, contains_iff_mem, absent,
      if_false, inserted]
    exact mem_fsxJoinLines newlines' visible (by simp)
  | ensure =>
    simp only [operation] at changed
    obtain ⟨before, old, after, rfl, written, earlier, -⟩ := computeEnsure_changed changed
    have newlines' : ∀ l ∈ before ++ f.content :: after, '\n' ∉ l := by
      simp only [forall_mem_append, forall_mem_cons] at newlines ⊢
      exact ⟨newlines.1.1, single, newlines.2⟩
    simp only [written, true_implies]
    constructor
    · exact find?_some
    · intro selected
      exact find_fsxJoinLines newlines' visible ((find_written_iff earlier).mpr selected)

theorem lined (compile : Text → Option Regexp) (f : FileLine) :
    (f.edit compile).Lined (f.compute compile) := by
  constructor <;> intro data <;>
    cases changed : (f.compute compile (fsxSplitLines data).1).2 <;>
      simp [edit, plan, assess, changed]

theorem assess_unchanged_iff :
    ((f.edit compile).assess (some data)).needsChange = false ↔
    f.Settled compile (fsxSplitLines data).1 := by
  rw [(lined compile f).assess, compute_unchanged_iff]

theorem Settled.stable (settled : f.Settled compile lines) : f.Stable compile := by
  intro ensures
  simp only [Settled, ensures] at settled
  exact find?_some settled

theorem settled_created (single : '\n' ∉ f.content) (creates : f.createsOnMissing = true) :
    f.Settled compile (fsxSplitLines (f.content ++ ['\n'])).1 ↔ f.Stable compile := by
  have lines : (fsxSplitLines (f.content ++ ['\n'])).1 = [f.content] := by
    simp [fsxSplitLines, splitOn_eq_singleton single]
  rw [lines]
  unfold Settled Stable
  unfold createsOnMissing at creates
  cases operation : f.operation with
  | delete | replace => simp [operation] at creates
  | insert | ensure => simp

theorem after_settled_iff (visible : f.content ≠ []) (single : '\n' ∉ f.content) :
    ((f.edit compile).assess ((f.edit compile).after content)).needsChange = false ↔
    f.Stable compile := by
  cases content with
  | none =>
    cases creates : f.createsOnMissing with
    | true =>
      have left : (f.edit compile).after none = some (f.content ++ ['\n']) := by
        simp [Edit.after, edit, plan, creates]
      rw [left]
      exact assess_unchanged_iff.trans (settled_created single creates)
    | false =>
      have left : (f.edit compile).after none = none := by simp [Edit.after, edit, plan, creates]
      have adds : f.operation ≠ .ensure := by
        intro ensures
        simp [createsOnMissing, ensures] at creates
      rw [left]
      simp [edit, assess, creates, Stable, adds]
  | some data =>
    rw [(lined compile f).after]
    cases changed : (f.compute compile (fsxSplitLines data).1).2 with
    | true =>
      refine assess_unchanged_iff.trans (settled_compute visible single ?_ _ changed)
      exact fun l member => newline_not_mem_fsxSplitLines member
    | false =>
      have settled := compute_unchanged_iff.mp changed
      exact assess_unchanged_iff.trans ⟨fun _ => settled.stable, fun _ => settled⟩

end

theorem plan_eq_none_iff {content : Option Text} :
    f.plan compile content = none ↔ (f.assess compile content).needsChange = false := by
  cases content with
  | none => cases creates : f.createsOnMissing <;> simp [plan, assess, creates]
  | some data =>
    cases changed : (f.compute compile (fsxSplitLines data).1).2 <;> simp [plan, assess, changed]

/-- After every successful `Apply` a following `Check` reports that no change is needed and repeated
calls leave the file as it is, if and only if the mode is another than `ensure` or the line that is
to be there is itself selected by the expression. -/
theorem line_converges_iff (compile : Text → Option Regexp) (f : FileLine)
    (visible : f.content ≠ []) (single : '\n' ∉ f.content) (disk : Disk Text) :
    (f.edit compile).Converges disk ∧ (f.edit compile).Rests disk ↔
      (f.operation = .ensure → f.selects compile f.content = true) := by
  have converges :=
    Edit.converges_iff.trans (@after_settled_iff compile f (disk f.path) visible single)
  constructor
  · exact fun settles => converges.mp settles.1
  · intro stable
    refine ⟨converges.mpr stable, Edit.rests_of_plan ?_⟩
    exact plan_eq_none_iff.mpr ((after_settled_iff visible single).mpr stable)

def literally (expr : Text) : Option Regexp :=
  some ⟨fun line => decide (expr <:+: line), fun _ => [], fun _ _ _ => []⟩

def holding (path content : String) : Disk Text :=
  fun p => if p = path then some content.toList else none

def recoloured (content : String) : FileLine :=
  ⟨"/etc/app.conf", content.toList, "ensure", "colour".toList, [], []⟩

theorem line_converges_iff_rewritten :
    ((recoloured "colour=blue").edit literally).Converges (holding "/etc/app.conf" "colour=red\n") ∧
      ((recoloured "colour=blue").edit literally).Rests (holding "/etc/app.conf" "colour=red\n") :=
  (line_converges_iff literally (recoloured "colour=blue") (by decide) (by decide) _).mpr
    (by decide)

/-- Each call adds the line once more. -/
theorem ensured_line_grows :
    ¬ ((recoloured "color=blue").edit literally).Converges
      (holding "/etc/app.conf" "colour=red\n") ∧
      (((recoloured "color=blue").edit literally).course {} (some "colour=red\n".toList) 3).1 =
        some "color=blue\ncolor=blue\ncolor=blue\n".toList := by
  rw [Edit.converges_iff]
  constructor <;> decide +kernel

end FileLine

end Zester.Modules.File
