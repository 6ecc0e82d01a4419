import Zester.Modules.File.BlockProofs
import Zester.Modules.File.LineProofs
import Zester.Modules.File.RevertProofs

/-! When the report of a change by `Apply` is exact: the file differs, and `Check` has asked for
it. -/
namespace Zester.Modules.File
open States FileProgram List
open Option (map_some some_ne_none bind_some)

namespace Edit
variable {e : Edit}

/-- Every successful `Apply` reports a change if and only if the file differs after it, and if and
only if a `Check` of the same file asks for a change; the runner reports the same where it calls
`Apply` alone. -/
def Exact (e : Edit) (disk : Disk Text) : Prop :=
  ∀ memo result memo' disk', (e.apply memo).Runs disk (.ok result, memo') disk' →
    (result.changed = true ↔ disk' e.path ≠ disk e.path) ∧
    (∀ cr disk'', e.check.Runs disk (.ok cr) disk'' →
      (result.changed = true ↔ cr.needsChange = true)) ∧
    ∀ env s attempt, env.apply s.name true attempt = .ok result →
      ((execStateOnce env s .apply true attempt).changed = true ↔ disk' e.path ≠ disk e.path)

/-- What is planned for a content is another one, and is asked for. -/
structure Sound (e : Edit) (content : Option Text) : Prop where
  differs : ∀ plan, e.plan content = some plan → some plan.content ≠ content
  asked : (e.assess content).needsChange = (e.plan content).isSome

theorem Lined.sound (lined : e.Lined compute) (differs : (compute (fsxSplitLines data).1).2 = true →
      fsxJoinLines (compute (fsxSplitLines data).1).1 (fsxSplitLines data).2 ≠ data) :
    e.Sound (some data) := by
  have planned := lined.plan data
  refine ⟨fun plan made => ?_, ?_⟩
  · rw [made, map_some, Option.some_eq_ite_none_right] at planned
    exact fun same => differs planned.1 (Option.some.inj (planned.2.symm.trans same))
  · rw [lined.assess, ← @Option.isSome_map _ _ Plan.content, planned]
    split <;> simp_all

theorem exact_iff : e.Exact disk ↔ e.Sound (disk e.path) := by
  constructor
  · intro exact_
    obtain ⟨result, memo', disk', applied⟩ := e.apply_succeeds {} disk
    obtain ⟨cr, checked⟩ := e.check_succeeds disk
    obtain ⟨differs, asked, -⟩ := exact_ {} result memo' disk' applied
    obtain ⟨content, changed, -⟩ := apply_runs applied
    rw [content, changed] at differs
    have asked := asked cr disk checked
    rw [changed, (check_runs checked).2] at asked
    refine ⟨fun plan planned => ?_, (Bool.eq_iff_iff.mpr asked).symm⟩
    have altered := differs.mp (by rw [planned]; rfl)
    rwa [after, planned] at altered
  · rintro ⟨differs, asked⟩ memo result memo' disk' applied
    obtain ⟨content, changed, -⟩ := apply_runs applied
    have altered : result.changed = true ↔ disk' e.path ≠ disk e.path := by
      rw [content, changed, after]
      cases planned : e.plan (disk e.path) with
      | none => simp
      | some plan => simpa using differs plan planned
    refine ⟨altered, fun cr disk'' checked => ?_, fun env s attempt forced => ?_⟩
    · rw [(check_runs checked).2, changed, asked]
    · rw [← altered]
      simp [execStateOnce, forced]

end Edit

section
variable {lines : List Text}

theorem fsxJoinLines_ne (some_line : (fsxSplitLines data).1 ≠ [])
    (longer : (fsxSplitLines data).1.length ≤ lines.length)
    (differ : lines ≠ (fsxSplitLines data).1) :
    fsxJoinLines lines (fsxSplitLines data).2 ≠ data := by
  intro same
  have both : fsxJoinLines lines (fsxSplitLines data).2 =
      fsxJoinLines (fsxSplitLines data).1 (fsxSplitLines data).2 :=
    same.trans (fsxJoinLines_fsxSplitLines data).symm
  have some_line' : lines ≠ [] := by
    rintro rfl
    exact some_line (length_eq_zero_iff.mp (Nat.le_zero.mp longer))
  rw [fsxJoinLines, fsxJoinLines, if_neg some_line, if_neg some_line'] at both
  exact differ (Lines.eq_of_intercalate_eq (fun l member => newline_not_mem_fsxSplitLines member)
    some_line longer (append_cancel_right both))

theorem map_ne_self (member : l ∈ lines) (differs : g l ≠ l) : lines.map g ≠ lines := by
  intro same
  have all : lines.map g = lines.map id := by simpa using same
  exact differs (map_inj_left.mp all l member)

end

section
variable {f : FileLine}

end

section
variable {f : FileBlockReplace} {data : Text}

def FileBlockReplace.current (f : FileBlockReplace) (content : Option Text) : Option Text :=
  content.bind fun data => (findBlock (data.splitOn '\n') f.markerStart f.markerEnd).map (·.2.2)

end

section
variable {f : FileAppend}

end

section
variable {f : FileReplace} {content : Option Text}

theorem FileReplace.ended_length (s : Text) : s.length ≤ (ended s).length := by
  unfold ended
  split <;> simp

theorem FileReplace.ended_ne_nil (s : Text) : ended s ≠ [] := by
  unfold ended
  split
  · rename_i newline
    rintro rfl
    cases newline
  · simp

theorem FileReplace.transform_ne (changed : (f.transform (some data)).2 = true) :
    (f.transform (some data)).1 ≠ data := by
  have appended : ∀ {kept : Text}, f.notFound ≠ [] → data.length ≤ kept.length →
      ended (kept ++ f.notFound) ≠ data := by
    intro kept visible whole same
    have longer := ended_length (kept ++ f.notFound)
    have some_char := length_pos_iff.mpr visible
    rw [same, length_append] at longer
    omega
  unfold transform at changed ⊢
  dsimp only at changed ⊢
  split_ifs at changed ⊢ with matched blank appends present some_line prepends
  · simpa using changed
  · exact appended blank (ended_length data)
  · exact appended blank (Nat.le_refl _)
  · exact fun same => ended_ne_nil f.notFound (append_left_eq_self.mp same)

theorem FileReplace.sound (f : FileReplace) (content : Option Text) : f.edit.Sound content := by
  constructor
  · intro planned made
    simp only [edit, plan] at made
    split at made
    · rename_i changed
      cases made
      cases content with
      | none => exact some_ne_none _
      | some data => exact fun same => transform_ne changed (Option.some.inj same)
    · cases made
  · cases changed : (f.transform content).2 <;> simp [edit, assess, plan, changed]

end

section
variable {f : FileComment}

theorem fsxUncommentLine_some (found : fsxUncommentLine line char = some unc) :
    ∃ blanks rest, line = blanks ++ char ++ rest ∧ unc = blanks ++ rest := by
  simp only [fsxUncommentLine, Option.ite_none_right_eq_some, isPrefixOf_iff_prefix,
    Option.some.injEq] at found
  obtain ⟨⟨rest, split⟩, rfl⟩ := found
  refine ⟨_, rest, ?_, by rw [← split, drop_left]⟩
  rw [append_assoc, split, takeWhile_append_dropWhile]

theorem FileComment.computeLine_ne (computed : f.computeLine l = some l') : l' ≠ l := by
  unfold computeLine at computed
  split at computed
  · obtain ⟨blanks, rest, rfl, rfl⟩ :=
      fsxUncommentLine_some (Option.filter_eq_some_iff.mp computed).1
    simpa using f.marked
  split at computed
  · cases computed
  · split at computed
    · cases computed
      exact fun same => f.marked (append_left_eq_self.mp same)
    · cases computed

theorem FileComment.lined (f : FileComment) : f.edit.Lined f.compute := by
  constructor <;> intro data <;>
    cases changed : (f.compute (fsxSplitLines data).1).2 <;> simp [edit, plan, assess, changed]

theorem FileComment.sound (f : FileComment) (content : Option Text) : f.edit.Sound content := by
  cases content with
  | none => exact ⟨fun planned made => absurd made.symm (some_ne_none _), rfl⟩
  | some data =>
    refine f.lined.sound fun changed => ?_
    obtain ⟨l, member, computed⟩ := any_eq_true.mp changed
    obtain ⟨l', computed⟩ := Option.isSome_iff_exists.mp computed
    refine fsxJoinLines_ne (ne_nil_of_mem member) (by simp [compute]) ?_
    exact map_ne_self member (by simpa [computed] using computeLine_ne computed)

end

section
variable {f : FileKeyValue}

end

namespace FileState

def Fair : FileState → Option Text → Prop
  | .line _ f, content => ¬ (content = some [] ∧ f.content = [] ∧ f.createsOnMissing = true)
  | .blockreplace f, content => f.current content ≠ some f.desiredContent
  | .keyvalue f, content => ∀ data, content = some data → ¬ f.Undone (fsxSplitLines data).1
  | .append f, content => content = none → f.text.any (· ≠ []) = true
  | .replace _, _ => True
  | .comment _, _ => True

end FileState

end Zester.Modules.File
