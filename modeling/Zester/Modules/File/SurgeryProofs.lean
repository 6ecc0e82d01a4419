import Zester.Lib.Lines
import Zester.Modules.File.Surgery

/-! The lines of a content are told by it, and the programs around an edit do what its parts say. -/
namespace Zester.Modules.File
open States FileProgram List

theorem newline_not_mem_fsxSplitLines (member : line ∈ (fsxSplitLines s).1) : '\n' ∉ line := by
  unfold fsxSplitLines at member
  split at member
  · cases member
  · split at member <;> exact not_mem_of_mem_splitOn member

theorem dropLast_concat_newline (ended : s.getLast? = some '\n') : s.dropLast ++ ['\n'] = s :=
  dropLast_append_getLast? '\n' ended

theorem fsxJoinLines_fsxSplitLines (s : Text) :
    fsxJoinLines (fsxSplitLines s).1 (fsxSplitLines s).2 = s := by
  by_cases empty : s = []
  · simp [fsxSplitLines, fsxJoinLines, empty]
  rw [fsxSplitLines, if_neg empty]
  split
  · rename_i ended
    rw [fsxJoinLines, if_neg (splitOn_ne_nil _ _), intercalate_splitOn, if_pos rfl,
      dropLast_concat_newline ended]
  · rw [fsxJoinLines, if_neg (splitOn_ne_nil _ _), intercalate_splitOn]
    exact append_nil s

/-- A content that ends in a newline, or not in an empty line, has the lines that it was joined
from. -/
theorem fsxSplitLines_fsxJoinLines (single : ∀ l ∈ lines, '\n' ∉ l) (some_line : lines ≠ [])
    (ended : trailingNL = true ∨ lines.getLast? ≠ some []) :
    fsxSplitLines (fsxJoinLines lines trailingNL) = (lines, trailingNL) := by
  have back := splitOn_intercalate '\n' single some_line
  rw [fsxJoinLines, if_neg some_line]
  cases trailingNL with
  | true => simp [fsxSplitLines, back]
  | false =>
    have last : lines.getLast? ≠ some [] := ended.resolve_left Bool.false_ne_true
    have inside : ['\n'].intercalate lines ≠ [] := by
      intro empty
      rw [empty] at back
      exact last (back ▸ rfl)
    have unended : (['\n'].intercalate lines).getLast? ≠ some '\n' := by
      intro newline
      rw [← dropLast_concat_newline newline, splitOn_append_cons_self] at back
      exact last (back ▸ by simp)
    simp [fsxSplitLines, inside, unended, back]

section
variable {lines : List Text} (single : ∀ l ∈ lines, '\n' ∉ l)
include single

theorem lines_fsxJoinLines (trailingNL : Bool) :
    (fsxSplitLines (fsxJoinLines lines trailingNL)).1 = lines ∨
      lines = (fsxSplitLines (fsxJoinLines lines trailingNL)).1 ++ [[]] := by
  by_cases some_line : lines = []
  · simp [fsxSplitLines, fsxJoinLines, some_line]
  by_cases ended : trailingNL = true ∨ lines.getLast? ≠ some []
  · exact .inl (congrArg Prod.fst (fsxSplitLines_fsxJoinLines single some_line ended))
  simp only [not_or, Bool.not_eq_true, ne_eq, not_not] at ended
  obtain ⟨rfl, last⟩ := ended
  right
  have whole : lines.dropLast ++ [[]] = lines := dropLast_append_getLast? [] last
  by_cases alone : lines.dropLast = []
  · rw [alone] at whole
    simp [← whole, fsxSplitLines, fsxJoinLines]
  have joined : fsxJoinLines lines false = ['\n'].intercalate lines.dropLast ++ ['\n'] := by
    rw [fsxJoinLines, if_neg some_line, ← whole, Lines.intercalate_concat_nil alone]
    simp
  have back : (['\n'].intercalate lines.dropLast).splitOn '\n' = lines.dropLast :=
    splitOn_intercalate '\n' (fun l member => single l (mem_of_mem_dropLast member)) alone
  rw [joined]
  simp [fsxSplitLines, back, whole]

theorem mem_of_mem_fsxJoinLines
    (member : line ∈ (fsxSplitLines (fsxJoinLines lines trailingNL)).1) : line ∈ lines := by
  obtain same | same := lines_fsxJoinLines single trailingNL
  · exact same ▸ member
  · exact same ▸ mem_append_left _ member

theorem mem_fsxJoinLines (visible : line ≠ []) (member : line ∈ lines) :
    line ∈ (fsxSplitLines (fsxJoinLines lines trailingNL)).1 := by
  obtain same | same := lines_fsxJoinLines single trailingNL
  · rw [same]
    exact member
  · rw [same] at member
    simpa [visible] using member

theorem find_fsxJoinLines (visible : line ≠ []) (found : lines.find? p = some line) :
    (fsxSplitLines (fsxJoinLines lines trailingNL)).1.find? p = some line := by
  obtain same | same := lines_fsxJoinLines single trailingNL
  · rw [same]
    exact found
  rw [same, find?_append] at found
  cases earlier : (fsxSplitLines (fsxJoinLines lines trailingNL)).1.find? p with
  | some other =>
    rw [earlier] at found
    exact found
  | none =>
    rw [earlier, Option.none_or] at found
    exact absurd (mem_singleton.mp (mem_of_find?_eq_some found)) visible

end

namespace Edit
variable {e : Edit}

def after (e : Edit) (content : Option Text) : Option Text :=
  match e.plan content with
  | none => content
  | some plan => some plan.content

def remembers (e : Edit) (memo : Memo) (content : Option Text) : Memo :=
  match content with
  | some data => memo.keep data
  | none => if (e.plan none).isSome then { memo with created := true } else memo

theorem after_of_plan (left : e.plan content = none) : e.after content = content := by
  simp [after, left]

/-- The state works on the lines of a file that is there. -/
structure Lined (e : Edit) (compute : List Text → List Text × Bool) : Prop where
  plan : ∀ data, (e.plan (some data)).map Plan.content = if (compute (fsxSplitLines data).1).2 then
    some (fsxJoinLines (compute (fsxSplitLines data).1).1 (fsxSplitLines data).2) else none
  assess : ∀ data, (e.assess (some data)).needsChange = (compute (fsxSplitLines data).1).2

theorem Lined.after (lined : e.Lined compute) (data : Text) : e.after (some data) =
    some (if (compute (fsxSplitLines data).1).2 then
      fsxJoinLines (compute (fsxSplitLines data).1).1 (fsxSplitLines data).2 else data) := by
  have same : e.after (some data) = ((e.plan (some data)).map Plan.content).or (some data) := by
    unfold Edit.after
    cases e.plan (some data) <;> rfl
  rw [same, lined.plan]
  split <;> rfl

theorem check_runs (runs : e.check.Runs disk (.ok cr) disk') :
    disk' = disk ∧ cr = e.assess (disk e.path) := by
  obtain ⟨data, held, rest⟩ | ⟨text, held, rest⟩ :=
    runs_read runs fun _ failed => by cases (runs_done failed).1
  all_goals
    obtain ⟨same, rfl⟩ := runs_done rest
    cases same
    exact ⟨rfl, by rw [held]⟩

theorem install_runs (runs : (e.install content memo).Runs disk (.ok result, memo') disk') :
    result.changed = (e.plan content).isSome ∧
      memo' = (if (e.plan content).isSome && content.isNone then { memo with created := true }
        else memo) ∧
      disk' = match e.plan content with
        | none => disk
        | some plan => Function.update disk e.path (some plan.content) := by
  unfold install at runs
  cases planned : e.plan content with
  | none =>
    rw [planned] at runs
    obtain ⟨same, rfl⟩ := runs_done runs
    cases same
    exact ⟨rfl, rfl, rfl⟩
  | some plan =>
    rw [planned] at runs
    have rest := runs_write runs fun _ _ failed => by cases (runs_done failed).1
    obtain ⟨same, rfl⟩ := runs_done rest
    cases same
    exact ⟨rfl, by cases content <;> rfl, rfl⟩

theorem install_after (held : disk e.path = content)
    (runs : (e.install content memo).Runs disk (.ok result, memo') disk') :
    disk' e.path = e.after content := by
  rw [(install_runs runs).2.2, after]
  cases e.plan content with
  | none => exact held
  | some plan => simp

/-- What a successful `Apply` does to its file and to the instance, and what it reports. -/
theorem apply_runs (runs : (e.apply memo).Runs disk (.ok result, memo') disk') :
    disk' e.path = e.after (disk e.path) ∧ result.changed = (e.plan (disk e.path)).isSome ∧
      memo' = e.remembers memo (disk e.path) := by
  obtain ⟨data, held, rest⟩ | ⟨text, held, rest⟩ :=
    runs_read runs fun _ failed => by cases (runs_done failed).1
  all_goals
    obtain ⟨changed, remembered, -⟩ := install_runs rest
    rw [held]
    exact ⟨install_after held rest, changed, by simpa [remembers] using remembered⟩

theorem apply_succeeds (e : Edit) (memo : Memo) (disk : Disk Text) :
    ∃ result memo' disk', (e.apply memo).Runs disk (.ok result, memo') disk' := by
  have installs : ∀ content memo, ∃ result memo',
      ((e.install content memo).run disk).1 = (.ok result, memo') := by
    intro content memo
    unfold install
    cases e.plan content with
    | none | some plan => exact ⟨_, _, rfl⟩
  have carried : ∃ result memo', ((e.apply memo).run disk).1 = (.ok result, memo') := by
    unfold apply
    rw [run_bind, run_op]
    cases held : disk e.path with
    | some data =>
      simp only [FileOp.perform, held]
      exact installs _ _
    | none =>
      simp only [FileOp.perform, held, FileOp.missing]
      exact installs _ _
  obtain ⟨result, memo', same⟩ := carried
  exact ⟨result, memo', _, same ▸ run_runs (e.apply memo) disk⟩

theorem check_succeeds (e : Edit) (disk : Disk Text) : ∃ cr, e.check.Runs disk (.ok cr) disk := by
  refine ⟨e.assess (disk e.path), ?_⟩
  have run : e.check.run disk = (.ok (e.assess (disk e.path)), disk) := by
    unfold check
    rw [run_bind, run_op]
    cases held : disk e.path <;> simp only [FileOp.perform, held, FileOp.missing, run_pure]
  have runs := run_runs e.check disk
  rw [run] at runs
  exact runs

/-- Successful calls of `Apply` on one instance, and their number. -/
inductive Applied (e : Edit) : Nat → Disk Text → Memo → Disk Text → Memo → Prop where
  | none {disk : Disk Text} {memo : Memo} : Applied e 0 disk memo disk memo
  | more {n : Nat} {disk disk' disk'' : Disk Text} {memo memo' memo'' : Memo} {result : ApplyResult}
      (earlier : Applied e n disk memo disk' memo')
        (last : (e.apply memo').Runs disk' (.ok result, memo'') disk'') :
      Applied e (n + 1) disk memo disk'' memo''

def course (e : Edit) (memo : Memo) (content : Option Text) : Nat → Option Text × Memo
  | 0 => (content, memo)
  | n + 1 =>
    let earlier := e.course memo content n
    (e.after earlier.1, e.remembers earlier.2 earlier.1)

theorem Applied.course (applied : e.Applied n disk memo disk' memo') :
    (disk' e.path, memo') = e.course memo (disk e.path) n := by
  induction applied with
  | none => rfl
  | more earlier last ih =>
    obtain ⟨content, -, remembered⟩ := apply_runs last
    rw [Edit.course, ← ih, content, remembered]

theorem applied_succeeds (e : Edit) (n : Nat) (disk : Disk Text) (memo : Memo) :
    ∃ disk' memo', e.Applied n disk memo disk' memo' := by
  induction n with
  | zero => exact ⟨disk, memo, .none⟩
  | succ n ih =>
    obtain ⟨disk', memo', earlier⟩ := ih
    obtain ⟨result, memo'', disk'', last⟩ := e.apply_succeeds memo' disk'
    exact ⟨disk'', memo'', earlier.more last⟩

/-- However often `Apply` is called, the file stays as the first call has left it. -/
def Rests (e : Edit) (disk : Disk Text) : Prop :=
  ∀ n memo disk' memo', e.Applied (n + 1) disk memo disk' memo' →
    disk' e.path = e.after (disk e.path)

theorem rests_of_plan (settled : e.plan (e.after (disk e.path)) = none) : e.Rests disk := by
  intro n memo disk' memo' applied
  have content : ∀ n, (e.course memo (disk e.path) (n + 1)).1 = e.after (disk e.path) := by
    intro n
    induction n with
    | zero => rfl
    | succ n ih =>
      rw [Edit.course, ih]
      exact after_of_plan settled
  exact (congrArg Prod.fst applied.course).trans (content n)

/-- After every successful `Apply`, `Check` reports that nothing is to change. -/
def Converges (e : Edit) (disk : Disk Text) : Prop :=
  ∀ memo result memo' disk', (e.apply memo).Runs disk (.ok result, memo') disk' →
    ∀ cr disk'', e.check.Runs disk' (.ok cr) disk'' → cr.needsChange = false

theorem converges_iff :
    e.Converges disk ↔ (e.assess (e.after (disk e.path))).needsChange = false := by
  constructor
  · intro converges
    obtain ⟨result, memo', disk', applied⟩ := e.apply_succeeds {} disk
    obtain ⟨cr, checked⟩ := e.check_succeeds disk'
    have settled := converges {} result memo' disk' applied cr disk' checked
    rw [(check_runs checked).2, (apply_runs applied).1] at settled
    exact settled
  · intro settled memo result memo' disk' applied cr disk'' checked
    rw [(check_runs checked).2, (apply_runs applied).1]
    exact settled

end Edit

end Zester.Modules.File
