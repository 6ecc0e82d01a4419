import Zester.Modules.File.Block
import Zester.Modules.File.SurgeryProofs

/-! What the search for a block finds in lines that hold one, and when the state `file.blockreplace`
finds the block that it has written. -/
namespace Zester.Modules.File
open States FileProgram
open List hiding after

section
variable {markerStart markerEnd : Text} {i start : Nat}

theorem findMarkers_start (isStart : trimCR line = markerStart) :
    findMarkers markerStart markerEnd startIdx i (line :: lines) =
      findMarkers markerStart markerEnd (some i) (i + 1) lines := by
  cases startIdx <;> simp [findMarkers, isStart]

theorem findMarkers_end (notStart : trimCR line ≠ markerStart) (isEnd : trimCR line = markerEnd) :
    findMarkers markerStart markerEnd (some start) i (line :: lines) = some (start, i) := by
  rw [findMarkers, if_neg notStart, if_pos isEnd]

theorem findMarkers_skip (notStart : trimCR line ≠ markerStart)
    (inside : startIdx = none ∨ trimCR line ≠ markerEnd) :
    findMarkers markerStart markerEnd startIdx i (line :: lines) =
      findMarkers markerStart markerEnd startIdx (i + 1) lines := by
  cases startIdx with
  | none => rw [findMarkers, if_neg notStart]
  | some start =>
    rw [findMarkers, if_neg notStart, if_neg (inside.resolve_left (Option.some_ne_none start))]

/-- The search goes on behind a line, or ends with it. -/
theorem findMarkers_cons (startIdx : Option Nat) (i : Nat) (line : Text) :
    (∃ next, (trimCR line = markerStart ∧ next = some i ∨ next = startIdx) ∧ ∀ lines,
      findMarkers markerStart markerEnd startIdx i (line :: lines) =
        findMarkers markerStart markerEnd next (i + 1) lines) ∨
    ∃ start, startIdx = some start ∧ (trimCR line ≠ markerStart ∧ trimCR line = markerEnd) ∧
      ∀ lines, findMarkers markerStart markerEnd startIdx i (line :: lines) = some (start, i) := by
  by_cases isStart : trimCR line = markerStart
  · exact .inl ⟨some i, .inl ⟨isStart, rfl⟩, fun lines => findMarkers_start isStart⟩
  by_cases inside : startIdx = none ∨ trimCR line ≠ markerEnd
  · exact .inl ⟨startIdx, .inr rfl, fun lines => findMarkers_skip isStart inside⟩
  · simp only [not_or, ne_eq, not_not] at inside
    obtain ⟨start, rfl⟩ := Option.ne_none_iff_exists'.mp inside.1
    exact .inr ⟨start, rfl, ⟨isStart, inside.2⟩, fun lines => findMarkers_end isStart inside.2⟩

theorem findMarkers_append (startIdx : Option Nat) (i : Nat) (before : List Text) :
    ∃ next, ∀ rest, findMarkers markerStart markerEnd startIdx i (before ++ rest) =
      (findMarkers markerStart markerEnd startIdx i before).or
        (findMarkers markerStart markerEnd next (i + before.length) rest) := by
  induction before generalizing startIdx i with
  | nil => exact ⟨startIdx, fun rest => by simp [findMarkers]⟩
  | cons line before ih =>
    obtain ⟨next, -, goes⟩ | ⟨start, rfl, -, stops⟩ :=
      @findMarkers_cons markerStart markerEnd startIdx i line
    · obtain ⟨last, split⟩ := ih next (i + 1)
      refine ⟨last, fun rest => ?_⟩
      rw [cons_append, goes, goes, split, length_cons, Nat.add_right_comm, Nat.add_assoc]
    · exact ⟨none, fun rest => by rw [cons_append, stops, stops, Option.some_or]⟩

theorem findMarkers_of_append
    (quiet : findMarkers markerStart markerEnd startIdx i (lines ++ rest) = none) :
    findMarkers markerStart markerEnd startIdx i lines = none := by
  obtain ⟨next, split⟩ := @findMarkers_append markerStart markerEnd startIdx i lines
  rw [split] at quiet
  exact (Option.or_eq_none_iff.mp quiet).1

/-- The search takes the next start marker behind lines in which it finds no block. -/
theorem findMarkers_opening (quiet : findMarkers markerStart markerEnd startIdx i before = none)
    (opens : trimCR opening = markerStart) (rest : List Text) :
    findMarkers markerStart markerEnd startIdx i (before ++ opening :: rest) =
      findMarkers markerStart markerEnd (some (i + before.length))
        (i + before.length + 1) rest := by
  obtain ⟨next, split⟩ := @findMarkers_append markerStart markerEnd startIdx i before
  rw [split, quiet, Option.none_or, findMarkers_start opens]

/-- From a start marker on, the search ends at the latest with an end marker, and a marker before
that makes the block smaller. -/
theorem findMarkers_within (earlier : start < i) (differ : trimCR closing ≠ markerStart)
    (closes : trimCR closing = markerEnd) (between after : List Text) :
    ∃ start' stop, findMarkers markerStart markerEnd (some start) i (between ++ closing :: after) =
      some (start', stop) ∧ start ≤ start' ∧ start' < stop ∧ stop ≤ i + between.length ∧
      ((∃ l ∈ between, trimCR l = markerStart ∨ trimCR l = markerEnd) ↔
        stop + start < i + between.length + start') := by
  induction between generalizing start i with
  | nil =>
    exact ⟨start, i, findMarkers_end differ closes, Nat.le_refl _, earlier, Nat.le_refl i, by simp⟩
  | cons line between ih =>
    rw [cons_append, length_cons]
    by_cases isStart : trimCR line = markerStart
    · obtain ⟨start', stop, found, later, inside, bound, -⟩ := ih (Nat.lt_succ_self i)
      rw [findMarkers_start isStart]
      exact ⟨start', stop, found, by omega, inside, by omega,
        iff_of_true ⟨line, mem_cons_self, .inl isStart⟩ (by omega)⟩
    · by_cases isEnd : trimCR line = markerEnd
      · rw [findMarkers_end isStart isEnd]
        exact ⟨start, i, rfl, Nat.le_refl _, earlier, by omega,
          iff_of_true ⟨line, mem_cons_self, .inr isEnd⟩ (by omega)⟩
      · obtain ⟨start', stop, found, later, inside, bound, marked⟩ := ih (Nat.lt_succ_of_lt earlier)
        rw [findMarkers_skip isStart (.inr isEnd)]
        refine ⟨start', stop, found, later, inside, by omega, ?_⟩
        simp only [mem_cons, exists_eq_or_imp, isStart, isEnd, or_self, false_or, marked]
        omega

theorem findMarkers_between (earlier : start < i) (differ : trimCR closing ≠ markerStart)
    (closes : trimCR closing = markerEnd)
    (plain : ∀ l ∈ between, trimCR l ≠ markerStart ∧ trimCR l ≠ markerEnd) (after : List Text) :
    findMarkers markerStart markerEnd (some start) i (between ++ closing :: after) =
      some (start, i + between.length) := by
  obtain ⟨start', stop, found, later, inside, bound, marked⟩ :=
    findMarkers_within earlier differ closes between after
  have whole :=
    mt marked.mpr fun ⟨l, member, marker⟩ => marker.elim (plain l member).1 (plain l member).2
  obtain ⟨rfl, rfl⟩ : start' = start ∧ stop = i + between.length := by omega
  exact found

/-- What is found: a start marker, lines, and an end marker, with no block in the lines before. -/
theorem findMarkers_some
    (found : findMarkers markerStart markerEnd startIdx i lines = some (start, stop)) :
    (∃ between closing after, lines = between ++ closing :: after ∧ startIdx = some start ∧
      stop = i + between.length ∧ trimCR closing ≠ markerStart ∧ trimCR closing = markerEnd) ∨
    ∃ before opening between closing after,
      lines = before ++ opening :: (between ++ closing :: after) ∧
      start = i + before.length ∧ stop = start + 1 + between.length ∧
      findMarkers markerStart markerEnd startIdx i before = none ∧ trimCR opening = markerStart ∧
      trimCR closing ≠ markerStart ∧ trimCR closing = markerEnd := by
  induction lines generalizing startIdx i with
  | nil => simp [findMarkers] at found
  | cons line lines ih =>
    obtain ⟨next, cause, goes⟩ | ⟨opened, rfl, ends, stops⟩ :=
      @findMarkers_cons markerStart markerEnd startIdx i line
    · rw [goes] at found
      obtain ⟨between, closing, after, rfl, same, rfl, ends⟩ |
        ⟨before, opening, between, closing, after, rfl, rfl, rfl, quiet, ends⟩ := ih found
      · obtain ⟨isStart, rfl⟩ | rfl := cause
        · cases same
          exact .inr ⟨[], line, between, closing, after, rfl, rfl, rfl,
            by simp [findMarkers], isStart, ends⟩
        · exact .inl ⟨line :: between, closing, after, rfl, same, by simp; omega, ends⟩
      · exact .inr ⟨line :: before, opening, between, closing, after, rfl,
          by simp; omega, rfl, (goes before).trans quiet, ends⟩
    · rw [stops] at found
      cases found
      exact .inl ⟨[], line, lines, rfl, rfl, rfl, ends⟩

theorem trimCR_trimCR (line : Text) : trimCR (trimCR line) = trimCR line := by
  rw [trimCR, trimCR, reverse_reverse, dropWhile_of_head]
  exact head_dropWhile _ _

end

theorem take_opening : (before ++ opening :: (between ++ closing :: after)).take
    (before.length + 1) = before ++ [opening] := by
  rw [append_cons]
  exact take_left' (by simp)

theorem drop_closing :
    (before ++ opening :: (between ++ closing :: after)).drop (before.length + 1 + between.length) =
    closing :: after := by
  rw [append_cons, ← append_assoc]
  exact drop_left' (by simp; omega)

theorem take_closing :
    (before ++ opening :: (between ++ closing :: after)).take (before.length + 1 + between.length) =
    before ++ [opening] ++ between := by
  rw [append_cons, ← append_assoc]
  exact take_left' (by simp; omega)

theorem drop_opening : (before ++ [opening] ++ between).drop (before.length + 1) = between :=
  drop_left' (by simp)

theorem blockText_inj (single : ∀ l ∈ between, '\n' ∉ l) (single' : ∀ l ∈ lines, '\n' ∉ l)
    (some_line : lines ≠ []) (same : blockText between = blockText lines) : between = lines := by
  unfold blockText at same
  by_cases empty : between = []
  · simp [empty, some_line] at same
  · rw [if_neg empty, if_neg some_line] at same
    exact Lines.intercalate_inj single single' empty some_line (append_cancel_right same)

namespace FileBlockReplace
variable {f : FileBlockReplace} {data : Text}

theorem desiredContent_ends (f : FileBlockReplace) : f.desiredContent.getLast? = some '\n' := by
  unfold desiredContent
  split
  · assumption
  · simp

theorem newline_not_mem_contentLines (member : l ∈ f.contentLines) : '\n' ∉ l :=
  not_mem_of_mem_splitOn member

theorem contentLines_ne_nil (f : FileBlockReplace) : f.contentLines ≠ [] := splitOn_ne_nil _ _

theorem blockText_contentLines (f : FileBlockReplace) :
    blockText f.contentLines = f.desiredContent := by
  rw [blockText, if_neg f.contentLines_ne_nil, contentLines, intercalate_splitOn,
    dropLast_concat_newline f.desiredContent_ends]

theorem splitOn_block (startSingle : '\n' ∉ f.markerStart) (endSingle : '\n' ∉ f.markerEnd)
    (tail : Text) :
    (f.block ++ tail).splitOn '\n' = f.markerStart ::
    (f.contentLines ++ f.markerEnd :: tail.splitOn '\n') := by
  have parts : f.block ++ tail =
      f.markerStart ++ '\n' ::
          (f.desiredContent.dropLast ++ '\n' :: (f.markerEnd ++ '\n' :: tail)) := by
    nth_rewrite 1 [block]
    nth_rewrite 1 [← dropLast_concat_newline f.desiredContent_ends]
    simp
  rw [parts, splitOn_append_cons_self, splitOn_append_cons_self, splitOn_append_cons_self,
    splitOn_eq_singleton startSingle, splitOn_eq_singleton endSingle]
  rfl

def completed (data : Text) : Text :=
  if data ≠ [] ∧ data.getLast? ≠ some '\n' then data ++ ['\n'] else data

theorem splitOn_completed (data rest : Text) :
    (completed data ++ rest).splitOn '\n' = (fsxSplitLines data).1 ++ rest.splitOn '\n' := by
  unfold completed fsxSplitLines
  by_cases empty : data = []
  · simp [empty]
  by_cases ended : data.getLast? = some '\n'
  · have whole : data ++ rest = data.dropLast ++ '\n' :: rest := by
      nth_rewrite 1 [← dropLast_concat_newline ended]
      simp
    simp only [empty, ended, ne_eq, not_true, and_false, if_false, if_true, whole,
      splitOn_append_cons_self]
  · simp only [empty, ended, ne_eq, not_false_iff, and_self, if_false, if_true, append_assoc,
      singleton_append, splitOn_append_cons_self]

theorem quiet_lines (quiet : findMarkers f.markerStart f.markerEnd none 0
      (data.splitOn '\n') = none) :
    findMarkers f.markerStart f.markerEnd none 0 (fsxSplitLines data).1 = none := by
  unfold fsxSplitLines
  split
  · simp [findMarkers]
  split
  · rename_i ended
    rw [← dropLast_concat_newline ended, splitOn_append_cons_self] at quiet
    exact findMarkers_of_append quiet
  · exact quiet

theorem splitOn_replaced
    (whole : data.splitOn '\n' = before ++ opening :: (between ++ closing :: after)) :
    (['\n'].intercalate (before ++ opening :: (f.contentLines ++ closing :: after))).splitOn '\n' =
      before ++ opening :: (f.contentLines ++ closing :: after) := by
  have lines : ∀ l ∈ data.splitOn '\n', '\n' ∉ l := fun l member => not_mem_of_mem_splitOn member
  refine splitOn_intercalate '\n' ?_ (by simp)
  rw [whole] at lines
  simp only [forall_mem_append, forall_mem_cons] at lines ⊢
  exact ⟨lines.1, lines.2.1, fun l member => newline_not_mem_contentLines member, lines.2.2.2⟩

/-- Where the block stands after `Apply`: in the place of the one that was found, or after all lines
of the file. -/
def Placed (f : FileBlockReplace) (content : Option Text) (before : List Text)
    (opening closing : Text) (after : List Text) : Prop :=
  (∃ data old, content = some data ∧ data.splitOn '\n' = before ++ opening ::
    (old ++ closing :: after) ∧ findMarkers f.markerStart f.markerEnd none 0 (data.splitOn '\n') =
      some (before.length, before.length + 1 + old.length)) ∨
  (∀ data, content = some data →
    findMarkers f.markerStart f.markerEnd none 0 (data.splitOn '\n') = none) ∧
    before = (fsxSplitLines (content.getD [])).1 ∧ opening = f.markerStart ∧ closing = f.markerEnd ∧
    after = [] :: if content.isSome && f.appendNewline then [[]] else []

/-- The lines before the start marker and after the end marker are those from before; where there
was no block, it comes last, with an empty line behind it if one is asked for. -/
def KeepsOthers (f : FileBlockReplace) (content : Option Text) (text : Text) : Prop :=
  ∃ before opening closing after, text.splitOn '\n' = before ++ opening ::
    (f.contentLines ++ closing :: after) ∧ f.Placed content before opening closing after

theorem after_written (appends : f.appendIfNotFound = true) (startSingle : '\n' ∉ f.markerStart)
    (endSingle : '\n' ∉ f.markerEnd) (content : Option Text) :
    ∃ text before opening closing after, f.edit.after content = some text ∧
      text.splitOn '\n' = before ++ opening :: (f.contentLines ++ closing :: after) ∧
      findMarkers f.markerStart f.markerEnd none 0 before = none ∧
      f.Placed content before opening closing after ∧
      (trimCR opening = f.markerStart ∧ trimCR closing = f.markerEnd ∨ opening = f.markerStart ∧
        closing = f.markerEnd) := by
  cases content with
  | none =>
    refine ⟨f.block, [], f.markerStart, f.markerEnd, [[]], ?_, ?_,
      by simp [findMarkers], ?_, .inr ⟨rfl, rfl⟩⟩
    · simp [Edit.after, edit, plan, appends, report]
    · simpa using splitOn_block startSingle endSingle []
    · exact .inr ⟨fun data absent => (by cases absent), by simp [fsxSplitLines], rfl, rfl, by simp⟩
  | some data =>
    cases found : findMarkers f.markerStart f.markerEnd none 0 (data.splitOn '\n') with
    | none =>
      have written : f.edit.after (some data) =
          some (completed data ++ (f.block ++ if f.appendNewline then ['\n'] else [])) := by
        simp [Edit.after, edit, plan, findBlock, found, appends, report, completed]
      refine ⟨_, (fsxSplitLines data).1, f.markerStart, f.markerEnd,
        (if f.appendNewline then ['\n'] else []).splitOn '\n', written, ?_, quiet_lines found, ?_,
          .inr ⟨rfl, rfl⟩⟩
      · rw [splitOn_completed, splitOn_block startSingle endSingle]
      · refine .inr ⟨fun data' same => ?_, rfl, rfl, rfl, ?_⟩
        · cases same
          exact found
        · cases f.appendNewline <;> simp [splitOn_cons_eq_if_modifyHead]
    | some markers =>
      obtain ⟨start, stop⟩ := markers
      obtain ⟨-, -, -, -, opened, -⟩ | ⟨before, opening, between, closing, after, whole, rfl,
        rfl, quiet, opens, -, closes⟩ :=
        findMarkers_some found
      · cases opened
      have newLines : (data.splitOn '\n').take (0 + before.length + 1) ++ f.contentLines ++
          (data.splitOn '\n').drop (0 + before.length + 1 + between.length) =
          before ++ opening :: (f.contentLines ++ closing :: after) := by
        rw [whole, Nat.zero_add, take_opening, drop_closing]
        simp
      have written : f.edit.after (some data) =
          some (['\n'].intercalate
              (before ++ opening :: (f.contentLines ++ closing :: after))) := by
        simp only [Edit.after, edit, plan, findBlock, found, report, newLines]
      refine ⟨_, before, opening, closing, after, written, splitOn_replaced whole, quiet, ?_,
        .inl ⟨opens, closes⟩⟩
      exact .inl ⟨data, between, rfl, whole, by simpa using found⟩

/-- No line of the content is taken for a marker, and the markers are found as they are written. -/
structure Clear (f : FileBlockReplace) : Prop where
  startTrimmed : trimCR f.markerStart = f.markerStart
  endTrimmed : trimCR f.markerEnd = f.markerEnd
  plain : ∀ l ∈ f.contentLines, trimCR l ≠ f.markerStart ∧ trimCR l ≠ f.markerEnd

theorem assess_unchanged_iff (appends : f.appendIfNotFound = true) :
    (f.assess (some text)).needsChange = false ↔
      ∃ start stop, findMarkers f.markerStart f.markerEnd none 0 (text.splitOn '\n') =
        some (start, stop) ∧ ((text.splitOn '\n').take stop).drop (start + 1) = f.contentLines := by
  cases found : findMarkers f.markerStart f.markerEnd none 0 (text.splitOn '\n') with
  | none => simp [assess, findBlock, found, appends]
  | some markers =>
    obtain ⟨start, stop⟩ := markers
    have same : blockText (((text.splitOn '\n').take stop).drop (start + 1)) = f.desiredContent ↔
        ((text.splitOn '\n').take stop).drop (start + 1) = f.contentLines := by
      rw [← blockText_contentLines]
      constructor
      · refine blockText_inj (fun l member => ?_)
          (fun l member => newline_not_mem_contentLines member) f.contentLines_ne_nil
        exact not_mem_of_mem_splitOn (mem_of_mem_take (mem_of_mem_drop member))
      · exact congrArg blockText
    by_cases equal : ((text.splitOn '\n').take stop).drop (start + 1) = f.contentLines
    · simp [assess, findBlock, found, equal, blockText_contentLines]
    · simp [assess, findBlock, found, mt same.mp equal, equal]

/-- A block between its markers is found with its content if and only if no line of it is a
marker. -/
theorem settled_iff (appends : f.appendIfNotFound = true) (distinct : f.markerStart ≠ f.markerEnd)
    (lines : text.splitOn '\n' = before ++ opening :: (f.contentLines ++ closing :: after))
    (quiet : findMarkers f.markerStart f.markerEnd none 0 before = none)
    (markers : trimCR opening = f.markerStart ∧ trimCR closing = f.markerEnd ∨
      opening = f.markerStart ∧ closing = f.markerEnd) :
    (f.assess (some text)).needsChange = false ↔ f.Clear := by
  rw [assess_unchanged_iff appends]
  constructor
  · rintro ⟨start, stop, found, equal⟩
    have trimmed : trimCR f.markerStart = f.markerStart ∧ trimCR f.markerEnd = f.markerEnd := by
      obtain ⟨-, -, -, -, opened, -⟩ | ⟨-, opening', -, closing', -, -, -, -, -, opens, -,
        closes⟩ := findMarkers_some found
      · cases opened
      · exact ⟨opens ▸ trimCR_trimCR opening', closes ▸ trimCR_trimCR closing'⟩
    have opens : trimCR opening = f.markerStart :=
      markers.elim And.left fun same => same.1 ▸ trimmed.1
    have closes : trimCR closing = f.markerEnd :=
      markers.elim And.right fun same => same.2 ▸ trimmed.2
    have differ : trimCR closing ≠ f.markerStart := closes ▸ distinct.symm
    refine ⟨trimmed.1, trimmed.2, fun l member => ?_⟩
    by_contra marker
    -- the block that is found is smaller than the content
    obtain ⟨start', stop', within, -, inside, bound, marked⟩ :=
      @findMarkers_within f.markerStart f.markerEnd (0 + before.length + 1)
        (0 + before.length) closing (Nat.lt_succ_self _)
        differ closes f.contentLines after
    have smaller := marked.mp ⟨l, member, by tauto⟩
    rw [lines, findMarkers_opening quiet opens, within] at found
    simp only [Option.some.injEq, Prod.mk.injEq] at found
    obtain ⟨rfl, rfl⟩ := found
    have counted := congrArg length equal
    rw [length_drop, length_take, lines] at counted
    simp only [length_append, length_cons] at counted
    omega
  · rintro ⟨startTrimmed, endTrimmed, plain⟩
    have opens : trimCR opening = f.markerStart :=
      markers.elim And.left fun same => same.1 ▸ startTrimmed
    have closes : trimCR closing = f.markerEnd :=
      markers.elim And.right fun same => same.2 ▸ endTrimmed
    have differ : trimCR closing ≠ f.markerStart := closes ▸ distinct.symm
    refine ⟨before.length, before.length + 1 + f.contentLines.length, ?_, ?_⟩
    · rw [lines, findMarkers_opening quiet opens,
        findMarkers_between (Nat.lt_succ_self _) differ closes plain, Nat.zero_add]
    · rw [lines, take_closing, drop_opening]

/-- After every successful `Apply` that may append the block, the other lines are those from before
and a following `Check` reports no change, if and only if the markers do not end in a carriage
return and no line of the content is, but for carriage returns at its end, one of them. -/
theorem block_converges_iff (f : FileBlockReplace) (appends : f.appendIfNotFound = true)
    (distinct : f.markerStart ≠ f.markerEnd) (startSingle : '\n' ∉ f.markerStart)
    (endSingle : '\n' ∉ f.markerEnd) (disk : Disk Text) :
    (f.edit.Converges disk ∧
      ∀ memo result memo' disk', (f.edit.apply memo).Runs disk (.ok result, memo') disk' →
      ∃ text, disk' f.path = some text ∧ f.KeepsOthers (disk f.path) text) ↔ f.Clear := by
  obtain ⟨text, before, opening, closing, after, written, lines, quiet, placed, markers⟩ :=
    after_written appends startSingle endSingle (disk f.path)
  have settled := settled_iff appends distinct lines quiet markers
  have converges : f.edit.Converges disk ↔ f.Clear := by
    rw [Edit.converges_iff]
    change (f.assess (f.edit.after (disk f.path))).needsChange = false ↔ f.Clear
    rw [written, settled]
  constructor
  · exact fun both => converges.mp both.1
  · intro clear
    refine ⟨converges.mpr clear, fun memo result memo' disk' applied => ?_⟩
    exact ⟨text, (Edit.apply_runs applied).1.trans written, before, opening, closing, after,
      lines, placed⟩

def hosting (content : String) : FileBlockReplace :=
  { path := "/etc/hosts", content := content.toList, appendIfNotFound := true,
    appendNewline := false }

def etcHosts (content : String) : Disk Text :=
  fun p => if p = "/etc/hosts" then some content.toList else none

theorem block_converges_iff_appended :
    (hosting "10.0.0.1 app").edit.Converges (etcHosts "127.0.0.1 localhost\n") ∧
      ∀ memo result memo' disk',
        ((hosting "10.0.0.1 app").edit.apply memo).Runs (etcHosts "127.0.0.1 localhost\n")
        (.ok result, memo') disk' → ∃ text, disk' "/etc/hosts" = some text ∧
          (hosting "10.0.0.1 app").KeepsOthers (some "127.0.0.1 localhost\n".toList) text :=
  (block_converges_iff (hosting "10.0.0.1 app") rfl (by decide) (by decide) (by decide)
    (etcHosts "127.0.0.1 localhost\n")).mpr
    ⟨by decide, by decide, by decide⟩

/-- With the end marker in the content, the block is never found whole, and each call puts the
content in once more. -/
theorem marked_content_grows :
    ¬ (hosting "# END managed zone\nx").edit.Converges (etcHosts "") ∧
      ((hosting "# END managed zone\nx").edit.course {} (some []) 3).1 =
        some ("# START managed zone\n# END managed zone\nx\n# END managed zone\nx\n" ++
          "# END managed zone\nx\n# END managed zone\n").toList := by
  rw [Edit.converges_iff]
  constructor <;> decide +kernel

end FileBlockReplace

end Zester.Modules.File
