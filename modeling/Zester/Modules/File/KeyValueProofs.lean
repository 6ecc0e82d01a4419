import Zester.Modules.File.KeyValue
import Zester.Modules.File.SurgeryProofs

/-! Which lines the state `file.keyvalue` finds again, and when its keys leave each other's lines
alone. -/
namespace Zester.Modules.File
open States FileProgram Option

theorem leadingGroup_split (found : leadingGroup key s line = some leading) :
    ∃ rest, line = leading ++ rest ∧ leading.all isPerlSpace = true ∧
      leadingGroup key s rest = some [] := by
  induction line generalizing leading with
  | nil =>
    have whole := found
    rw [leadingGroup] at found
    split at found <;> cases found
    exact ⟨[], rfl, rfl, whole⟩
  | cons c line ih =>
    have whole := found
    rw [leadingGroup] at found
    split at found
    · rename_i further
      cases found
      split at further
      · rename_i space
        obtain ⟨rest, rfl, blank, here⟩ := ih further
        exact ⟨rest, rfl, by simp [space, blank], here⟩
      · cases further
    · split at found <;> cases found
      exact ⟨_, rfl, rfl, whole⟩

theorem leadingGroup_append (blank : leading.all isPerlSpace = true)
    (found : leadingGroup key s line = some []) :
    leadingGroup key s (leading ++ line) = some leading := by
  induction leading with
  | nil => exact found
  | cons c leading ih =>
    obtain ⟨space, blank⟩ : isPerlSpace c = true ∧ leading.all isPerlSpace = true := by
      simpa using blank
    rw [List.cons_append, leadingGroup, if_pos space, ih blank]

namespace FileKeyValue
variable {f : FileKeyValue} {keys : List Text}

def sets (f : FileKeyValue) (key line : Text) : Bool := (f.matchKey key line).isSome

theorem matchKey_blank (found : f.matchKey key line = some leading) :
    leading.all isPerlSpace = true := by
  obtain ⟨rest, -, blank, -⟩ := leadingGroup_split found
  exact blank

theorem newLine_eq : f.newLine leading key = leading ++ f.newLine [] key := by simp [newLine]

/-- The line that is written for a key is found again as one of the key, without whitespace in
front. -/
def Recognised (f : FileKeyValue) (key : Text) : Prop := f.matchKey key (f.newLine [] key) = some []

instance (f : FileKeyValue) (key : Text) : Decidable (f.Recognised key) :=
  inferInstanceAs (Decidable (f.matchKey key (f.newLine [] key) = some []))

theorem Recognised.matchKey (recognised : f.Recognised key)
    (blank : leading.all isPerlSpace = true) :
    f.matchKey key (f.newLine leading key) = some leading := by
  rw [newLine_eq]
  exact leadingGroup_append blank recognised

section
variable {before : List Text} (earlier : ∀ l ∈ before, f.matchKey key l = none)
  (here : f.matchKey key line = some leading)
include earlier here

theorem find_sets : (before ++ line :: after).find? (f.sets key) = some line := by
  rw [List.find?_append, List.find?_eq_none.mpr (by simpa [sets] using earlier), none_or,
    List.find?_cons_of_pos (by simp [sets, here])]

theorem findKey_eq : f.findKey key (before ++ line :: after) = some (before.length, leading) := by
  induction before with
  | nil => simp [findKey, here]
  | cons l before ih =>
    obtain ⟨absent, earlier⟩ := List.forall_mem_cons.mp earlier
    simp [findKey, absent, ih earlier]

end

theorem findKey_none (absent : ∀ l ∈ lines, f.matchKey key l = none) :
    f.findKey key lines = none := by
  induction lines with
  | nil => rfl
  | cons l lines ih =>
    obtain ⟨none, absent⟩ := List.forall_mem_cons.mp absent
    simp [findKey, none, ih absent]

def Holds (f : FileKeyValue) (key : Text) (lines : List Text) : Prop :=
  ∃ leading, leading.all isPerlSpace = true ∧
    f.matchKey key (f.newLine leading key) = some leading ∧
    lines.find? (f.sets key) = some (f.newLine leading key)

/-- What the loop body does for a key: nothing, or it rewrites the first line of the key, or it
appends one. -/
inductive Turn (f : FileKeyValue) (key : Text) (lines : List Text) : List Text × Bool → Prop where
  | kept (holds : f.Holds key lines) : Turn f key lines (lines, false)
  | rewritten {before after : List Text} {line leading : Text}
      (whole : lines = before ++ line :: after)
      (earlier : ∀ l ∈ before, f.matchKey key l = none) (here : f.matchKey key line = some leading)
      (differs : line ≠ f.newLine leading key) :
        Turn f key lines (before ++ f.newLine leading key :: after, true)
  | appended (absent : ∀ l ∈ lines, f.matchKey key l = none) :
      Turn f key lines (lines ++ [f.newLine [] key], true)

theorem computeKey_turn (f : FileKeyValue) (key : Text) (done : List Text × Bool) :
    ∃ turn : List Text × Bool, f.Turn key done.1 turn ∧
      f.computeKey done key = (turn.1, done.2 || turn.2) := by
  obtain ⟨lines, changed⟩ := done
  unfold computeKey
  cases first : lines.find? (f.sets key) with
  | none =>
    have absent : ∀ l ∈ lines, f.matchKey key l = none := by simpa [sets] using first
    exact ⟨_, .appended absent, by simp [findKey_none absent]⟩
  | some line =>
    obtain ⟨found, before, after, rfl, unset⟩ := List.find?_eq_some_iff_append.mp first
    obtain ⟨leading, here⟩ := isSome_iff_exists.mp found
    have earlier : ∀ l ∈ before, f.matchKey key l = none := by simpa [sets] using unset
    by_cases same : line = f.newLine leading key
    · subst same
      exact ⟨_, .kept ⟨leading, matchKey_blank here, here, first⟩,
        by simp [findKey_eq earlier here]⟩
    · exact ⟨_, .rewritten rfl earlier here same, by simp [findKey_eq earlier here, same]⟩

namespace Turn
variable {i : Nat}

section
variable (step : f.Turn key lines turn)
include step

theorem length_le : lines.length ≤ turn.1.length := by
  cases step with
  | kept holds => exact Nat.le_refl _
  | rewritten whole earlier here differs => simp [whole]
  | appended absent => simp

theorem aside (place : lines[i]? = some l) (unset : f.matchKey key l = none) :
    turn.1[i]? = some l := by
  cases step with
  | kept holds => exact place
  | @rewritten before after line leading whole earlier here differs =>
    rw [whole] at place
    have elsewhere : i ≠ before.length := by
      rintro rfl
      obtain rfl : line = l := by simpa using place
      cases unset.symm.trans here
    rw [Lines.getElem?_replaced elsewhere]
    exact place
  | appended absent =>
    exact List.getElem?_append_left (List.getElem?_eq_some_iff.mp place).1 ▸ place

theorem holds (recognised : f.Recognised key) : f.Holds key turn.1 := by
  cases step with
  | kept holds => exact holds
  | rewritten whole earlier here differs =>
    have again := recognised.matchKey (matchKey_blank here)
    exact ⟨_, matchKey_blank here, again, find_sets earlier again⟩
  | appended absent => exact ⟨[], rfl, recognised, find_sets absent recognised⟩

/-- Only a turn that finds the first line of its key as it is written leaves the lines alone. -/
theorem idle_iff :
    (turn.2 = false ↔ f.Holds key lines) ∧ (turn.1 = lines ↔ f.Holds key lines) := by
  cases step with
  | kept holds => simp [holds]
  | @rewritten before after line leading whole earlier here differs =>
    subst whole
    have lost : ¬ f.Holds key (before ++ line :: after) := by
      rintro ⟨leading', -, found, first⟩
      rw [find_sets earlier here, some.injEq] at first
      rw [first, found, some.injEq] at here
      exact differs (here ▸ first)
    simpa [lost] using Ne.symm differs
  | appended absent =>
    have lost : ¬ f.Holds key lines := by
      rintro ⟨leading, -, -, first⟩
      have sets := List.find?_some first
      rw [FileKeyValue.sets, absent _ (List.mem_of_find?_eq_some first)] at sets
      cases sets
    simp [lost]

end

end Turn

theorem Turn.computeKey (step : f.Turn key lines turn) :
    f.computeKey (lines, false) key = turn := by
  unfold FileKeyValue.computeKey
  cases step with
  | kept holds =>
    obtain ⟨leading, -, recognised, first⟩ := holds
    obtain ⟨-, before, after, rfl, earlier⟩ := List.find?_eq_some_iff_append.mp first
    simp [findKey_eq (by simpa [sets] using earlier) recognised]
  | rewritten whole earlier here differs => simp [whole, findKey_eq earlier here, differs]
  | appended absent => simp [findKey_none absent]

/-- In these lines the turn of `key` makes the first line of `other` one that is no longer as
it is written. -/
def Takes (f : FileKeyValue) (key other : Text) (lines : List Text) : Prop :=
  f.Holds other lines ∧ ∃ turn, f.Turn key lines turn ∧ ¬ f.Holds other turn.1

def Gives (f : FileKeyValue) (key other : Text) (lines : List Text) : Prop :=
  ¬ f.Holds other lines ∧ ∃ turn, f.Turn key lines turn ∧ f.Holds other turn.1

section
variable {done : List Text × Bool}

/-- What the turn of every key keeps holds after all of them. -/
theorem run_keeps (keeps : List Text × Bool → Prop) (start : keeps done)
    (step : ∀ key ∈ keys, ∀ done turn, f.Turn key done.1 turn → keeps done →
      keeps (turn.1, done.2 || turn.2)) : keeps (keys.foldl f.computeKey done) := by
  refine List.foldlRecOn keys f.computeKey start fun done held key member => ?_
  obtain ⟨turn, taken, computed⟩ := f.computeKey_turn key done
  rw [computed]
  exact step key member done turn taken held

theorem run_changed (keys : List Text) (changed : done.2 = true) :
    (keys.foldl f.computeKey done).2 = true :=
  run_keeps (fun now => now.2 = true) changed fun _ _ _ _ _ changed => by simp [changed]

theorem sortedKeys_ne_nil (f : FileKeyValue) : f.sortedKeys ≠ [] := by
  intro empty
  have length := congrArg List.length empty
  rw [sortedKeys, List.length_insertionSort, AList.keys, List.keys, List.length_map] at length
  exact f.some_entry (List.length_eq_zero_iff.mp length)

theorem compute_nil_changed (f : FileKeyValue) : (f.compute []).2 = true := by
  unfold compute
  cases sorted : f.sortedKeys with
  | nil => exact absurd sorted f.sortedKeys_ne_nil
  | cons key keys => exact run_changed keys rfl

/-- Nothing changes if and only if the first line of every key is as it is written. -/
theorem run_unchanged_iff (keys lines : List Text) :
    (keys.foldl f.computeKey (lines, false)).2 = false ↔ ∀ key ∈ keys, f.Holds key lines := by
  induction keys with
  | nil => simp
  | cons key keys ih =>
    obtain ⟨turn, step, computed⟩ := f.computeKey_turn key (lines, false)
    rw [List.foldl_cons, computed, List.forall_mem_cons, ← step.idle_iff.1]
    cases changed : turn.2 with
    | true => simp [run_changed]
    | false =>
      have same : turn.1 = lines := step.idle_iff.2.mpr (step.idle_iff.1.mp changed)
      simpa [same] using ih

theorem run_held (holds : ∀ key ∈ keys, f.Holds key done.1) :
    (keys.foldl f.computeKey done).1 = done.1 :=
  run_keeps (fun now => now.1 = done.1) rfl fun key member _ _ taken same =>
    (taken.idle_iff.2.mpr (same ▸ holds key member)).trans same

/-- The lines after the turns of the first `n` keys. -/
def linesAfter (f : FileKeyValue) (lines : List Text) (n : Nat) : List Text :=
  ((f.sortedKeys.take n).foldl f.computeKey (lines, false)).1

theorem linesAfter_end (f : FileKeyValue) (lines : List Text) :
    f.linesAfter lines f.sortedKeys.length = (f.compute lines).1 := by
  rw [linesAfter, List.take_length, compute]

theorem linesAfter_succ (lines : List Text) (own : f.sortedKeys[n]? = some key) :
    ∃ turn, f.Turn key (f.linesAfter lines n) turn ∧ f.linesAfter lines (n + 1) = turn.1 := by
  obtain ⟨turn, step, computed⟩ :=
    f.computeKey_turn key ((f.sortedKeys.take n).foldl f.computeKey (lines, false))
  refine ⟨turn, step, ?_⟩
  rw [linesAfter, List.take_add_one, own, toList_some, List.foldl_append, List.foldl_cons,
    List.foldl_nil, computed]

theorem turn_iff (P : List Text → Prop) (lines : List Text) (own : f.sortedKeys[n]? = some key) :
    (∃ turn, f.Turn key (f.linesAfter lines n) turn ∧ P turn.1) ↔
      P (f.linesAfter lines (n + 1)) := by
  obtain ⟨turn, step, after⟩ := linesAfter_succ lines own
  rw [after]
  constructor
  · rintro ⟨same, taken, holds⟩
    rwa [← step.computeKey, taken.computeKey]
  · exact fun holds => ⟨turn, step, holds⟩

/-- What a turn takes from a key before it, a later one gives back. -/
def Steady (f : FileKeyValue) (lines : List Text) : Prop :=
  ∀ n key other, f.sortedKeys[n]? = some key → other ∈ f.sortedKeys.take n →
    f.Takes key other (f.linesAfter lines n) →
      ∃ m later, n < m ∧ f.sortedKeys[m]? = some later ∧ f.Gives later other (f.linesAfter lines m)

/-- What holds after some turns and not in the end has a turn that ends it for good. -/
theorem exists_last {P : List Text → Prop} (inside : i ≤ f.sortedKeys.length)
    (start : P (f.linesAfter lines i)) (ended : ¬ P (f.compute lines).1) :
    ∃ n key, i ≤ n ∧ f.sortedKeys[n]? = some key ∧ P (f.linesAfter lines n) ∧
      (∃ turn, f.Turn key (f.linesAfter lines n) turn ∧ ¬ P turn.1) ∧
        ∀ m, n < m → m ≤ f.sortedKeys.length → ¬ P (f.linesAfter lines m) := by
  classical
  let Q n := P (f.linesAfter lines n)
  have held := Nat.findGreatest_spec (P := Q) inside start
  have beyond := Nat.le_findGreatest (P := Q) inside start
  have lost := fun m => Nat.findGreatest_is_greatest (P := Q) (k := m) (n := f.sortedKeys.length)
  rw [← linesAfter_end] at ended
  have short := (Nat.findGreatest_le f.sortedKeys.length).lt_of_ne fun last => ended (last ▸ held)
  have next := List.getElem?_eq_getElem short
  exact ⟨_, _, beyond, next, held,
    (turn_iff (¬ P ·) lines next).mpr (lost _ (Nat.lt_succ_self _) short), lost⟩

theorem Steady.holds {i : Nat} (steady : f.Steady lines) (own : f.sortedKeys[i]? = some other)
    (recognised : f.Recognised other) : f.Holds other (f.compute lines).1 := by
  obtain ⟨turn, step, after⟩ := linesAfter_succ lines own
  have start : f.Holds other (f.linesAfter lines (i + 1)) := after ▸ step.holds recognised
  by_contra ended
  obtain ⟨last, key, beyond, next, held, taken, lost⟩ :=
    exists_last (List.getElem?_eq_some_iff.mp own).1 start ended
  have member : other ∈ f.sortedKeys.take last :=
    List.mem_of_getElem? ((List.getElem?_take_of_lt beyond).trans own)
  obtain ⟨m, later, behind, own, -, back⟩ := steady last key other next member ⟨held, taken⟩
  have bounded := (List.getElem?_eq_some_iff.mp own).1
  exact lost (m + 1) (by omega) bounded ((turn_iff _ lines own).mp back)

/-- A turn rewrites other lines to these, and every later key has its first line there as
it is written. -/
def Undone (f : FileKeyValue) (lines : List Text) : Prop :=
  ∃ n key, f.sortedKeys[n]? = some key ∧ f.Turn key (f.linesAfter lines n) (lines, true) ∧
    ∀ later ∈ f.sortedKeys.drop (n + 1), f.Holds later lines

end

/-- The lines that the state works on, and whether a newline is to end them. -/
def linesOf (content : Option Text) : List Text × Bool :=
  (content.map fsxSplitLines).getD ([], true)

theorem lined (f : FileKeyValue) : f.edit.Lined f.compute := by
  constructor <;> intro data <;>
    cases changed : (f.compute (fsxSplitLines data).1).2 <;> simp [edit, plan, assess, changed]

theorem assess_unchanged_iff :
    (f.edit.assess (some text)).needsChange = false ↔
    ∀ key ∈ f.sortedKeys, f.Holds key (fsxSplitLines text).1 := by
  rw [← run_unchanged_iff, f.lined.assess, compute]

/-- The first line of each key is as it is written, and the lines that set no key stand where they
stood. -/
def Placed (f : FileKeyValue) (content : Option Text) (text : Text) : Prop :=
  (∀ key ∈ f.sortedKeys, ∃ leading, leading.all isPerlSpace = true ∧
    (fsxSplitLines text).1.find? (f.sets key) =
      some (leading ++ key ++ f.separator ++ f.value key)) ∧
  ∀ (i : Nat) (l : Text), (linesOf content).1[i]? = some l →
    (∀ key ∈ f.sortedKeys, f.sets key l = false) → (fsxSplitLines text).1[i]? = some l

/-- Every successful `Apply` places the lines, and a following `Check` reports no change. -/
def Settles (f : FileKeyValue) (disk : Disk Text) : Prop :=
  f.edit.Converges disk ∧ ∀ memo result memo' disk', (f.edit.apply memo).Runs disk
    (.ok result, memo') disk' → ∃ text, disk' f.path = some text ∧ f.Placed (disk f.path) text

end FileKeyValue

end Zester.Modules.File
