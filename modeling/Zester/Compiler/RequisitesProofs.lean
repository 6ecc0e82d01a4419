import Zester.Compiler.RewriteProofs

/-! Inverse requisites against forward ones. Injection writes into the first map
that has the key and flattening reads the last one, so the two agree where a
state has the key in one map at most. -/
namespace Zester.Compiler
open States List AList

variable {it : Ranging}

/-- What steps 1 and 2 add to the state `b`: its own `listen` as `watch`, and
every state with the matching inverse declaration on `b`. -/
def Inverted (states : MergedStates) (b : StateKey) (key ref : String) : Prop :=
  (key = "watch" ∧ DeclaredRef (states.args b) "listen" ref) ∨
  ∃ a ∈ states, ref = a.ref ∧
    ∃ entry ∈ inverseForward, entry.2 = key ∧ DeclaredRef (states.args a) entry.1 b.ref

/-- What step 3 adds: under `require` every state with a prereq on `b`, be it
declared there or by a `prereq_in` of `b`. -/
def Ordered (states : MergedStates) (b : StateKey) (key ref : String) : Prop :=
  key = "require" ∧ ∃ a ∈ states, ref = a.ref ∧
    (DeclaredRef (states.args a) "prereq" b.ref ∨ DeclaredRef (states.args b) "prereq_in" a.ref)

/-- All references that the declarations of the whole set ask for under `key` of
the state `b`. -/
def Expects (states : MergedStates) (b : StateKey) (key ref : String) : Prop :=
  DeclaredRef (states.args b) key ref ∨ Inverted states b key ref ∨ Ordered states b key ref

def Carries (out : MergedStates) (b : StateKey) (key ref : String) : Prop :=
  ref ∈ parseReqEntries ((flattenArgsList (out.args b)).read key)

/-- Every requisite and inverse target names a declared state, by a colon-free
module and id. A state with a `prereq_in` is the target of the prereq that this
declares. -/
structure WellNamed (states : MergedStates) : Prop where
  targets : ∀ a ∈ states, ∀ key ∈ forwardKeys ++ "listen" :: inverseKeys, ∀ ref,
    DeclaredRef (states.args a) key ref → Named states ref
  sources : ∀ a ∈ states, ∀ ref, DeclaredRef (states.args a) "prereq_in" ref → a.ColonFree

theorem inverted_prereq :
    Inverted states a "prereq" ref ↔ ∃ b ∈ states, ref = b.ref ∧
      DeclaredRef (states.args b) "prereq_in" a.ref := by
  simp [Inverted, inverseForward_eq]

/-- The states stay the declared ones, and each reference is injected on exactly the declared state
that its target names. -/
def Attaches (it : Ranging) (states : MergedStates) : Prop :=
  ∃ out, transformRequisites it states = .ok out ∧
    Injected (fun b key ref => b ∈ states ∧ (Inverted states b key ref ∨ Ordered states b key ref))
      states out

/-- Every inverse requisite and prereq names a declared state. -/
def Targeted (states : MergedStates) : Prop :=
  ∀ a ∈ states, ∀ key ∈ "prereq" :: inverseKeys, ∀ ref, DeclaredRef (states.args a) key ref →
    ∃ b ∈ states, ref = b.ref

/-- The ids of all targets are free of colons, those of the states included that a `prereq_in` makes
targets. -/
structure PlainTargets (states : MergedStates) : Prop where
  targets : ∀ a ∈ states, ∀ key ∈ "prereq" :: inverseKeys, ∀ b ∈ states,
    DeclaredRef (states.args a) key b.ref → ':' ∉ b.id.toList
  sources : ∀ a ∈ states, ∀ ref, DeclaredRef (states.args a) "prereq_in" ref → ':' ∉ a.id.toList

theorem Targeted.cut (targeted : Targeted states) : Cut states := by
  intro a member key listed target declared
  obtain ⟨b, -, rfl⟩ := targeted a member key listed target declared
  exact splitRef_ref_exists b

section
variable (targeted : Targeted states) (plain : PlainTargets states)
include targeted plain

theorem Targeted.split_iff (member : a ∈ states) (listed : key ∈ "prereq" :: inverseKeys)
    (declared : DeclaredRef (states.args a) key target) :
    splitRef target = .ok b ↔ b ∈ states ∧ target = b.ref := by
  obtain ⟨c, known, rfl⟩ := targeted a member key listed target declared
  have cut := splitRef_ref (plain.targets a member key listed c known declared)
  rw [cut]
  constructor
  · intro same
    cases same
    exact ⟨known, rfl⟩
  · rintro ⟨inside, same⟩
    rw [same, splitRef_ref (plain.targets a member key listed b inside (same ▸ declared))] at cut
    exact cut.symm

theorem Targeted.inverted_iff :
    InvertedOnto states b key ref ↔ b ∈ states ∧ Inverted states b key ref := by
  constructor
  · rintro (⟨rfl, declared⟩ | ⟨a, member, rfl, entry, inverse, rfl, target, declared, split⟩)
    · exact ⟨declared_mem declared, .inl ⟨rfl, declared⟩⟩
    · have listed : entry.1 ∈ "prereq" :: inverseKeys := mem_cons_of_mem _ (mem_map_of_mem inverse)
      obtain ⟨known, rfl⟩ := (targeted.split_iff plain member listed declared).mp split
      exact ⟨known, .inr ⟨a, member, rfl, entry, inverse, rfl, declared⟩⟩
  · rintro ⟨known, ⟨rfl, declared⟩ | ⟨a, member, rfl, entry, inverse, rfl, declared⟩⟩
    · exact .inl ⟨rfl, declared⟩
    · have listed : entry.1 ∈ "prereq" :: inverseKeys := mem_cons_of_mem _ (mem_map_of_mem inverse)
      exact .inr ⟨a, member, rfl, entry, inverse, rfl, b.ref, declared,
        (targeted.split_iff plain member listed declared).mpr ⟨known, rfl⟩⟩

theorem Targeted.ordered_iff :
    OrderedOnto states b key ref ↔ b ∈ states ∧ Ordered states b key ref := by
  constructor
  · rintro ⟨rfl, a, rfl, target, declared | inverse, split⟩
    · have member := declared_mem declared
      obtain ⟨known, rfl⟩ := (targeted.split_iff plain member mem_cons_self declared).mp split
      exact ⟨known, rfl, a, member, rfl, .inl declared⟩
    · obtain ⟨member, inverted⟩ := (targeted.inverted_iff plain).mp inverse
      obtain ⟨c, known, rfl, declared⟩ := inverted_prereq.mp inverted
      rw [splitRef_ref (plain.sources c known _ declared)] at split
      cases split
      exact ⟨known, rfl, a, member, rfl, .inr declared⟩
  · rintro ⟨known, rfl, a, member, rfl, declared | declared⟩
    · exact ⟨rfl, a, rfl, b.ref, .inl declared,
        (targeted.split_iff plain member mem_cons_self declared).mpr ⟨known, rfl⟩⟩
    · have inverted := inverted_prereq.mpr ⟨b, known, rfl, declared⟩
      exact ⟨rfl, a, rfl, b.ref, .inr ((targeted.inverted_iff plain).mpr ⟨member, inverted⟩),
        splitRef_ref (plain.sources b known _ declared)⟩

theorem attaches_of_plain : Attaches it states := by
  obtain ⟨out, done, rewritten⟩ := @transformRequisites_rewrites it states targeted.cut
  refine ⟨out, done, (rewritten.congr fun b key _ ref => ?_).injected
    fun b key _ ref added => added.1⟩
  rw [targeted.inverted_iff plain, targeted.ordered_iff plain, and_or_left]

end

theorem WellNamed.attaches (wellNamed : WellNamed states) : Attaches it states := by
  have requisite : ∀ {key}, key ∈ "prereq" :: inverseKeys →
      key ∈ forwardKeys ++ "listen" :: inverseKeys := by decide +revert
  refine attaches_of_plain (fun a member key listed ref declared => ?_)
    ⟨fun a member key listed b _ declared => ?_, ?_⟩
  · obtain ⟨b, known, -, same⟩ := wellNamed.targets a member key (requisite listed) ref declared
    exact ⟨b, known, same⟩
  · obtain ⟨c, -, plain, same⟩ := wellNamed.targets a member key (requisite listed) b.ref declared
    rw [eq_of_ref_eq plain same]
    exact plain.2
  · exact fun a member ref declared => (wellNamed.sources a member ref declared).2

theorem carries_iff_last :
    Carries states k key ref ↔ ref ∈ ((sheets (states.args k) key).getLast?).getD [] := by
  rw [Carries, Config.read, flattenArgsList_lookup, sheets, getLast?_map]
  cases (settings (states.args k) key).getLast? <;> simp [parseReqEntries]

/-- After the rewriting and the flattening a state carries under a key what all
declarations ask for, exactly when it has the key in one argument map at most or
the last map that has the key names all of it already. -/
theorem inverse_forward_iff (it : Ranging) (states : MergedStates) (wellNamed : WellNamed states) :
    ∃ out, transformRequisites it states = .ok out ∧ ∀ b ∈ states, ∀ key ∈ forwardKeys,
      ((∀ ref, Carries out b key ref ↔ Expects states b key ref) ↔
        (settings (states.args b) key).length ≤ 1 ∨
          ∀ ref, Expects states b key ref → Carries states b key ref) := by
  obtain ⟨out, done, injected⟩ := @WellNamed.attaches it states wellNamed
  refine ⟨out, done, fun b known key forward => ?_⟩
  have grown := injected.grown b key forward
  have length : (sheets (states.args b) key).length = (settings (states.args b) key).length :=
    length_map _
  rw [← length]
  by_cases single : (sheets (states.args b) key).length ≤ 1
  · refine iff_of_true (fun ref => ?_) (.inl single)
    rw [carries_iff_last, grown.last_of_single single, mem_sheets, Expects, and_iff_right known]
  have carried : ∀ ref, Carries out b key ref ↔ Carries states b key ref := by
    intro ref
    rw [carries_iff_last, carries_iff_last, grown.last_of_several single]
  simp only [single, false_or, carried]
  refine ⟨fun same ref => (same ref).mpr, fun all ref => ⟨fun carries => .inl ?_, all ref⟩⟩
  -- the last map is one of those that declare the key
  rw [carries_iff_last] at carries
  cases last : (sheets (states.args b) key).getLast? with
  | none => simp [last] at carries
  | some refs =>
    rw [last] at carries
    exact mem_sheets.mp ⟨refs, mem_of_getLast? last, carries⟩

theorem wellNamed_of_keys
    (targets : ∀ a ∈ states.keys, ∀ key ∈ forwardKeys ++ "listen" :: inverseKeys,
      ∀ item ∈ states.args a, ∀ ref ∈ parseReqEntries (item.read key),
        ∃ b ∈ states.keys, b.ColonFree ∧ ref = b.ref)
    (sources : ∀ a ∈ states.keys, ∀ item ∈ states.args a,
      parseReqEntries (item.read "prereq_in") ≠ [] → a.ColonFree) : WellNamed states := by
  constructor
  · rintro a member key listed ref ⟨item, inside, named⟩
    obtain ⟨b, known, plain⟩ := targets a (mem_keys.mp member) key listed item inside ref named
    exact ⟨b, mem_keys.mpr known, plain⟩
  · rintro a member ref ⟨item, inside, named⟩
    exact sources a (mem_keys.mp member) item inside (ne_nil_of_mem named)

def twiceRequiring : MergedStates :=
  insert ⟨"nginx", "pkg.installed"⟩ [] <|
  insert ⟨"web", "service.running"⟩ [] <|
  insert ⟨"prepare", "cmd.run"⟩
    [.ofList [("require_in", .list [.map [("file", .str "app")]])]] <|
  insert ⟨"app", "file.managed"⟩
    [.ofList [("require", .list [.str "pkg.installed:nginx"])],
      .ofList [("require", .list [.str "service.running:web"])]] ∅

theorem twiceRequiring_wellNamed : WellNamed twiceRequiring :=
  wellNamed_of_keys (by decide) (by decide)

theorem inverse_forward_iff_twice : ∃ out, transformRequisites .listed twiceRequiring = .ok out ∧
      ∀ b ∈ twiceRequiring, ∀ key ∈ forwardKeys,
        ((∀ ref, Carries out b key ref ↔ Expects twiceRequiring b key ref) ↔
          (settings (twiceRequiring.args b) key).length ≤ 1 ∨
            ∀ ref, Expects twiceRequiring b key ref → Carries twiceRequiring b key ref) :=
  inverse_forward_iff .listed twiceRequiring twiceRequiring_wellNamed

/-- The injected reference goes to the first item and is lost with it. -/
theorem require_in_lost :
    WellNamed twiceRequiring ∧ ∃ out, transformRequisites .listed twiceRequiring = .ok out ∧
      ¬ ∀ b ∈ twiceRequiring, ∀ key ∈ forwardKeys, ∀ ref,
        Carries out b key ref ↔ Expects twiceRequiring b key ref := by
  refine ⟨twiceRequiring_wellNamed, _, rfl, fun same => ?_⟩
  have asked : Expects twiceRequiring ⟨"app", "file.managed"⟩ "require" "cmd.run:prepare" := by
    refine .inr (.inl (.inr ⟨⟨"prepare", "cmd.run"⟩,
      by decide, by decide, ("require_in", "require"),
      by decide, rfl, _, mem_singleton_self _, by decide⟩))
  have carried := (same _ (by decide) "require" (by decide) _).mpr asked
  unfold Carries at carried
  revert carried
  decide

theorem cut_mem (targeted : Targeted states) (done : transformRequisites it states = .ok out)
    (forward : key ∈ forwardKeys)
    (added : InvertedOnto states b key ref ∨ OrderedOnto states b key ref) : b ∈ out := by
  obtain ⟨made, again, rewritten⟩ := @transformRequisites_rewrites it states targeted.cut
  obtain rfl := Except.ok.inj (again.symm.trans done)
  exact (rewritten.keys b).mpr (.inr ⟨key, forward, ref, added⟩)

/-- The rewriting of declarations whose targets are all declared leaves the set of states unchanged
and attaches each reference to exactly the state that its target names, if and only if the ids of
the targets are free of colons. -/
theorem attaches_iff (it : Ranging) (states : MergedStates) (targeted : Targeted states)
    (distinct : ∀ b ∈ states, ∀ c ∈ states, b.ref = c.ref → b = c) :
    Attaches it states ↔ PlainTargets states := by
  constructor
  · rintro ⟨out, done, injected⟩
    -- the cut of a name with a colon in the id names no declared state
    have undeclared : ∀ {b k : StateKey}, b ∈ states → ':' ∈ b.id.toList → splitRef b.ref = .ok k →
        k ∉ out := by
      intro b k known colon split stays
      obtain ⟨same, free⟩ := splitRef_ok split
      rw [distinct k ((injected.keys k).mp stays) b known same] at free
      exact free colon
    have targets : ∀ a ∈ states, ∀ key ∈ "prereq" :: inverseKeys, ∀ b ∈ states,
        DeclaredRef (states.args a) key b.ref → ':' ∉ b.id.toList := by
      intro a member key listed b known declared colon
      obtain ⟨k, split⟩ := splitRef_ref_exists b
      refine undeclared known colon split ?_
      obtain rfl | inverse := mem_cons.mp listed
      · exact cut_mem targeted done (by decide : "require" ∈ forwardKeys)
          (.inr ⟨rfl, a, rfl, b.ref, .inl declared, split⟩)
      · obtain ⟨entry, inside, rfl⟩ := mem_map.mp inverse
        exact cut_mem targeted done (inverse_mem_forwardKeys entry inside)
          (.inl (.inr ⟨a, member, rfl, entry, inside, rfl, b.ref, declared, split⟩))
    refine ⟨targets, fun a member ref declared colon => ?_⟩
    obtain ⟨t, known, rfl⟩ := targeted a member "prereq_in" (by decide) ref declared
    have free := targets a member "prereq_in" (by decide) t known declared
    obtain ⟨k, split⟩ := splitRef_ref_exists a
    have inverted : InvertedOnto states t "prereq" a.ref :=
      invertedOnto_prereq.mpr ⟨a, member, rfl, t.ref, declared, splitRef_ref free⟩
    refine undeclared member colon split ?_
    exact cut_mem targeted done (by decide : "require" ∈ forwardKeys)
      (.inr ⟨rfl, t, rfl, a.ref, .inr inverted, split⟩)
  · exact fun plain => attaches_of_plain targeted plain

def requiredBy (path : String) : MergedStates :=
  insert ⟨"prepare", "cmd.run"⟩ [.ofList [("require_in", .list [.map [("file", .str path)]])]] <|
  insert ⟨path, "file.managed"⟩ [] ∅

theorem targeted_of_keys
    (targets : ∀ a ∈ states.keys, ∀ key ∈ "prereq" :: inverseKeys, ∀ item ∈ states.args a,
      ∀ ref ∈ parseReqEntries (item.read key), ∃ b ∈ states.keys, ref = b.ref) :
    Targeted states := by
  rintro a member key listed ref ⟨item, inside, named⟩
  obtain ⟨b, known, same⟩ := targets a (mem_keys.mp member) key listed item inside ref named
  exact ⟨b, mem_keys.mpr known, same⟩

theorem attaches_iff_plain :
    Attaches .listed (requiredBy "/etc/app.conf") ↔ PlainTargets (requiredBy "/etc/app.conf") :=
  attaches_iff .listed (requiredBy "/etc/app.conf") (targeted_of_keys (by decide)) (by decide)

/-- The reference to a file on a drive is cut behind the drive, and a state is made up for it. -/
theorem drive_state_invented :
    Targeted (requiredBy "C:/app.conf") ∧ ¬ Attaches .listed (requiredBy "C:/app.conf") := by
  refine ⟨targeted_of_keys (by decide), ?_⟩
  rintro ⟨out, done, injected⟩
  cases done
  exact absurd ((injected.keys ⟨"/app.conf", "file.managed:C"⟩).mp (by decide)) (by decide)

end Zester.Compiler
