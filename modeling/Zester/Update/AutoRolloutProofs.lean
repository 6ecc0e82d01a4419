import Zester.Text
import Zester.Update.AutoRollout

/-! Where the order of versions is one. Segments are compared as numbers or as texts, and the two
orders do not fit together if a text stands between numbers. -/
namespace Zester.Update
open List
open Jobs (atoi)

/-- No segment that is not a number stands, as a text, between two numbers that are in the other
order as texts. -/
def Separated (scheme : String → Prop) : Prop :=
  ∀ x y z, scheme x → scheme y → scheme z → '.' ∉ z.toList →
    ∀ n m, atoi x = some n → atoi y = some m → atoi z = none → n ≤ m → ¬ (y < z ∧ z < x)

theorem compareSegment_numbers (hx : atoi x = some n) (hy : atoi y = some m) :
    (compareSegment x y = -compareSegment y x) ∧ (compareSegment x y ≤ 0 ↔ n ≤ m) := by
  simp only [compareSegment, hx, hy]
  split <;> split <;> try split
  all_goals omega

theorem compareSegment_texts (mixed : atoi x = none ∨ atoi y = none) :
    (compareSegment x y = -compareSegment y x) ∧ (compareSegment x y ≤ 0 ↔ x ≤ y) := by
  have shape : ∀ {x y : String}, atoi x = none ∨ atoi y = none →
      compareSegment x y = if x ≠ y then (if x < y then -1 else 1) else 0 := by
    intro x y mixed
    unfold compareSegment
    split
    · simp_all
    · rfl
  rw [shape mixed, shape mixed.symm]
  obtain less | rfl | more := lt_trichotomy x y
  · simp [less, less.ne, less.ne', less.le, less.not_gt]
  · simp
  · simp [more, more.ne, more.ne', more.not_ge, more.not_gt]

theorem compareSegment_swap (x y : String) : compareSegment x y = -compareSegment y x := by
  cases hx : atoi x with
  | none => exact (compareSegment_texts (.inl hx)).1
  | some n =>
    cases hy : atoi y with
    | none => exact (compareSegment_texts (.inr hy)).1
    | some m => exact (compareSegment_numbers hx hy).1

/-- The segments that can occur, and what stands for one that is missing. -/
def Occurs (scheme : String → Prop) (s : String) : Prop := s = "" ∨ scheme s ∧ '.' ∉ s.toList

theorem Occurs.of_number (occurs : Occurs scheme x) (number : atoi x = some n) :
    scheme x := by
  obtain rfl | ⟨within, -⟩ := occurs
  · cases number
  · exact within

theorem Separated.between (separated : Separated scheme) (ox : Occurs scheme x)
    (oy : Occurs scheme y) (oz : Occurs scheme z) (hx : atoi x = some n) (hy : atoi y = some m)
    (hz : atoi z = none) (below : y ≤ z) (above : z ≤ x) : m < n := by
  by_contra least
  have apart : ∀ {s : String} {k : Int}, atoi s = some k → s ≠ z := by
    rintro s k number rfl
    cases number.symm.trans hz
  have less : y < z := lt_of_le_of_ne below (apart hy)
  have more : z < x := lt_of_le_of_ne above (apart hx).symm
  obtain rfl | ⟨within, dotless⟩ := oz
  · exact not_lt_nil _ (String.lt_iff_toList_lt.mp less)
  · exact separated x y z (ox.of_number hx) (oy.of_number hy) within dotless n m hx hy hz
      (not_lt.mp least) ⟨less, more⟩

theorem Separated.orders (separated : Separated scheme) :
    Orders compareSegment (Occurs scheme) := by
  refine ⟨fun _ _ => compareSegment_swap _ _, ?_⟩
  intro x y z ox oy oz first second
  -- two segments of three are numbers and the third is not: only then the orders meet
  cases hx : atoi x with
  | none =>
    have below := (compareSegment_texts (.inl hx)).2.mp first
    rw [(compareSegment_texts (.inl hx)).2]
    cases hy : atoi y with
    | none => exact below.trans ((compareSegment_texts (.inl hy)).2.mp second)
    | some m =>
      cases hz : atoi z with
      | none => exact below.trans ((compareSegment_texts (.inr hz)).2.mp second)
      | some k =>
        have least := (compareSegment_numbers hy hz).2.mp second
        by_contra more
        have less := separated.between oy oz ox hy hz hx (le_of_not_ge more) below
        omega
  | some n =>
    cases hy : atoi y with
    | none =>
      have below := (compareSegment_texts (.inr hy)).2.mp first
      have above := (compareSegment_texts (.inl hy)).2.mp second
      cases hz : atoi z with
      | none => exact (compareSegment_texts (.inr hz)).2.mpr (below.trans above)
      | some k =>
        rw [(compareSegment_numbers hx hz).2]
        exact (separated.between oz ox oy hz hx hy below above).le
    | some m =>
      have least := (compareSegment_numbers hx hy).2.mp first
      cases hz : atoi z with
      | none =>
        have below := (compareSegment_texts (.inr hz)).2.mp second
        rw [(compareSegment_texts (.inr hz)).2]
        by_contra more
        have less := separated.between ox oy oz hx hy hz below (le_of_not_ge more)
        omega
      | some k =>
        rw [(compareSegment_numbers hx hz).2]
        exact least.trans ((compareSegment_numbers hy hz).2.mp second)

/-- All segments of the version are of the scheme. -/
def Of (scheme : String → Prop) (version : String) : Prop := ∀ s ∈ segments version, scheme s

theorem Of.occurs (of : Of scheme version) : ∀ s ∈ segments version, Occurs scheme s := by
  intro s member
  refine .inr ⟨of s member, ?_⟩
  obtain ⟨part, within, rfl⟩ := mem_map.mp member
  simpa using not_mem_of_mem_splitOn within

theorem compareVersions_eq (ha : (segments a).length ≤ n) (hb : (segments b).length ≤ n) :
    compareVersions a b = lexicographic compareSegment "" n (segments a) (segments b) := by
  have least : max (segments a).length (segments b).length ≤ n := max_le ha hb
  obtain ⟨more, rfl⟩ := Nat.exists_eq_add_of_le least
  exact (lexicographic_add (by decide) _ more (le_max_left _ _) (le_max_right _ _)).symm

theorem Separated.versions (separated : Separated scheme) : Orders compareVersions (Of scheme) := by
  have orders := separated.orders.lex (.inl rfl)
  constructor
  · intro a b ha hb
    rw [compareVersions_eq (le_max_left _ (segments b).length) (le_max_right (segments a).length _),
      compareVersions_eq (le_max_right (segments a).length _) (le_max_left _ (segments b).length)]
    exact (orders _).swap ha.occurs hb.occurs
  · intro a b c ha hb hc
    have la : (segments a).length ≤ (segments a).length + (segments b).length +
        (segments c).length := by
      omega
    have lb : (segments b).length ≤ (segments a).length + (segments b).length +
        (segments c).length := by
      omega
    have lc : (segments c).length ≤ (segments a).length + (segments b).length +
        (segments c).length := by
      omega
    rw [compareVersions_eq la lb, compareVersions_eq lb lc, compareVersions_eq la lc]
    exact (orders _).trans ha.occurs hb.occurs hc.occurs

def single (s : String) : String := String.ofList ('v' :: s.toList)

theorem segments_single (dotless : '.' ∉ s.toList) : segments (single s) = [s] := by
  simp [segments, single, splitOn_eq_singleton dotless]

theorem compareVersions_single (hx : '.' ∉ x.toList) (hy : '.' ∉ y.toList) :
    compareVersions (single x) (single y) = compareSegment x y := by
  simp only [compareVersions, segments_single hx, segments_single hy]
  simp [lexicographic, eq_comm]

theorem of_single (within : scheme s) (dotless : '.' ∉ s.toList) : Of scheme (single s) := by
  intro t member
  rw [segments_single dotless] at member
  exact mem_singleton.mp member ▸ within

theorem dotless_of_number (number : atoi x = some n) : '.' ∉ x.toList := by
  have read : ∀ {digits : List Char} {rest : Option Int},
      (if digits = [] ∨ digits.all Char.isDigit = false then none else rest) = some n →
        '.' ∉ digits := by
    intro digits rest number member
    split at number
    · cases number
    · rename_i good
      have all := Bool.of_not_eq_false (not_or.mp good).2
      cases all_eq_true.mp all '.' member
  unfold atoi at number
  dsimp only at number
  split at number
  · rename_i text
    simpa [text] using read number
  · rename_i text
    simpa [text] using read number
  · exact read number

/-- Versions of one segment show whether the scheme is separated. -/
theorem separated_of_trans (trans : ∀ a b c, Of scheme a → Of scheme b → Of scheme c →
      compareVersions a b ≤ 0 → compareVersions b c ≤ 0 → compareVersions a c ≤ 0) :
    Separated scheme := by
  intro x y z wx wy wz dz n m hx hy hz least between
  have dx := dotless_of_number hx
  have dy := dotless_of_number hy
  have above := trans (single x) (single y) (single z) (of_single wx dx) (of_single wy dy)
    (of_single wz dz)
  rw [compareVersions_single dx dy, compareVersions_single dy dz, compareVersions_single dx dz,
    (compareSegment_numbers hx hy).2, (compareSegment_texts (.inr hz)).2,
    (compareSegment_texts (.inr hz)).2] at above
  exact not_le_of_gt between.2 (above least between.1.le)

def candidates (component : String) (manifests : List (Option Manifest)) : List Manifest :=
  manifests.filterMap fun m => m.filter fun m => m.promoted && m.component = component

def newer (m t : Manifest) : Int := compareVersions m.version t.version

theorem candidates_cons (m : Manifest) : candidates component (some m :: manifests) =
    if m.promoted = true ∧ m.component = component then m :: candidates component manifests
    else candidates component manifests := by
  by_cases counts : m.promoted = true ∧ m.component = component <;>
    simp [candidates, Option.filter, counts]

theorem considerManifest_some (target : Option Manifest) (m : Manifest) :
    considerManifest component target (some m) =
      if m.promoted = true ∧ m.component = component then greater newer target m else target := by
  by_cases counts : m.promoted = true ∧ m.component = component
  · cases target <;> simp [considerManifest, counts, greater, newer]
  · simp [considerManifest, counts, or_iff_not_imp_left]

theorem pickTarget_eq_greatest (component : String) (manifests : List (Option Manifest)) :
    pickTarget component manifests = greatest newer (candidates component manifests) := by
  have loop : ∀ target, manifests.foldl (considerManifest component) target =
      (candidates component manifests).foldl (greater newer) target := by
    induction manifests with
    | nil => exact fun _ => rfl
    | cons m manifests ih =>
      intro target
      rw [foldl_cons, ih]
      cases m with
      | none => rfl
      | some m =>
        rw [considerManifest_some, candidates_cons]
        split <;> rfl
  exact loop none

theorem pickAutoRollout_target
    (picked : pickAutoRollout component manifests statuses rollouts = some plan) :
    ∃ target, pickTarget component manifests = some target ∧ plan.version = target.version := by
  obtain ⟨target, found, rest⟩ := Option.bind_eq_some_iff.mp picked
  obtain ⟨generation, -, rest⟩ := Option.bind_eq_some_iff.mp rest
  refine ⟨target, found, ?_⟩
  dsimp only at rest
  split at rest
  · cases rest
  · cases rest
    rfl

/-- The versions of a scheme are in a total preorder and the greatest promoted one is rolled out
if and only if the scheme is separated. -/
theorem version_order_iff (scheme : String → Prop) :
    ((∀ a b, Of scheme a → Of scheme b → compareVersions a b = -compareVersions b a) ∧
      (∀ a b c, Of scheme a → Of scheme b → Of scheme c → compareVersions a b ≤ 0 →
        compareVersions b c ≤ 0 → compareVersions a c ≤ 0) ∧
      ∀ component manifests statuses rollouts plan,
        (∀ m ∈ candidates component manifests, Of scheme m.version) →
        pickAutoRollout component manifests statuses rollouts = some plan →
        (∃ m ∈ candidates component manifests, m.version = plan.version) ∧
        (∀ m ∈ candidates component manifests, compareVersions m.version plan.version ≤ 0) ∧
        ∀ manifests' plan', manifests.Perm manifests' →
          pickAutoRollout component manifests' statuses rollouts = some plan' →
          compareVersions plan.version plan'.version = 0) ↔
    Separated scheme := by
  constructor
  · rintro ⟨-, transitive, -⟩
    exact separated_of_trans transitive
  · intro separated
    have orders := separated.versions
    refine ⟨fun a b => orders.swap, fun a b c => orders.trans, ?_⟩
    intro component manifests statuses rollouts plan all picked
    have manifestOrders : Orders newer fun m => Of scheme m.version :=
      ⟨orders.swap, orders.trans⟩
    obtain ⟨target, found, version⟩ := pickAutoRollout_target picked
    rw [pickTarget_eq_greatest] at found
    obtain ⟨member, most⟩ := greatest_spec manifestOrders all found
    rw [version]
    refine ⟨⟨target, member, rfl⟩, most, ?_⟩
    intro manifests' plan' same picked'
    obtain ⟨target', found', version'⟩ := pickAutoRollout_target picked'
    rw [pickTarget_eq_greatest] at found'
    rw [version']
    exact greatest_tie manifestOrders all (fun m => (same.filterMap _).mem_iff) found found'

def promoted (version : String) : Option Manifest := some ⟨version, "peel", true⟩

/-- Three versions in a circle: which of them is rolled out depends on the order of the list, and
a node that has the newest one is taken back to a release candidate. -/
theorem versions_in_a_circle :
    compareVersions "0.5.9" "0.5.10" = -1 ∧ compareVersions "0.5.10" "0.5.5-rc1" = -1 ∧
    compareVersions "0.5.5-rc1" "0.5.9" = -1 ∧
    pickAutoRollout "peel" [promoted "0.5.9", promoted "0.5.10", promoted "0.5.5-rc1"]
      [some ⟨"web1", "0.5.10", false⟩, some ⟨"web2", "0.5.1", false⟩] [] =
        some ⟨"peel", "0.5.5-rc1", 1, ["web1", "web2"]⟩ ∧
    pickAutoRollout "peel" [promoted "0.5.5-rc1", promoted "0.5.10", promoted "0.5.9"]
      [some ⟨"web1", "0.5.10", false⟩, some ⟨"web2", "0.5.1", false⟩] [] =
        some ⟨"peel", "0.5.9", 1, ["web2"]⟩ := by
  decide

end Zester.Update
