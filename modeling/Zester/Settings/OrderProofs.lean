import Zester.Settings.SecretsProofs

/-! Secrets that are merged in another order. Two keys get in each other's way only if the parts of
one begin with those of the other: the value of the shorter key takes the place of the map that the
longer one needs. -/
namespace Zester.Settings
open Value List AList Option

variable {other : String}

/-- What shows in the map under a key, with a new map where there is none. -/
def nestedShown (shown : Path → Option Shape) (part : String) : Path → Option Shape :=
  match shown [.field part] with
  | some .map => fun path => shown (.field part :: path)
  | _ => (Value.map []).observe

/-- What shows after a value was set. -/
def setShown (shown : Path → Option Shape) : List String → Value → Path → Option Shape
  | [], _, path => shown path
  | part :: rest, val, .field key :: path =>
    if key = part then
      if rest = [] then val.observe path else setShown (nestedShown shown part) rest val path
    else shown (.field key :: path)
  | _ :: _, _, path => (Value.map []).observe path

theorem observe_nestedMap (entries : Entries) (part : String) :
    (Value.map (nestedMap entries part)).observe =
    nestedShown (Value.map entries).observe part := by
  funext path
  unfold nestedMap nestedShown
  cases held : entries.lookup part with
  | none => simp [held]
  | some v => cases v <;> simp [held, observe, shape]

theorem observe_setShown (entries : Entries) (parts : List String) (val : Value) :
    (Value.map (setNestedValue entries parts val)).observe =
    setShown (Value.map entries).observe parts val := by
  induction parts generalizing entries with
  | nil => rfl
  | cons part rest ih =>
    have set : setNestedValue entries (part :: rest) val = setEntry entries part
        (if rest = [] then val else .map (setNestedValue (nestedMap entries part) rest val)) := by
      cases rest <;> rfl
    funext path
    obtain _ | ⟨key | i, path⟩ := path
    · rfl
    · rw [set, observe_field, lookup_setEntry, setShown, ← observe_nestedMap, ← ih]
      split
      · split <;> rfl
      · rfl
    · rfl

theorem nestedShown_inside (nonempty : parts ≠ []) :
    nestedShown (setShown shown (part :: parts) val) part =
      setShown (nestedShown shown part) parts val := by
  obtain ⟨next, rest, rfl⟩ := exists_cons_of_ne_nil nonempty
  have map : setShown shown (part :: next :: rest) val [.field part] = some .map := by
    simp [setShown, observe, shape]
  rw [nestedShown, map]
  funext path
  simp [setShown]

theorem nestedShown_aside (different : part ≠ other) :
    nestedShown (setShown shown (other :: parts) val) part = nestedShown shown part := by
  simp only [nestedShown, setShown, if_neg different]

/-- Values that are set at places neither of which is above the other. -/
theorem setShown_comm (apart : ¬ parts <+: parts') (apart' : ¬ parts' <+: parts)
    (shown : Path → Option Shape) :
    setShown (setShown shown parts val) parts' val' =
      setShown (setShown shown parts' val') parts val := by
  induction parts generalizing parts' shown with
  | nil => exact absurd nil_prefix apart
  | cons part parts ih =>
    cases parts' with
    | nil => exact absurd nil_prefix apart'
    | cons other parts' =>
      funext path
      obtain _ | ⟨key | i, path⟩ := path
      · rfl
      · by_cases same : part = other
        · subst same
          have below : ¬ parts <+: parts' ∧ ¬ parts' <+: parts := by
            simpa using And.intro apart apart'
          have nonempty : parts ≠ [] := fun empty => below.1 (empty ▸ nil_prefix)
          have nonempty' : parts' ≠ [] := fun empty => below.2 (empty ▸ nil_prefix)
          simp only [setShown, nestedShown_inside, nonempty, nonempty', ne_eq, not_false_eq_true,
            if_false, ih below.1 below.2]
          split <;> rfl
        · simp only [setShown, nestedShown_aside same, nestedShown_aside (Ne.symm same)]
          by_cases here : key = part
          · simp [here, same]
          · simp [here]
      · rfl

theorem observe_beyond_scalar {v w : Value} (scalar : v.observe path = some (.scalar w))
    (step : Step) (rest : Path) : v.observe (path ++ step :: rest) = none := by
  induction path generalizing v with
  | nil => exact observe_below_scalar (by simpa [observe] using scalar) step rest
  | cons first path ih =>
    cases v <;> cases first <;> simp only [observe, reduceCtorEq, cons_append] at scalar ⊢
    all_goals
      obtain ⟨inner, held, scalar⟩ := bind_eq_some_iff.mp scalar
      rw [held]
      exact ih scalar

theorem splitDots_injective (same : splitDots key = splitDots key') : key = key' := by
  apply String.toList_injective
  rw [← intercalate_splitDots key, same, intercalate_splitDots]

/-- For every settings map and all secrets: every order in which they are merged gives the same
settings if and only if the parts of no key begin with those of another one. -/
theorem mergeSecrets_order_iff (settings : Entries) (secrets : Table String) :
    (∀ it it', (Value.map (mergeSecrets it settings secrets)).Same
      (.map (mergeSecrets it' settings secrets))) ↔
      ∀ key ∈ secrets, ∀ key' ∈ secrets, splitDots key <+: splitDots key' → key = key' := by
  constructor
  · intro same key member key' member' ⟨rest, whole⟩
    have last : ∀ key ∈ secrets, ∃ it text,
        (Value.map (mergeSecrets it settings secrets)).observe (fields (splitDots key)) =
            some (.scalar (.str text)) := by
      intro key member
      obtain ⟨text, held⟩ := isSome_iff_exists.mp (lookup_isSome.mpr member)
      obtain ⟨n, before, order⟩ := Ranging.rotated_last [0] (mem_lookup_iff.mp held)
      refine ⟨.rotated n, text, ?_⟩
      rw [mergeSecrets, order, foldl_append]
      exact observe_setNestedValue_same _ _ (splitDots_ne_nil key) _
    obtain ⟨it, text, shorter⟩ := last key member
    obtain ⟨it', text', longer⟩ := last key' member'
    rw [same it' it, ← whole] at longer
    cases rest with
    | nil => exact splitDots_injective (by simpa using whole)
    | cons part rest =>
      rw [fields, map_append, map_cons] at longer
      cases (observe_beyond_scalar shorter _ _).symm.trans longer
  · intro apart it it'
    have merged : ∀ it, (Value.map (mergeSecrets it settings secrets)).observe =
        (it.order [0] secrets.entries).foldl
          (fun shown secret => setShown shown (splitDots secret.1) (.str secret.2))
          (Value.map settings).observe :=
      fun it => (foldl_hom (fun entries => (Value.map entries).observe) fun entries _ =>
        (observe_setShown entries _ _).symm).symm
    refine fun path => congrFun ((merged it).trans (Eq.trans ?_ (merged it').symm)) path
    refine ((it.perm _ _).trans (it'.perm _ _).symm).foldl_eq'
      (fun secret member secret' member' shown => ?_) _
    have known : ∀ secret ∈ it.order [0] secrets.entries, secret.1 ∈ secrets := fun secret member =>
      lookup_isSome.mp (isSome_of_eq_some (mem_lookup_iff.mpr ((it.mem_order [0]).mp member)))
    by_cases equal : secret.1 = secret'.1
    · have text := mem_lookup_iff.mpr ((it.mem_order [0]).mp member)
      have text' := mem_lookup_iff.mpr ((it.mem_order [0]).mp member')
      rw [equal] at text
      rw [equal, some.inj (text.symm.trans text')]
    · exact setShown_comm (fun above => equal (apart _ (known _ member) _ (known _ member') above))
        (fun above => equal (apart _ (known _ member') _ (known _ member) above).symm) shown

/-- The secrets of a file with the keys `a` and `a.b`. -/
def nestedKeys : Table String :=
  secretsMap (sanitizeNodes ""
    (.mapping "" [(.scalar "" .plain "a", .scalar encryptedTag .plain "one"),
    (.scalar "" .plain "a.b", .scalar encryptedTag .plain "two")])).2

theorem merge_order_shows :
    ¬ (Value.map (mergeSecrets .listed [] nestedKeys)).Same
      (.map (mergeSecrets (.rotated 1) [] nestedKeys)) := by
  intro same
  have shown : some (Shape.scalar (.str "one")) = some .map := same [.field "a"]
  cases shown

end Zester.Settings
