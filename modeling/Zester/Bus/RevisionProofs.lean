import Zester.Bus.Revision
import Zester.Lib.Contract

/-! What publishers that have a bucket to themselves share: the bump of the revision, and
the gate that looks for a publish that was completed. -/
namespace Zester.Bus
open Discipline.Around (alone)

/-- The named keys still hold what they held. -/
def Unmoved (named : String → Prop) (b b' : Bucket String String) : Prop :=
  ∀ key, named key → b'.get key = b.get key

theorem Unmoved.refl (named : String → Prop) (b : Bucket String String) : Unmoved named b b :=
  fun _ _ => rfl

theorem Unmoved.trans (first : Unmoved named b b') (second : Unmoved named b' b'') :
    Unmoved named b b'' :=
  fun key here => (second key here).trans (first key here)

theorem Unmoved.write (b : Bucket String String) (key : String) (value : Option String) :
    Unmoved (· ≠ key) b (b.write key value) :=
  fun _ elsewhere => Bucket.get_write_ne elsewhere

theorem Unmoved.mono (unmoved : Unmoved named b b') (fewer : ∀ key, named' key → named key) :
    Unmoved named' b b' :=
  fun key here => unmoved key (fewer key here)

variable [Subsingleton ι] {d : Discipline ι String String}

/-- A program that writes some of the keys only leaves the others alone. -/
theorem unmoved_of_uses {touched : String → Prop}
    (writes : p.Uses fun op => ∀ message ∈ op.message?, touched message.key)
    (keeps : ∀ b key value, touched key → d.inv b → d.guar i b (b.write key value) ∧
      d.inv (b.write key value))
    (inv : d.inv b) : d.Ensures i (fun b' _ => Unmoved (¬ touched ·) b b') b p := by
  induction p generalizing b with
  | done result => exact alone (Unmoved.refl _ b)
  | call op next ih =>
    refine alone fun _ reply b' yields => ?_
    obtain rfl | ⟨message, own, rfl⟩ := yields.written
    · exact ⟨.inl rfl, ih reply (writes.2 reply) inv⟩
    · have here := writes.1 message own
      have kept := keeps b message.key message.value here inv
      refine ⟨.inr kept, (ih reply (writes.2 reply) kept.2).weaken fun b' _ _ same => ?_⟩
      exact ((Unmoved.write b _ _).mono fun key out own => out (own ▸ here)).trans same

theorem bumpAttempts_writes (describe : Refusal → String) (attempts : Nat) (lastErr : String) :
    (bumpAttempts describe attempts lastErr).Uses fun op =>
    ∀ message ∈ op.message?, message.key = keyRevision := by
  induction attempts generalizing lastErr with
  | zero => trivial
  | succ attempts ih =>
    refine ⟨by simp [Op.message?], fun reply => ?_⟩
    obtain (_ | _ | _ | _ | _) | entry := reply
    case error.notFound | ok =>
      refine ⟨by simp [Op.message?], fun reply => ?_⟩
      cases reply with
      | ok _ => trivial
      | error refused => exact ih _
    all_goals trivial

theorem bumpRevision_unmoved (keeps : ∀ b value, d.inv b → d.guar i b (b.write keyRevision value) ∧
      d.inv (b.write keyRevision value)) (inv : d.inv b) :
    d.Ensures i (fun b' _ => Unmoved (· ≠ keyRevision) b b') b (bumpRevision describe) :=
  unmoved_of_uses (bumpAttempts_writes ..) (fun b _ value here => here ▸ keeps b value) inv

/-- The stored manifest is the given one, a bump landed after it and all keys exist. -/
def completedGate (manifestKey encoded : String) (keys : List String) : BusM Bool := do
  match ← Program.get manifestKey with
  | .error _ => return false
  | .ok cur =>
    if cur.value = encoded then
      match ← Program.get keyRevision with
      | .error _ => return false
      | .ok revEntry =>
        if revEntry.revision ≤ cur.revision then return false
        else
          match ← Program.keys with
          | .error _ => return false
          | .ok present => return keys.all fun key => present.contains key
    else return false

def Completed (manifestKey encoded : String) (keys : List String)
    (b : Bucket String String) : Prop :=
  ∃ stored bump, b.get manifestKey = some stored ∧ stored.value = encoded ∧
    b.get keyRevision = some bump ∧ stored.revision < bump.revision ∧
    ∀ key ∈ keys, (b.get key).isSome

theorem completedGate_spec (manifestKey encoded : String) (keys : List String)
    (reads : ∀ {ρ : Type} (op : Op String String ρ), op.isWrite = false → ¬ d.regime.fails op) :
    d.Ensures i (fun b' result => b' = b ∧ (result = true ↔ Completed manifestKey encoded keys b)) b
      (completedGate manifestKey encoded keys) := by
  have closed : ¬ Completed manifestKey encoded keys b → d.Ensures i
      (fun b' result => b' = b ∧ (result = true ↔ Completed manifestKey encoded keys b)) b
      (return false) := fun changed =>
    alone ⟨rfl, by simpa using changed⟩
  refine .get (alone fun stored held => ?_)
    (alone fun free => closed ?_)
    (alone fun fails => absurd fails (reads _ rfl))
  · by_cases same : stored.value = encoded
    · simp only [same, if_true]
      refine .get (alone fun bump bumped => ?_) (alone fun unbumped => closed ?_)
        (alone fun fails => absurd fails (reads _ rfl))
      · by_cases older : bump.revision ≤ stored.revision
        · simp only [older, if_true]
          refine closed ?_
          rintro ⟨stored', bump', held', -, bumped', newer, -⟩
          cases held.symm.trans held'
          cases bumped.symm.trans bumped'
          omega
        · simp only [older, if_false]
          refine .keys (alone fun _ => alone ⟨rfl, ?_⟩) (alone fun empty => ?_)
            (alone fun fails => absurd fails (reads _ rfl))
          · simp only [List.all_eq_true, List.contains_eq_mem, decide_eq_true_eq, Bucket.mem_keys]
            constructor
            · exact fun present => ⟨stored, bump, held, same, bumped, by omega, present⟩
            · rintro ⟨-, -, -, -, -, -, present⟩
              exact present
          · have member : keyRevision ∈ b.keys := by simp [bumped]
            rw [empty] at member
            simp at member
      · rintro ⟨-, bump, -, -, bumped, -⟩
        cases unbumped.symm.trans bumped
    · simp only [same, if_false]
      refine closed ?_
      rintro ⟨stored', -, held', same', -⟩
      cases held.symm.trans held'
      exact same same'
  · rintro ⟨stored, -, held, -⟩
    cases free.symm.trans held

end Zester.Bus
