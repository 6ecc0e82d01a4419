import Mathlib.Data.List.TakeWhile
import Zester.Bus.Revision
import Zester.Lib.Contract

/-! That concurrent bumps lose no increment, as long as the number fits its 64 bits. -/
namespace Zester.Bus
open Program (Uses Pivots Sure)

/-- The number that `getRevision` reads. -/
def number (b : Bucket String String) : Nat :=
  (b.get keyRevision).elim 0 fun entry => scanUint entry.value

/-- The operations are made while there is a next number. Any of them may fail, before or after it
took effect. -/
def countable : Regime String String := ⟨fun b _ => number b + 1 < 2 ^ 64, fun _ => True⟩

/-- The operation leaves the revision alone. -/
def Spares {ρ : Type} (op : Op String String ρ) : Prop :=
  ∀ message ∈ op.message?, message.key ≠ keyRevision

/-- A caller only adds one, and the others change nothing. -/
def counting {ι : Type} (callers : Set ι) : Discipline ι String String where
  regime := countable
  inv _ := True
  guar i b b' := (i ∈ callers ∧ number b' = number b + 1) ∨ (i ∉ callers ∧ number b' = number b)

theorem scanUint_toString (fits : n < 2 ^ 64) : scanUint (toString n) = n := by
  have digits : ∀ c ∈ Nat.toDigits 10 n, c.isDigit = true :=
    fun c member => Nat.isDigit_of_mem_toDigits (by decide) (by decide) member
  have blankless : (Nat.toDigits 10 n).dropWhile (fun c => isSpace c && c != '\n') =
      Nat.toDigits 10 n := by
    refine List.dropWhile_eq_self_iff.mpr fun some_digit => ?_
    obtain ⟨low, high⟩ : 48 ≤ _ ∧ _ ≤ 57 :=
      Char.isDigit_iff_toNat.mp (digits _ (List.getElem_mem some_digit))
    simp [isSpace]
    omega
  have value : (Nat.toDigits 10 n).foldl (fun n c => 10 * n + (c.toNat - '0'.toNat)) 0 = n :=
    Nat.ofDigitChars_toDigits (by decide) (by decide)
  simp only [scanUint, show toString n = Nat.repr n from rfl, Nat.toList_repr, blankless,
    List.takeWhile_eq_self_iff.mpr digits, value, if_pos fits]

theorem number_write (b : Bucket String String) (value : String) :
    number (b.write keyRevision (some value)) = scanUint value := by
  simp [number]

theorem number_next (held : b.get keyRevision = some entry) (more : number b + 1 < 2 ^ 64) :
    number (b.write keyRevision (some (nextRevision entry.value))) = number b + 1 := by
  have same : number b = scanUint entry.value := by rw [number, held, Option.elim_some]
  rw [number_write, nextRevision, ← same, Nat.mod_eq_of_lt more, scanUint_toString more]

section

theorem bumpAttempts_counts (caller : i ∈ callers) (describe : Refusal → String) (attempts : Nat)
    (lastErr : String) :
    (counting callers).Ensures i (fun _ _ => True) b (bumpAttempts describe attempts lastErr) := by
  induction attempts generalizing b lastErr with
  | zero => exact fun _ _ => trivial
  | succ attempts ih =>
    refine .get (fun b' _ entry held => ?_) (fun b' _ free => ?_) fun _ _ _ _ _ _ => trivial
    · refine .update b'.le_refl held
        (fun b₁ _ more same => ⟨.inl ⟨caller, number_next same more⟩, trivial⟩)
        (fun _ _ _ _ _ _ => trivial) (fun _ _ => ih _) fun _ _ _ _ _ _ => ih _
    · refine .guarded (Op.guarded_create _ _) (fun b₁ _ _ free => ⟨.inl ⟨caller, ?_⟩, trivial⟩)
        (fun _ _ _ _ _ _ => trivial) (fun _ _ _ => ih _) fun _ _ _ _ _ _ => ih _
      rw [number_write, number, free]
      decide

theorem spares_counts (other : i ∉ callers) (uses : p.Uses Spares) :
    (counting callers).Ensures i (fun _ _ => True) b p := by
  refine .of_uses uses fun op b spares _ _ => ?_
  obtain same | ⟨message, own, same⟩ := op.perform_eq b
  · exact .inl same
  · refine .inr ⟨.inr ⟨other, ?_⟩, trivial⟩
    rw [same, number, number, Bucket.get_write_ne (spares message own).symm]

def Succeeds (callers : Set ι) (i : ι) (result : Except String Unit) : Prop :=
  i ∈ callers ∧ result = .ok ()

/-- A write of the revision by a caller that is told of its success. -/
def Acknowledged (callers : Set ι) (i : ι) {ρ : Type} (op : Op String String ρ)
    (reply : Except Refusal ρ) : Prop :=
  i ∈ callers ∧ (∃ value, op.Stores keyRevision value) ∧ ∃ answer, reply = .ok answer

theorem bumpAttempts_unsure (describe : Refusal → String) (attempts : Nat) (lastErr : String) :
    ¬ (bumpAttempts describe attempts lastErr).Sure (Succeeds callers i) := by
  intro sure
  cases attempts with
  | zero => cases (sure _ rfl).2
  | succ attempts => cases (sure (.error _) ⟨.error .noKeys, rfl⟩).2

theorem bumpAttempts_pivots (caller : i ∈ callers) (describe : Refusal → String) (attempts : Nat)
    (lastErr : String) :
    (bumpAttempts describe attempts lastErr).Pivots (Succeeds callers i)
    (Acknowledged callers i) := by
  induction attempts generalizing lastErr with
  | zero => trivial
  | succ attempts ih =>
    have tries : ∀ {P : Prop} {op : Op String String Nat} {value next},
        op.Stores keyRevision value → (∀ answer, next (.ok answer) = .done (.ok ())) →
        (∀ refused, next (.error refused) = bumpAttempts describe attempts (describe refused)) →
        (Sure (Succeeds callers i) (.call op next) → P) ∧
          Pivots (Succeeds callers i) (Acknowledged callers i) (.call op next) := by
      intro P op value next stores ends again
      have unsure : ∀ refused, ¬ (next (.error refused)).Sure (Succeeds callers i) := fun refused =>
        again refused ▸ bumpAttempts_unsure describe attempts _
      refine ⟨fun sure => absurd (Program.sure_call.mp sure _) (unsure .noKeys), ?_⟩
      rintro (refused | answer)
      · exact ⟨fun sure => absurd sure (unsure _), again refused ▸ ih _⟩
      · exact ⟨fun _ => .inr ⟨caller, ⟨value, stores⟩, answer, rfl⟩, ends answer ▸ trivial⟩
    rintro ((_ | _ | _ | _ | _) | entry)
    case error.notFound | ok => exact tries ⟨rfl, rfl⟩ (fun _ => rfl) fun _ => rfl
    all_goals exact ⟨fun sure => absurd (sure _ rfl).2 (by simp), trivial⟩

theorem keeps_number (keeps : (counting callers).Keeps i b b') :
    number b' = number b ∨ number b' = number b + 1 := by
  obtain rfl | ⟨⟨-, more⟩ | ⟨-, same⟩, -⟩ := keeps
  · exact .inl rfl
  · exact .inr more
  · exact .inl same

variable [DecidableEq ι]

/-- Callers of `BumpRevision`, at their start, among programs that leave the revision alone. -/
structure Opens (describe : Refusal → String) (callers : Set ι)
    (s : System ι String String fun _ => Except String Unit) : Prop where
  calls : ∀ i ∈ callers, s.programs i = bumpRevision describe
  others : ∀ i ∉ callers, (s.programs i).Uses Spares

/-- Each step leaves the number or adds one, and for each of the calls that begin and succeed after
a state, one has been added to the number of that state. -/
theorem bumps_counted {describe : Refusal → String}
    {start s s' : System ι String String fun _ => Except String Unit}
    (opens : Opens describe callers start) (before : start.Reaches countable s)
    (run : s.Reaches countable s') : (∀ s'', s'.Moves countable s'' →
      number s''.bucket = number s'.bucket ∨ number s''.bucket = number s'.bucket + 1) ∧
    ∀ calls : Finset ι, (∀ i ∈ calls, i ∈ callers ∧ s.programs i = bumpRevision describe ∧
      s'.programs i = .done (.ok ())) → number s.bucket + calls.card ≤ number s'.bucket := by
  have holds : (counting callers).Holds (fun _ _ _ => True) start := by
    refine ⟨trivial, fun i => ?_⟩
    by_cases caller : i ∈ callers
    · rw [opens.calls i caller]
      exact bumpAttempts_counts caller ..
    · exact spares_counts caller (opens.others i caller)
  have pivots : ∀ i, (start.programs i).Pivots (Succeeds callers i) (Acknowledged callers i) := by
    intro i
    by_cases caller : i ∈ callers
    · rw [opens.calls i caller]
      exact bumpAttempts_pivots caller ..
    · exact .of_never fun _ _ success => caller success.1
  have here := holds.reaches before
  refine ⟨fun s'' moves => ?_, fun calls returned => ?_⟩
  · cases moves with
    | step i step => exact keeps_number ((((here.reaches run).2 i).step trivial step).1)
  · refine here.winners_counted (Discipline.pivots_reaches (d := counting callers) pivots before)
      run number (fun keeps _ => ?_) ?_ calls
      (fun i member => ?_) fun i member => ?_
    · have := keeps_number keeps
      omega
    · rintro i b b' ρ op reply - - keeps yields ⟨caller, ⟨value, stores⟩, answer, rfl⟩
      obtain rfl := yields.stored stores
      obtain same | ⟨⟨-, more⟩ | ⟨other, -⟩, -⟩ := keeps
      · exact absurd same (b.write_ne _ _)
      · omega
      · exact absurd caller other
    · rw [(returned i member).2.1]
      exact bumpAttempts_unsure describe _ _
    · rw [(returned i member).2.2]
      rintro _ rfl
      exact ⟨(returned i member).1, rfl⟩

end

def bothCall : System Bool String String fun _ => Except String Unit :=
  ⟨.empty, fun _ => bumpRevision fun _ => ""⟩

/-- Both read that there is no number yet, and the one whose write comes second begins again. -/
def raced : System Bool String String fun _ => Except String Unit :=
  bothCall.play [(true, .served), (false, .served), (true, .served), (false, .served),
    (false, .served), (false, .served)]

theorem bumps_counted_raced : bothCall.Reaches countable raced ∧
    number bothCall.bucket + 2 ≤ number raced.bucket := by
  have opens : Opens (fun _ => "") Set.univ bothCall :=
    ⟨fun _ _ => rfl, fun i other => absurd trivial other⟩
  have reaches : bothCall.Reaches countable raced :=
    System.play_reaches (fun _ _ => trivial) _ _ (by
      refine ⟨?_, ?_, ?_, ?_, ?_, ?_, trivial⟩ <;> show number _ + 1 < 2 ^ 64 <;> decide)
  exact ⟨reaches, (bumps_counted opens .refl reaches).2 Finset.univ fun i _ =>
    ⟨trivial, rfl, by cases i <;> rfl⟩⟩

/-- After the last number of 64 bits comes 0. -/
theorem bump_wraps : ∃ b b', number b = 2 ^ 64 - 1 ∧
    (bumpRevision fun _ => "").alone b = (b', .ok ()) ∧ number b' = 0 :=
  ⟨Bucket.empty.write keyRevision (some "18446744073709551615"), _, by decide, rfl, by decide⟩

end Zester.Bus
