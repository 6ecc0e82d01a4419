import Mathlib.Data.Finset.Card
import Zester.Lib.Program

/-! Proof rules for programs that share a bucket. Every program keeps an invariant
of the bucket and guarantees something about each of its writes; in return it may
count on what the other programs guarantee. What is shown of the programs one by
one then holds in every interleaving. -/

structure Discipline (ι κ β : Type) where
  regime : Regime κ β
  inv : Bucket κ β → Prop
  /-- What a write of each program does to the bucket. -/
  guar : ι → Bucket κ β → Bucket κ β → Prop

namespace Discipline
open Function Bucket
variable (d : Discipline ι κ β) (i : ι)

/-- A write of a program other than `i`. -/
def Other (b b' : Bucket κ β) : Prop :=
  d.inv b ∧ b ≤ b' ∧ d.inv b' ∧ ∃ j, j ≠ i ∧ d.guar j b b'

/-- What the other programs may make of the bucket between two operations of `i`. -/
structure Around (b b' : Bucket κ β) : Prop where
  later : b ≤ b'
  others : Relation.ReflTransGen (d.Other i) b b'
  inv : d.inv b'

/-- A step of `i` does not change the bucket, or keeps its promises. -/
def Keeps (b b' : Bucket κ β) : Prop := b' = b ∨ (d.guar i b b' ∧ d.inv b')

section
variable {d i}

namespace Around

theorem refl (inv : d.inv b) : d.Around i b b := ⟨b.le_refl, .refl, inv⟩

theorem trans (first : d.Around i b b') (second : d.Around i b' b'') : d.Around i b b'' :=
  ⟨le_trans first.later second.later, first.others.trans second.others, second.inv⟩

theorem single (inv : d.inv b) (later : b ≤ b') (other : j ≠ i) (guar : d.guar j b b')
    (inv' : d.inv b') : d.Around i b b' :=
  ⟨later, .single ⟨inv, later, inv', j, other, guar⟩, inv'⟩

/-- What no other program destroys is still there. -/
theorem stable {P : Bucket κ β → Prop} (around : d.Around i b b')
    (step : ∀ {b b'}, d.Other i b b' → P b → P b') (initial : P b) : P b' := by
  obtain ⟨-, others, -⟩ := around
  induction others with
  | refl => exact initial
  | tail _ last ih => exact step last ih

theorem alone [Subsingleton ι] {P : Bucket κ β → Prop} (here : P b) :
    ∀ b', d.Around i b b' → P b' := by
  rintro b' ⟨-, others, -⟩
  induction others with
  | refl => exact here
  | tail _ last _ =>
    obtain ⟨-, -, -, j, other, -⟩ := last
    exact absurd (Subsingleton.elim j i) other

end Around

theorem Keeps.inv (keeps : d.Keeps i b b') (inv : d.inv b) : d.inv b' := by
  obtain rfl | ⟨-, after⟩ := keeps
  · exact inv
  · exact after

end

variable [DecidableEq κ]

/-- From `b` on, among the others, `p` keeps its promises and every result it comes
to satisfies the postcondition from then on. -/
def Ensures {α : Type} (post : Bucket κ β → α → Prop) : Bucket κ β → Program κ β α → Prop
  | b, .done result => ∀ b', d.Around i b b' → post b' result
  | b, .call op next => ∀ b', d.Around i b b' → d.regime.permits b' op →
      ∀ reply b'', d.regime.Yields op b' reply b'' → d.Keeps i b' b'' ∧
        Ensures post b'' (next reply)

variable {d i} {b : Bucket κ β} {post : Bucket κ β → α → Prop} {p : Program κ β α}

namespace Ensures

theorem later (ensures : d.Ensures i post b p) (around : d.Around i b b') :
    d.Ensures i post b' p := by
  cases p with
  | done result | call op next => exact fun b'' around' => ensures b'' (around.trans around')

theorem weaken (ensures : d.Ensures i post b p)
    (implies : ∀ b result, d.inv b → post b result → post' b result) : d.Ensures i post' b p := by
  induction p generalizing b with
  | done result => exact fun b' around => implies b' result around.inv (ensures b' around)
  | call op next ih =>
    intro b' around permitted reply b'' yields
    obtain ⟨keeps, rest⟩ := ensures b' around permitted reply b'' yields
    exact ⟨keeps, ih reply rest⟩

theorem error {e : ε} {P : Bucket κ β → α → Prop} :
    d.Ensures i (fun b result => ∀ answer, result = .ok answer → P b answer) b
      (.done (.error e) : Program κ β (Except ε α)) := by
  intro b' _ answer failed
  cases failed

theorem nothing {P : Bucket κ β → α → Prop} :
    d.Ensures i (fun b result => ∀ answer, result = some answer → P b answer) b
      (.done none : Program κ β (Option α)) := by
  intro b' _ answer missing
  cases missing

theorem bind (inv : d.inv b) (first : d.Ensures i post b p)
    (second : ∀ b' result, b ≤ b' → d.inv b' → post b' result → d.Ensures i post' b' (f result)) :
    d.Ensures i post' b (p >>= f) := by
  induction p generalizing b with
  | done result => exact second b result b.le_refl inv (first b (.refl inv))
  | call op next ih =>
    intro b' around permitted reply b'' yields
    obtain ⟨keeps, rest⟩ := first b' around permitted reply b'' yields
    have before : b ≤ b'' := le_trans around.later yields.le
    refine ⟨keeps, ih reply (keeps.inv around.inv) rest fun b₃ result after => ?_⟩
    exact second b₃ result (le_trans before after)

/-- After a program that only reads, the bucket is what the others made of it. -/
theorem bind_reads (inv : d.inv b) (reads : p.Uses fun op => op.isWrite = false)
    (first : d.Ensures i post b p)
    (second : ∀ b' result, d.Around i b b' → post b' result → d.Ensures i post' b' (f result)) :
    d.Ensures i post' b (p >>= f) := by
  induction p generalizing b with
  | done result => exact second b result (.refl inv) (first b (.refl inv))
  | call op next ih =>
    intro b' around permitted reply b'' yields
    obtain ⟨keeps, rest⟩ := first b' around permitted reply b'' yields
    obtain rfl : b'' = b' := yields.read reads.1
    refine ⟨keeps, ih reply around.inv (reads.2 reply) rest fun b₃ result after => ?_⟩
    exact second b₃ result (around.trans after)

theorem step (inv : d.inv b)
    (ensures : d.Ensures i post b p) (step : d.regime.Step (b, p) (b', p')) :
    d.Keeps i b b' ∧ d.Ensures i post b' p' := by
  cases step with
  | call permitted yields => exact ensures b (.refl inv) permitted _ _ yields

theorem runs (inv : d.inv b) (ensures : d.Ensures i post b p)
    (run : d.regime.Runs (b, p) (b', p')) : d.inv b' ∧ d.Ensures i post b' p' := by
  have reached : ∀ final, d.regime.Runs (b, p) final →
      d.inv final.1 ∧ d.Ensures i post final.1 final.2 := by
    intro final run
    induction run with
    | refl => exact ⟨inv, ensures⟩
    | tail _ last ih =>
      obtain ⟨keeps, rest⟩ := ih.2.step ih.1 last
      exact ⟨keeps.inv ih.1, rest⟩
  exact reached (b', p') run

end Ensures

section
variable [DecidableEq ι] {α : ι → Type} {post : (i : ι) → Bucket κ β → α i → Prop}

/-- The invariant holds and every program still does what it promised. -/
def Holds (d : Discipline ι κ β) (post : (i : ι) → Bucket κ β → α i → Prop)
    (s : System ι κ β α) : Prop :=
  d.inv s.bucket ∧ ∀ i, d.Ensures i (post i) s.bucket (s.programs i)

theorem Holds.moves (moves : s.Moves d.regime s') (holds : d.Holds post s) : d.Holds post s' := by
  obtain ⟨inv, ensures⟩ := holds
  cases moves with
  | @step j b' p' step =>
    have later : s.bucket ≤ b' := step.le
    obtain ⟨keeps, rest⟩ := (ensures j).step inv step
    refine ⟨keeps.inv inv, fun i => ?_⟩
    by_cases same : i = j
    · subst same
      simpa using rest
    · simp only [update_of_ne same]
      obtain rfl | ⟨guar, inv'⟩ := keeps
      · exact ensures i
      · exact (ensures i).later (.single inv later (Ne.symm same) guar inv')

/-- What holds of the programs one by one holds in every interleaving. -/
theorem Holds.reaches (run : s.Reaches d.regime s') (holds : d.Holds post s) : d.Holds post s' := by
  induction run with
  | refl => exact holds
  | tail _ last ih => exact ih.moves last

omit [DecidableEq ι] in
theorem Holds.result {result : α i} (holds : d.Holds post s)
    (finished : s.programs i = .done result) : post i s.bucket result := by
  have ensures := holds.2 i
  rw [finished] at ensures
  exact ensures s.bucket (.refl holds.1)

section
variable {wins : (i : ι) → α i → Prop} {fits : ι → {ρ : Type} → Op κ β ρ → Except Refusal ρ → Prop}
  {s s' : System ι κ β α} (holds : d.Holds post s)
    (pivots : ∀ i, (s.programs i).Pivots (wins i) (fits i)) (run : s.Reaches d.regime s')
include pivots run

theorem pivots_reaches (i : ι) : (s'.programs i).Pivots (wins i) (fits i) := by
  induction run with
  | refl => exact pivots i
  | @tail s₁ _ _ last ih =>
    cases last with
    | @step k b' p' step =>
      by_cases same : i = k
      · subst same
        generalize s₁.programs i = p at step ih
        cases step with
        | call permitted yields => simpa using (ih _).2
      · simpa [update_of_ne same] using ih

include holds

/-- A program becomes sure to win only by a step that adds to a count, and no step takes from it: it
has grown by one at least for each winner. -/
theorem Holds.winners_counted (count : Bucket κ β → Nat)
    (mono : ∀ {i b b'}, d.Keeps i b b' → b ≤ b' → count b ≤ count b')
    (counts : ∀ {i b b'} {ρ : Type} {op : Op κ β ρ} {reply}, d.inv b → d.inv b' → d.Keeps i b b' →
      d.regime.Yields op b reply b' → fits i op reply → count b < count b')
    (winners : Finset ι) (start : ∀ i ∈ winners, ¬ (s.programs i).Sure (wins i))
    (sure : ∀ i ∈ winners, (s'.programs i).Sure (wins i)) :
    count s.bucket + winners.card ≤ count s'.bucket := by
  induction run generalizing winners with
  | refl =>
    obtain rfl := Finset.eq_empty_of_forall_notMem fun i member => start i member (sure i member)
    exact Nat.le_refl _
  | @tail s₁ _ before last ih =>
    have holds₁ := holds.reaches before
    have holds₂ := holds₁.moves last
    cases last with
    | @step k b' p' step =>
      have keeps := ((holds₁.2 k).step holds₁.1 step).1
      have more := mono keeps step.le
      -- only its own step makes `k` sure, and that step counts
      have turn : p'.Sure (wins k) → (s₁.programs k).Sure (wins k) ∨
          count s₁.bucket < count b' := by
        have shape := pivots_reaches pivots before k
        generalize s₁.programs k = p at step shape
        cases step with
        | call permitted yields =>
          exact fun sure => ((shape _).1 sure).imp_right (counts holds₁.1 holds₂.1 keeps yields)
      have others : ∀ i ∈ winners, i ≠ k → (s₁.programs i).Sure (wins i) := fun i member other => by
        simpa [update_of_ne other] using sure i member
      dsimp only
      by_cases fresh : k ∈ winners ∧ ¬ (s₁.programs k).Sure (wins k)
      · have counts := (turn (by simpa using sure k fresh.1)).resolve_left fresh.2
        have earlier := ih _ (fun i member => start i (Finset.mem_of_mem_erase member))
          fun i member => others i (Finset.mem_of_mem_erase member) (Finset.ne_of_mem_erase member)
        rw [← Finset.card_erase_add_one fresh.1]
        omega
      · refine (ih winners start fun i member => ?_).trans more
        by_cases same : i = k
        · subst same
          exact not_not.mp fun unsure => fresh ⟨member, unsure⟩
        · exact others i member same

/-- A program becomes sure to win by using up what is there only once, and for good: at most
one of them does. -/
theorem Holds.one_winner (spent : Bucket κ β → Prop)
    (spends : ∀ {i b b'} {ρ : Type} {op : Op κ β ρ} {reply}, d.inv b → d.inv b' → d.Keeps i b b' →
      d.regime.Yields op b reply b' → fits i op reply → ¬ spent b ∧ spent b')
    (lasting : ∀ {b b'}, b ≤ b' → spent b → spent b') (start : ∀ i, ¬ (s.programs i).Sure (wins i))
    (one : (s'.programs i).Sure (wins i)) (two : (s'.programs j).Sure (wins j)) : i = j := by
  classical
  by_contra other
  have twice := holds.winners_counted pivots run (fun b => if spent b then 1 else 0)
    (fun _ later => by have := lasting later; split_ifs <;> simp_all)
    (fun inv inv' keeps yields fit => by simp [spends inv inv' keeps yields fit])
    {i, j} (fun i _ => start i) (by simp [one, two])
  rw [Finset.card_pair other] at twice
  split_ifs at twice <;> omega

end

end

namespace Ensures
variable {op : Op κ β ρ}

theorem call
    (keeps : ∀ b', d.Around i b b' → d.regime.permits b' op → d.Keeps i b' (op.perform b').2)
    (served : ∀ b', d.Around i b b' → d.regime.permits b' op →
      d.Ensures i post (op.perform b').2 (next (op.perform b').1))
    (failed : ∀ b', d.Around i b b' → d.regime.permits b' op → d.regime.fails op → ∀ b'' text,
      b'' = b' ∨ b'' = (op.perform b').2 → d.Ensures i post b'' (next (.error (.failed text)))) :
    d.Ensures i post b (.call op next) := by
  intro b' around permitted reply b'' yields
  obtain ⟨rfl, rfl⟩ | ⟨fails, ⟨text, rfl⟩, after⟩ := yields
  · exact ⟨keeps b' around permitted, served b' around permitted⟩
  · refine ⟨?_, failed b' around permitted fails b'' text after⟩
    obtain rfl | rfl := after
    · exact .inl rfl
    · exact keeps b' around permitted

theorem of_uses (uses : p.Uses allowed)
    (keeps : ∀ {ρ : Type} (op : Op κ β ρ) b, allowed op → d.inv b → d.regime.permits b op →
      d.Keeps i b (op.perform b).2) : d.Ensures i (fun _ _ => True) b p := by
  induction p generalizing b with
  | done result => exact fun _ _ => trivial
  | call op next ih =>
    exact call (fun b' around permitted => keeps op b' uses.1 around.inv permitted)
      (fun _ _ _ => ih _ (uses.2 _)) (fun _ _ _ _ _ _ _ => ih _ (uses.2 _))

theorem of_reads [Subsingleton ι] (reads : p.Uses fun op => op.isWrite = false) :
    d.Ensures i (fun b' _ => b' = b) b p := by
  induction p with
  | done result => exact Around.alone rfl
  | call op next ih =>
    refine Around.alone fun _ reply b' yields => ?_
    obtain rfl : b' = b := yields.read reads.1
    exact ⟨.inl rfl, ih reply (reads.2 reply)⟩

theorem returns (free : ∀ b b', d.Keeps i b b') :
    d.Ensures i (fun b' result => b ≤ b' ∧ p.MayReturn result) b p := by
  induction p generalizing b with
  | done result => exact fun b' around => ⟨around.later, rfl⟩
  | call op next ih =>
    intro b' around _ reply b'' yields
    have later : b ≤ b'' := le_trans around.later yields.le
    exact ⟨free b' b'', (ih reply).weaken fun _ _ _ ⟨after, returned⟩ =>
      ⟨le_trans later after, reply, returned⟩⟩

theorem get {next : Except Refusal (Entry β) → Program κ β α}
    (found : ∀ b', d.Around i b b' → ∀ entry, b'.get key = some entry →
      d.Ensures i post b' (next (.ok entry)))
    (missing : ∀ b', d.Around i b b' → b'.get key = none →
      d.Ensures i post b' (next (.error .notFound)))
    (failed : ∀ b', d.Around i b b' → d.regime.fails (.get key : Op κ β (Entry β)) → ∀ text,
      d.Ensures i post b' (next (.error (.failed text)))) :
    d.Ensures i post b (Program.get key >>= next) := by
  show d.Ensures i post b (.call (.get key) next)
  refine call (fun _ _ _ => .inl rfl) (fun b' around _ => ?_) ?_
  · simp only [Op.perform]
    cases held : b'.get key with
    | some entry => exact found b' around entry held
    | none => exact missing b' around held
  · rintro b' around - fails b'' text (rfl | rfl) <;> exact failed _ around fails text

theorem keys {next : Except Refusal (List κ) → Program κ β α}
    (listed : ∀ b', d.Around i b b' → b'.keys ≠ [] → d.Ensures i post b' (next (.ok b'.keys)))
    (none : ∀ b', d.Around i b b' → b'.keys = [] → d.Ensures i post b' (next (.error .noKeys)))
    (failed : ∀ b', d.Around i b b' → d.regime.fails (.keys : Op κ β (List κ)) → ∀ text,
      d.Ensures i post b' (next (.error (.failed text)))) :
    d.Ensures i post b (Program.keys >>= next) := by
  show d.Ensures i post b (.call .keys next)
  refine call (fun _ _ _ => .inl rfl) (fun b' around _ => ?_) ?_
  · simp only [Op.perform]
    split
    · rename_i empty
      exact none b' around empty
    · rename_i some
      exact listed b' around some
  · rintro b' around - fails b'' text (rfl | rfl) <;> exact failed _ around fails text

theorem write {answer : Bucket κ β → ρ}
    (writes : ∀ b', op.perform b' = (.ok (answer b'), b'.write key value))
    (keeps : ∀ b', d.Around i b b' → d.regime.permits b' op →
      d.guar i b' (b'.write key value) ∧ d.inv (b'.write key value))
    (stored : ∀ b', d.Around i b b' → d.regime.permits b' op →
      d.Ensures i post (b'.write key value) (next (.ok (answer b'))))
    (failed : ∀ b', d.Around i b b' → d.regime.permits b' op → ∀ b'' text,
      b'' = b' ∨ b'' = b'.write key value → d.Ensures i post b'' (next (.error (.failed text)))) :
    d.Ensures i post b ((.call op .done : Program κ β _) >>= next) := by
  refine @call _ _ _ _ _ _ _ _ _ _ op next ?_ ?_ ?_ <;> simp only [writes]
  · exact fun b' around permitted => .inr (keeps b' around permitted)
  · exact stored
  · exact fun b' around permitted _ => failed b' around permitted

theorem guarded {op : Op κ β Nat} {next : Except Refusal Nat → Program κ β α}
    (guarded : op.Guarded P key value refusal)
    (keeps : ∀ b', d.Around i b b' → d.regime.permits b' op → P b' →
      d.guar i b' (b'.write key (some value)) ∧ d.inv (b'.write key (some value)))
    (stored : ∀ b', d.Around i b b' → d.regime.permits b' op → P b' →
      d.Ensures i post (b'.write key (some value)) (next (.ok (b'.revision + 1))))
    (refused : ∀ b', d.Around i b b' → ¬ P b' → d.Ensures i post b' (next (.error refusal)))
    (failed : ∀ b', d.Around i b b' → d.regime.permits b' op → ∀ b'' text,
      b'' = b' ∨ (P b' ∧ b'' = b'.write key (some value)) →
        d.Ensures i post b'' (next (.error (.failed text)))) :
    d.Ensures i post b ((.call op .done : Program κ β _) >>= next) := by
  refine @call _ _ _ _ _ _ _ _ _ _ op next (fun b' around permitted => ?_)
    (fun b' around permitted => ?_)
    (fun b' around permitted _ b'' text after => failed b' around permitted b'' text ?_) <;>
    obtain ⟨holds, same⟩ | ⟨fails, same⟩ := guarded b' <;> simp only [same] at *
  · exact .inr (keeps b' around permitted holds)
  · exact .inl rfl
  · exact stored b' around permitted holds
  · exact refused b' around fails
  · exact after.imp_right fun stored => ⟨holds, stored⟩
  · exact .inl (after.elim id id)

/-- Compare-and-swap on an entry that was read earlier: it takes effect only if the
entry is still the same. -/
theorem update {next : Except Refusal Nat → Program κ β α}
    (since : before ≤ b) (read : before.get key = some entry)
    (keeps : ∀ b', d.Around i b b' → d.regime.permits b' (.update key value entry.revision) →
      b'.get key = some entry →
      d.guar i b' (b'.write key (some value)) ∧ d.inv (b'.write key (some value)))
    (stored : ∀ b', d.Around i b b' → d.regime.permits b' (.update key value entry.revision) →
      b'.get key = some entry →
      d.Ensures i post (b'.write key (some value)) (next (.ok (b'.revision + 1))))
    (stale : ∀ b', d.Around i b b' → d.Ensures i post b' (next (.error .wrongRevision)))
    (failed : ∀ b', d.Around i b b' → d.regime.permits b' (.update key value entry.revision) →
      ∀ b'' text, b'' = b' ∨ (b'.get key = some entry ∧ b'' = b'.write key (some value)) →
      d.Ensures i post b'' (next (.error (.failed text)))) :
    d.Ensures i post b (Program.update key value entry.revision >>= next) := by
  have unchanged : ∀ {b' : Bucket κ β}, d.Around i b b' →
      (∃ last, b'.last key = some last ∧ last.revision = entry.revision) →
          b'.get key = some entry :=
    fun around ⟨message, last, same⟩ =>
      get_of_last_revision (le_trans since around.later) read last same
  exact guarded (Op.guarded_update key value entry.revision)
    (fun b' around permitted same => keeps b' around permitted (unchanged around same))
    (fun b' around permitted same => stored b' around permitted (unchanged around same))
    (fun b' around _ => stale b' around) fun b' around permitted b'' text after =>
      failed b' around permitted b'' text (after.imp_right (·.imp_left (unchanged around)))

end Ensures
end Discipline
