import Zester.Lib.Contract

/-! Visits that work on one bucket first and then, with what that came to, on another one.
Any number of them take their steps in any order, and others may write to the second
bucket as they like. -/

inductive Stage (κ β κ' β' α γ : Type) : Type 1 where
  | front (p : Program κ β α)
  | back (a : α) (p : Program κ' β' γ)

structure Relay (ι κ β κ' β' α γ : Type) where
  front : Bucket κ β
  back : Bucket κ' β'
  stages : ι → Stage κ β κ' β' α γ
  /-- The messages that the visits added to the second bucket. -/
  written : List (ι × Message κ' β')

/-- What a visit still has to do on the first bucket. -/
def Stage.ticket {κ β κ' β' α γ : Type} : Stage κ β κ' β' α γ → Program κ β α
  | .front p => p
  | .back a _ => .done a

namespace Relay
open Function
variable [DecidableEq ι] [DecidableEq κ] [DecidableEq κ']

/-- One step of one visit, where `next` is what comes after its first part. -/
inductive Moves (regime : Regime κ β) (regime' : Regime κ' β') (next : ι → α → Program κ' β' γ) :
    Relay ι κ β κ' β' α γ → Relay ι κ β κ' β' α γ → Prop where
  | front {s : Relay ι κ β κ' β' α γ} (i : ι) {p p' : Program κ β α} {b' : Bucket κ β}
      (stage : s.stages i = .front p) (step : regime.Step (s.front, p) (b', p')) :
      Moves regime regime' next s
        { s with front := b', stages := update s.stages i (.front p') }
  | pass {s : Relay ι κ β κ' β' α γ} (i : ι) {a : α} (stage : s.stages i = .front (.done a)) :
      Moves regime regime' next s
        { s with stages := update s.stages i (.back a (next i a)) }
  | back {s : Relay ι κ β κ' β' α γ} (i : ι) {a : α} {p p' : Program κ' β' γ} {b' : Bucket κ' β'}
      (stage : s.stages i = .back a p) (step : regime'.Step (s.back, p) (b', p')) :
      Moves regime regime' next s { s with
          back := b', stages := update s.stages i (.back a p'),
          written := (s.back.since b').map (Prod.mk i) ++ s.written }
  | others {s : Relay ι κ β κ' β' α γ} {b' : Bucket κ' β'} (later : s.back ≤ b') :
      Moves regime regime' next s { s with back := b' }

variable {regime' : Regime κ' β'} {next : ι → α → Program κ' β' γ} {s : Relay ι κ β κ' β' α γ}

abbrev Reaches (regime : Regime κ β) (regime' : Regime κ' β') (next : ι → α → Program κ' β' γ) :
    Relay ι κ β κ' β' α γ → Relay ι κ β κ' β' α γ → Prop :=
  Relation.ReflTransGen (Moves regime regime' next)

section
variable (next)

def turn (s : Relay ι κ β κ' β' α γ) (i : ι) : Relay ι κ β κ' β' α γ :=
  match s.stages i with
  | .front (.done a) => { s with stages := update s.stages i (.back a (next i a)) }
  | .front (.call op rest) =>
    { s with
      front := (op.perform s.front).2
      stages := update s.stages i (.front (rest (op.perform s.front).1)) }
  | .back _ (.done _) => s
  | .back a (.call op rest) =>
    { s with
      back := (op.perform s.back).2
      stages := update s.stages i (.back a (rest (op.perform s.back).1))
      written := (s.back.since (op.perform s.back).2).map (Prod.mk i) ++ s.written }

def play (s : Relay ι κ β κ' β' α γ) (script : List ι) : Relay ι κ β κ' β' α γ :=
  script.foldl (turn next) s

variable {next}

theorem turn_reaches (permits : regime.Permissive) (permits' : regime'.Permissive) (i : ι) :
    Reaches regime regime' next s (s.turn next i) := by
  cases stage : s.stages i with
  | front p =>
    cases p with
    | done a =>
      simp only [turn, stage]
      exact .single (.pass i stage)
    | call op rest =>
      simp only [turn, stage]
      exact .single (.front i stage (.call (permits _ op) (.inl ⟨rfl, rfl⟩)))
  | back a p =>
    cases p with
    | done result =>
      simp only [turn, stage]
      exact .refl
    | call op rest =>
      simp only [turn, stage]
      exact .single (.back i stage (.call (permits' _ op) (.inl ⟨rfl, rfl⟩)))

theorem play_reaches (permits : regime.Permissive) (permits' : regime'.Permissive)
    (script : List ι) :
    Reaches regime regime' next s (s.play next script) := by
  induction script generalizing s with
  | nil => exact .refl
  | cons i script ih => exact (turn_reaches permits permits' i).trans ih

end

section

/-- The visits as programs on the first bucket alone. -/
def system (s : Relay ι κ β κ' β' α γ) : System ι κ β fun _ => α :=
  ⟨s.front, fun i => (s.stages i).ticket⟩

omit [DecidableEq κ] [DecidableEq κ'] in
theorem ticket_update (stages : ι → Stage κ β κ' β' α γ) (i : ι) (stage : Stage κ β κ' β' α γ) :
    (fun j => (update stages i stage j).ticket) =
      update (fun j => (stages j).ticket) i stage.ticket :=
  comp_update Stage.ticket stages i stage

omit [DecidableEq κ] [DecidableEq κ'] in
theorem system_back {stages : ι → Stage κ β κ' β' α γ} (p : Program κ' β' γ)
    (done : (stages i).ticket = .done a) :
    (fun j => (update stages i (.back a p) j).ticket) = fun j => (stages j).ticket := by
  rw [ticket_update, Stage.ticket, ← done]
  exact update_eq_self i _

theorem Moves.system (moves : Moves regime regime' next s s') :
    s'.system = s.system ∨ s.system.Moves regime s'.system := by
  cases moves with
  | @front i p p' b' stage step =>
    have runs : regime.Step (s.system.bucket, s.system.programs i) (b', p') := by
      simpa only [Relay.system, stage, Stage.ticket] using step
    have after : Relay.system { s with front := b', stages := update s.stages i (.front p') } =
        ⟨b', update s.system.programs i p'⟩ :=
      congrArg (System.mk b') (ticket_update s.stages i (.front p'))
    rw [after]
    exact .inr (.step i runs)
  | @pass i a stage | @back i a p p' b' stage step =>
    exact .inl (congrArg (System.mk s.front) (system_back _ (by rw [stage, Stage.ticket])))
  | others later => exact .inl rfl

end

section
variable {fits : ι → α → σ → Message κ' β' → Prop}

/-- What a visit wrote fits one choice, and what it still writes will. -/
inductive Abides (fits : α → σ → Message κ' β' → Prop) (mine : Message κ' β' → Prop) :
    Stage κ β κ' β' α γ → Prop where
  | before {p : Program κ β α} (none : ∀ message, ¬ mine message) : Abides fits mine (.front p)
  | reading {a : α} {p : Program κ' β' γ} (none : ∀ message, ¬ mine message)
      (commits : p.Commits (fits a)) :
      Abides fits mine (.back a p)
  | chosen {a : α} {p : Program κ' β' γ} {choice : σ}
      (fit : ∀ message, mine message → fits a choice message)
      (uses : p.Uses fun op => ∀ message ∈ op.message?, fits a choice message) :
        Abides fits mine (.back a p)

omit [DecidableEq ι] [DecidableEq κ] [DecidableEq κ'] in
theorem Abides.wrote {fits : α → σ → Message κ' β' → Prop} {mine : Message κ' β' → Prop}
    (abides : Abides fits mine stage) (wrote : mine message) :
    ∃ a choice, stage.ticket = .done a ∧ ∀ message, mine message → fits a choice message := by
  cases abides with
  | before none | reading none commits => exact absurd wrote (none message)
  | @chosen a p choice fit uses => exact ⟨a, choice, rfl, fit⟩

theorem since_of_step {fits : Message κ' β' → Prop} (step : regime'.Step (b, p) (b', p'))
    (uses : p.Uses fun op => ∀ message ∈ op.message?, fits message) :
    (∀ message ∈ b.since b', fits message) ∧ p'.Uses fun op =>
    ∀ message ∈ op.message?, fits message := by
  cases step with
  | @call _ op next _ _ reply permitted yields =>
    refine ⟨?_, uses.2 reply⟩
    have added : b' = b ∨ ∃ message ∈ op.message?, b' = b.write message.key message.value := by
      obtain ⟨-, rfl⟩ | ⟨-, -, rfl | rfl⟩ := yields
      · exact op.perform_eq b
      · exact .inl rfl
      · exact op.perform_eq b
    obtain rfl | ⟨message, of, rfl⟩ := added
    · simp
    · simpa using uses.1 message of

omit [DecidableEq κ] in
theorem Abides.step {fits : α → σ → Message κ' β' → Prop} {mine : Message κ' β' → Prop} {a : α}
    {b b' : Bucket κ' β'} {p p' : Program κ' β' γ} (step : regime'.Step (b, p) (b', p'))
    (abides : Abides fits mine (.back a p : Stage κ β κ' β' α γ)) :
    Abides fits (fun message => message ∈ b.since b' ∨ mine message)
      (.back a p' : Stage κ β κ' β' α γ) := by
  have choose : ∀ {choice}, (∀ message, mine message → fits a choice message) →
      (p.Uses fun op => ∀ message ∈ op.message?, fits a choice message) →
      Abides fits (fun message => message ∈ b.since b' ∨ mine message)
        (.back a p' : Stage κ β κ' β' α γ) := by
    intro choice fit uses
    obtain ⟨added, rest⟩ := since_of_step step uses
    exact .chosen (fun message => Or.rec (added message) (fit message)) rest
  cases abides with
  | chosen fit uses => exact choose fit uses
  | reading none commits =>
    cases step with
    | @call _ op next _ _ reply permitted yields =>
      obtain ⟨choice, uses⟩ | ⟨read, rest⟩ := commits
      · exact choose (fun message own => absurd own (none message)) uses
      · obtain rfl : b' = b := yields.read read
        refine .reading (fun message => ?_) (rest reply)
        simpa using none message

theorem Moves.abides (commits : ∀ i a, (next i a).Commits (fits i a))
    (moves : Moves regime regime' next s s')
    (abides : ∀ i, Abides (fits i) (fun message => (i, message) ∈ s.written) (s.stages i)) (i : ι) :
    Abides (fits i) (fun message => (i, message) ∈ s'.written) (s'.stages i) := by
  cases moves with
  | others later => exact abides i
  | @front j p p' b' stage step =>
    by_cases here : i = j
    · subst here
      have before := abides i
      rw [stage] at before
      cases before with
      | before none => simpa only [update_self] using Abides.before none
    · simpa only [update_of_ne here] using abides i
  | @pass j a stage =>
    by_cases here : i = j
    · subst here
      have before := abides i
      rw [stage] at before
      cases before with
      | before none => simpa only [update_self] using Abides.reading none (commits i a)
    · simpa only [update_of_ne here] using abides i
  | @back j a p p' b' stage step =>
    by_cases here : i = j
    · subst here
      have before := abides i
      rw [stage] at before
      simpa [update_self] using before.step step
    · simpa [update_of_ne here, Ne.symm here] using abides i

end
end Relay
