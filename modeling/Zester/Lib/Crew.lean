import Zester.Lib.Program

/-! Tasks that leave further tasks behind. A crew is a bucket and the programs that run on
it: each takes its steps in any order, new ones may arrive, and any of them may be lost.
A monitor says what a program may do in view of what it knows. -/

structure Crew (τ κ β : Type) where
  bucket : Bucket κ β
  running : List (Program κ β (List τ))

namespace Crew
variable [DecidableEq κ]

/-- What can happen to a crew, if `program` carries out a task. -/
inductive Moves (regime : Regime κ β) (program : τ → Program κ β (List τ)) (arrives : τ → Prop) :
    Crew τ κ β → Crew τ κ β → Prop where
  | step {b b' : Bucket κ β} {before after : List (Program κ β (List τ))}
      {p p' : Program κ β (List τ)} (step : regime.Step (b, p) (b', p')) :
      Moves regime program arrives ⟨b, before ++ p :: after⟩ ⟨b', before ++ p' :: after⟩
  /-- A program that ended makes way for the tasks that it left. -/
  | ends {b : Bucket κ β} {before after : List (Program κ β (List τ))} {tasks : List τ} :
      Moves regime program arrives ⟨b, before ++ .done tasks :: after⟩
        ⟨b, before ++ (tasks.map program ++ after)⟩
  | arrive {b : Bucket κ β} {running : List (Program κ β (List τ))} {task : τ}
      (called : arrives task) :
      Moves regime program arrives ⟨b, running⟩ ⟨b, program task :: running⟩
  | crash {b : Bucket κ β} {before after : List (Program κ β (List τ))}
      {p : Program κ β (List τ)} :
      Moves regime program arrives ⟨b, before ++ p :: after⟩ ⟨b, before ++ after⟩

abbrev Reaches (regime : Regime κ β) (program : τ → Program κ β (List τ)) (arrives : τ → Prop) :
    Crew τ κ β → Crew τ κ β → Prop :=
  Relation.ReflTransGen (Moves regime program arrives)

theorem Reaches.le {regime : Regime κ β} {program : τ → Program κ β (List τ)} {arrives : τ → Prop}
    {crew crew' : Crew τ κ β} (run : Reaches regime program arrives crew crew') :
    crew.bucket ≤ crew'.bucket := by
  induction run with
  | refl => exact Bucket.le_refl _
  | tail _ last ih =>
    cases last with
    | step step => exact Bucket.le_trans ih step.le
    | ends | arrive called | crash => exact ih

section
variable (program : τ → Program κ β (List τ))

def turn (crew : Crew τ κ β) : Crew τ κ β :=
  match crew.running with
  | [] => crew
  | .done tasks :: rest => ⟨crew.bucket, tasks.map program ++ rest⟩
  | .call op next :: rest =>
    ⟨(op.perform crew.bucket).2, next (op.perform crew.bucket).1 :: rest⟩

/-- Tasks that arrive one after the other, with the turns that each of them gets. -/
def serve (crew : Crew τ κ β) : List (τ × Nat) → Crew τ κ β
  | [] => crew
  | (task, turns) :: calls =>
    ((turn program)^[turns] ⟨crew.bucket, program task :: crew.running⟩).serve calls

variable {program}

theorem turn_reaches (permits : regime.Permissive) (crew : Crew τ κ β) :
    Reaches regime program arrives crew (crew.turn program) := by
  obtain ⟨b, running⟩ := crew
  cases running with
  | nil => exact .refl
  | cons first rest =>
    cases first with
    | done tasks =>
      have ends : Moves regime program arrives ⟨b, [] ++ .done tasks :: rest⟩
          ⟨b, [] ++ (tasks.map program ++ rest)⟩ := .ends
      exact .single ends
    | call op next =>
      have steps : Moves regime program arrives ⟨b, [] ++ .call op next :: rest⟩
          ⟨(op.perform b).2, [] ++ next (op.perform b).1 :: rest⟩ :=
        .step (.call (permits b op) (.inl ⟨rfl, rfl⟩))
      exact .single steps

theorem serve_reaches (permits : regime.Permissive) (calls : List (τ × Nat))
    (called : ∀ call ∈ calls, arrives call.1) (crew : Crew τ κ β) :
    Reaches regime program arrives crew (crew.serve program calls) := by
  have turns : ∀ (n : Nat) (crew : Crew τ κ β),
      Reaches regime program arrives crew ((turn program)^[n] crew) := by
    intro n
    induction n with
    | zero => exact fun _ => .refl
    | succ n ih => exact fun crew => (turn_reaches permits crew).trans (ih _)
  induction calls generalizing crew with
  | nil => exact .refl
  | cons call calls ih =>
    obtain ⟨arrived, later⟩ := List.forall_mem_cons.mp called
    exact .head (.arrive arrived) ((turns _ _).trans (ih later _))

end

end Crew

/-- What a program may do and what it learns, in terms of what it knows. -/
structure Monitor (τ κ β σ : Type) where
  fresh : σ
  allows : σ → {ρ : Type} → Op κ β ρ → Prop
  /-- The answers that can come. -/
  hears : {ρ : Type} → Op κ β ρ → Except Refusal ρ → Prop
  next : σ → {ρ : Type} → Op κ β ρ → Except Refusal ρ → σ
  /-- What the tasks know that a program leaves behind. -/
  hands : σ → List τ → List σ → Prop

namespace Monitor
variable (m : Monitor τ κ β σ)

/-- A program that knows `s` does only what is allowed, and in the end knows what `post` says. -/
def Guards {α : Type} (post : σ → α → Prop) : σ → Program κ β α → Prop
  | s, .done result => post s result
  | s, .call op next =>
    m.allows s op ∧ ∀ reply, m.hears op reply → Guards post (m.next s op reply) (next reply)

/-- The program keeps to the monitor up to the tasks that it leaves behind. -/
abbrev Obeys : σ → Program κ β (List τ) → Prop :=
  m.Guards fun s tasks => ∃ known, m.hands s tasks known

/-- What every allowed operation keeps, for the bucket and what the programs know. -/
structure Keeps [DecidableEq κ] (regime : Regime κ β) (inv : Bucket κ β → List σ → Prop) :
    Prop where
  step : ∀ {b b' before after s} {ρ : Type} {op : Op κ β ρ} {reply}, inv b (before ++ s :: after) →
    m.allows s op → regime.Yields op b reply b' →
    m.hears op reply ∧ inv b' (before ++ m.next s op reply :: after)
  ends : ∀ {b before after s tasks known}, inv b (before ++ s :: after) → m.hands s tasks known →
    inv b (before ++ (known ++ after))
  arrive : ∀ {b known}, inv b known → inv b (m.fresh :: known)
  crash : ∀ {b before after s}, inv b (before ++ s :: after) → inv b (before ++ after)

variable {m}

theorem Guards.bind (first : m.Guards post s p)
    (second : ∀ s' a, post s' a → m.Guards post' s' (f a)) : m.Guards post' s (p >>= f) := by
  induction p generalizing s with
  | done result => exact second s result first
  | call op next ih => exact ⟨first.1, fun reply hears => ih reply (first.2 reply hears)⟩

theorem Guards.op {op : Op κ β ρ} {f : Except Refusal ρ → Program κ β α}
    (allowed : m.allows s op)
    (rest : ∀ reply, m.hears op reply → m.Guards post (m.next s op reply) (f reply)) :
    m.Guards post s (Program.call op .done >>= f) := ⟨allowed, rest⟩

theorem Guards.imp (guards : m.Guards post s p) (weaker : ∀ s' a, post s' a → post' s' a) :
    m.Guards post' s p := by
  induction p generalizing s with
  | done result => exact weaker s result guards
  | call op next ih => exact ⟨guards.1, fun reply hears => ih reply (guards.2 reply hears)⟩

variable [DecidableEq κ] {arrives : τ → Prop}

omit [DecidableEq κ] in
theorem obeys_split (obey : List.Forall₂ m.Obeys known (before ++ p :: after)) :
    ∃ knownBefore s knownAfter, known = knownBefore ++ s :: knownAfter ∧
      List.Forall₂ m.Obeys knownBefore before ∧ m.Obeys s p ∧
      List.Forall₂ m.Obeys knownAfter after := by
  have first := List.forall₂_take_append known before (p :: after) obey
  have second := List.forall₂_drop_append known before (p :: after) obey
  cases rest : known.drop before.length with
  | nil =>
    rw [rest] at second
    cases second
  | cons s knownAfter =>
    rw [rest] at second
    cases second with
    | cons obeys obeyAfter =>
      exact ⟨_, s, knownAfter, by rw [← rest, List.take_append_drop], first, obeys, obeyAfter⟩

/-- In every run of tasks that obey the monitor, what is known is in order. -/
theorem Keeps.reaches (keeps : m.Keeps regime inv)
    (arriving : ∀ task, arrives task → m.Obeys m.fresh (program task))
    (left : ∀ {s tasks known}, m.hands s tasks known →
      List.Forall₂ (fun k task => m.Obeys k (program task)) known tasks)
    (start : inv .empty []) (run : Crew.Reaches regime program arrives ⟨.empty, []⟩ crew) :
    ∃ known, List.Forall₂ m.Obeys known crew.running ∧ inv crew.bucket known := by
  induction run with
  | refl => exact ⟨[], .nil, start⟩
  | tail _ last ih =>
    obtain ⟨known, obey, holds⟩ := ih
    cases last with
    | @step b b' before after p p' step =>
      obtain ⟨knownBefore, s, knownAfter, rfl, obeyBefore, obeys, obeyAfter⟩ := obeys_split obey
      cases step with
      | @call ρ op next _ _ reply permitted yields =>
        obtain ⟨hears, holds'⟩ := keeps.step holds obeys.1 yields
        exact ⟨_, List.rel_append obeyBefore (.cons (obeys.2 reply hears) obeyAfter), holds'⟩
    | @ends b before after tasks =>
      obtain ⟨knownBefore, s, knownAfter, rfl, obeyBefore, obeys, obeyAfter⟩ := obeys_split obey
      obtain ⟨children, hands⟩ := obeys
      refine ⟨_, List.rel_append obeyBefore (List.rel_append ?_ obeyAfter), keeps.ends holds hands⟩
      exact List.forall₂_map_right_iff.mpr (left hands)
    | @arrive b running task called =>
      exact ⟨_, .cons (arriving task called) obey, keeps.arrive holds⟩
    | @crash b before after p =>
      obtain ⟨knownBefore, s, knownAfter, rfl, obeyBefore, obeys, obeyAfter⟩ := obeys_split obey
      exact ⟨_, List.rel_append obeyBefore obeyAfter, keeps.crash holds⟩

end Monitor
