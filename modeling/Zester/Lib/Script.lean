import Mathlib.Data.List.Perm.Basic

/-! Scripts that ask the outside and go on with its answers, and a driver that hands tasks to
concurrent scripts and gathers their results from a channel. Asking and being answered are two
moments, and whatever is running may act in between. -/

universe u

inductive Script (ω : Type → Type u) (α : Type) : Type (max 1 u) where
  | done (result : α)
  | call {ρ : Type} (op : ω ρ) (next : ρ → Script ω α)
  /-- The question was asked, and its answer is still out. -/
  | await {ρ : Type} (op : ω ρ) (next : ρ → Script ω α)

namespace Script
variable {ω : Type → Type u}

def bind (p : Script ω α) (f : α → Script ω γ) : Script ω γ :=
  match p with
  | .done result => f result
  | .call op next => .call op fun answer => (next answer).bind f
  | .await op next => .await op fun answer => (next answer).bind f

instance : Monad (Script ω) where
  pure := .done
  bind := bind

def ask {ρ : Type} (op : ω ρ) : Script ω ρ := .call op .done

@[simp] theorem pure_eq (a : α) : (pure a : Script ω α) = .done a := rfl

@[simp] theorem done_bind (a : α) (f : α → Script ω γ) :
    (Script.done a >>= f : Script ω γ) = f a := rfl

@[simp] theorem call_bind (op : ω ρ) (next : ρ → Script ω α) (f : α → Script ω γ) :
    (Script.call op next >>= f : Script ω γ) = .call op fun answer => next answer >>= f := rfl

@[simp] theorem await_bind (op : ω ρ) (next : ρ → Script ω α) (f : α → Script ω γ) :
    (Script.await op next >>= f : Script ω γ) = .await op fun answer => next answer >>= f := rfl

theorem bind_pure (p : Script ω α) : p >>= pure = p := by
  induction p with
  | done result => rfl
  | call op next ih | await op next ih => simp [ih]

end Script

/-- What the outside sees of a script. -/
inductive Happening (ω : Type → Type) : Type 1 where
  | asked {ρ : Type} (op : ω ρ)
  | answered {ρ : Type} (op : ω ρ) (answer : ρ)

/-- What a driver can do besides asking: start tasks with a new channel, and take the next result
from that channel. -/
inductive Lead (ω : Type → Type) (μ : Type) : Type → Type 1 where
  | ask {ρ : Type} (op : ω ρ) : Lead ω μ ρ
  | gather (tasks : List (Script ω μ)) : Lead ω μ Unit
  | receive : Lead ω μ μ

abbrev Driver (ω : Type → Type) (μ α : Type) := Script (Lead ω μ) α

namespace Driver

def ask (op : ω ρ) : Driver ω μ ρ := .call (.ask op) .done
def gather (tasks : List (Script ω μ)) : Driver ω μ Unit := .call (.gather tasks) .done
def receive : Driver ω μ μ := .call .receive .done

end Driver

/-- A driver at work. -/
structure Site (ω : Type → Type) (μ α : Type) : Type 1 where
  driver : Driver ω μ α
  /-- The tasks that have not sent their result to the channel yet. -/
  tasks : List (Script ω μ)
  channel : List μ
  /-- The tasks of channels that the driver has left behind. -/
  strays : List (Script ω μ)
  /-- Newest first. -/
  history : List (Happening ω)

namespace Site
variable {ω : Type → Type}

def start (driver : Driver ω μ α) : Site ω μ α := ⟨driver, [], [], [], []⟩

/-- A task asks, or is answered. -/
inductive Acts : Script ω μ → Happening ω → Script ω μ → Prop where
  | ask {ρ : Type} {op : ω ρ} {next : ρ → Script ω μ} :
      Acts (.call op next) (.asked op) (.await op next)
  | answer {ρ : Type} {op : ω ρ} {next : ρ → Script ω μ} (answer : ρ) :
      Acts (.await op next) (.answered op answer) (next answer)

inductive Moves : Site ω μ α → Site ω μ α → Prop where
  | ask {ρ : Type} {op : ω ρ} {next tasks channel strays history} :
      Moves ⟨.call (.ask op) next, tasks, channel, strays, history⟩
        ⟨.await (.ask op) next, tasks, channel, strays, .asked op :: history⟩
  | answer {ρ : Type} {op : ω ρ} {next tasks channel strays history} (answer : ρ) :
      Moves ⟨.await (.ask op) next, tasks, channel, strays, history⟩
        ⟨next answer, tasks, channel, strays, .answered op answer :: history⟩
  | gather {next tasks tasks' channel strays history} :
      Moves ⟨.call (.gather tasks') next, tasks, channel, strays, history⟩
        ⟨next (), tasks', [], tasks ++ strays, history⟩
  | receive {next tasks message channel strays history} :
      Moves ⟨.call .receive next, tasks, message :: channel, strays, history⟩
        ⟨next message, tasks, channel, strays, history⟩
  | task {driver before task event task' after channel strays history}
      (acts : Acts task event task') :
      Moves ⟨driver, before ++ task :: after, channel, strays, history⟩
        ⟨driver, before ++ task' :: after, channel, strays, event :: history⟩
  | deliver {driver before message after channel strays history} :
      Moves ⟨driver, before ++ .done message :: after, channel, strays, history⟩
        ⟨driver, before ++ after, channel ++ [message], strays, history⟩
  | stray {driver tasks channel before task event task' after history}
      (acts : Acts task event task') :
      Moves ⟨driver, tasks, channel, before ++ task :: after, history⟩
        ⟨driver, tasks, channel, before ++ task' :: after, event :: history⟩

abbrev Reaches : Site ω μ α → Site ω μ α → Prop := Relation.ReflTransGen Moves

end Site

section
variable {μ : Type}

/-- What may be known of a history: it stays true. -/
structure Knowledge (ω : Type → Type) : Type 1 where
  holds : List (Happening ω) → Prop
  lasts : ∀ {event history}, holds history → holds (event :: history)

namespace Knowledge

def nothing : Knowledge ω := ⟨fun _ => True, fun _ => trivial⟩

def happened (event : Happening ω) : Knowledge ω := ⟨(event ∈ ·), List.mem_cons_of_mem _⟩

def and (k k' : Knowledge ω) : Knowledge ω :=
  ⟨fun history => k.holds history ∧ k'.holds history, fun both => ⟨k.lasts both.1, k'.lasts both.2⟩⟩

/-- What does not depend on the history. -/
def fact (p : Prop) : Knowledge ω := ⟨fun _ => p, fun p => p⟩

def when (p : Prop) (k : Knowledge ω) : Knowledge ω :=
  ⟨fun history => p → k.holds history, fun known p => k.lasts (known p)⟩

/-- The second knows all that the first does. -/
def Within (k k' : Knowledge ω) : Prop := ∀ history, k'.holds history → k.holds history

theorem Within.refl (k : Knowledge ω) : k.Within k := fun _ holds => holds

theorem Within.trans {k₁ k₂ k₃ : Knowledge ω} (first : k₁.Within k₂) (second : k₂.Within k₃) :
    k₁.Within k₃ :=
  fun history holds => first history (second history holds)

theorem Within.of_and {k₁ k₂ k : Knowledge ω} (within : (k₁.and k₂).Within k) : k₁.Within k :=
  fun history holds => (within history holds).1

end Knowledge

variable (allowed : List (Happening ω) → {ρ : Type} → ω ρ → Prop)

/-- Every question was allowed by what had happened before it. -/
def Orderly : List (Happening ω) → Prop
  | [] => True
  | .asked op :: history => allowed history op ∧ Orderly history
  | .answered _ _ :: history => Orderly history

/-- A task that asks only what is allowed, and whose result keeps the promise. -/
def Script.Heeds (promise : μ → Knowledge ω) (k : Knowledge ω) : Script ω μ → Prop
  | .done message => ∀ history, k.holds history → (promise message).holds history
  | .call op next => (∀ history, k.holds history → allowed history op) ∧
      ∀ answer, (next answer).Heeds promise (k.and (.happened (.answered op answer)))
  | .await op next =>
    ∀ answer, (next answer).Heeds promise (k.and (.happened (.answered op answer)))

/-- A driver that asks only what is allowed, with the promises of the results that are still due. -/
def Driver.Heeds (post : α → Knowledge ω → List (μ → Knowledge ω) → Prop) (k : Knowledge ω)
    (due : List (μ → Knowledge ω)) : Driver ω μ α → Prop
  | .done result => post result k due
  | .call (.ask op) next => (∀ history, k.holds history → allowed history op) ∧
      ∀ answer, Driver.Heeds post (k.and (.happened (.answered op answer))) due (next answer)
  | .call (.gather tasks) next => ∃ promises : List (μ → Knowledge ω),
      List.Forall₂ (fun task promise => task.Heeds allowed promise k) tasks promises ∧
        Driver.Heeds post k promises (next ())
  | .call .receive next => ∀ promise rest, due.Perm (promise :: rest) → ∀ message,
      Driver.Heeds post (k.and (promise message)) rest (next message)
  | .await (.ask op) next =>
    ∀ answer, Driver.Heeds post (k.and (.happened (.answered op answer))) due (next answer)
  | .await (.gather _) _ => True
  | .await .receive _ => True

variable {allowed}

/-- What was known before is known afterwards. -/
theorem Driver.Heeds.bind (first : Driver.Heeds allowed post k due p)
    (second : ∀ a k' due', k.Within k' → post a k' due' →
      Driver.Heeds allowed post' k' due' (f a)) : Driver.Heeds allowed post' k due (p >>= f) := by
  induction p generalizing k due with
  | done result => exact second result k due (.refl k) first
  | call op next ih =>
    cases op with
    | ask op =>
      exact ⟨first.1, fun answer => ih answer (first.2 answer) fun a k' due' later =>
        second a k' due' later.of_and⟩
    | gather tasks =>
      obtain ⟨promises, kept, rest⟩ := first
      exact ⟨promises, kept, ih () rest second⟩
    | receive =>
      exact fun promise rest split message =>
        ih message (first promise rest split message) fun a k' due' later =>
        second a k' due' later.of_and
  | await op next ih =>
    cases op with
    | ask op =>
      exact fun answer => ih answer (first answer) fun a k' due' later =>
        second a k' due' later.of_and
    | gather tasks | receive => trivial

theorem Driver.Heeds.imp
    (heeds : Driver.Heeds allowed post k due p)
    (weaker : ∀ a k' due', k.Within k' → post a k' due' → post' a k' due') :
    Driver.Heeds allowed post' k due p :=
  Script.bind_pure p ▸ heeds.bind weaker

theorem Script.Heeds.ask_bind {f : ρ → Script ω μ}
    (permitted : ∀ history, k.holds history → allowed history op)
    (rest : ∀ answer, (f answer).Heeds allowed promise (k.and (.happened (.answered op answer)))) :
    (Script.ask op >>= f).Heeds allowed promise k := ⟨permitted, rest⟩

section
variable {post : α → Knowledge ω → List (μ → Knowledge ω) → Prop} {k : Knowledge ω}

theorem Driver.Heeds.ask_bind (permitted : ∀ history, k.holds history → allowed history op)
    (rest : ∀ answer, Driver.Heeds allowed post (k.and (.happened (.answered op answer))) due
      (f answer)) : Driver.Heeds allowed post k due (Driver.ask op >>= f) := ⟨permitted, rest⟩

theorem Driver.Heeds.gather_bind {xs : List σ} {task : σ → Script ω μ}
    (promise : σ → μ → Knowledge ω) (kept : ∀ x ∈ xs, (task x).Heeds allowed (promise x) k)
    (rest : Driver.Heeds allowed post k (xs.map promise) (f ())) :
    Driver.Heeds allowed post k due (Driver.gather (xs.map task) >>= f) := by
  refine ⟨xs.map promise, ?_, rest⟩
  rwa [List.forall₂_map_left_iff, List.forall₂_map_right_iff, List.forall₂_same]

theorem Driver.Heeds.receive_bind
    (rest : ∀ promise others, due.Perm (promise :: others) → ∀ message,
      Driver.Heeds allowed post (k.and (promise message)) others (f message)) :
    Driver.Heeds allowed post k due (Driver.receive >>= f) := rest

theorem Driver.Heeds.pure (holds : post a k due) :
    Driver.Heeds allowed post k due (Pure.pure a : Driver ω μ α) := holds

end

theorem Driver.Heeds.perm {post : α → Knowledge ω → List (μ → Knowledge ω) → Prop}
    (blind : ∀ a k due due', due.Perm due' → post a k due → post a k due')
    (heeds : Driver.Heeds allowed post k due p) (same : due.Perm due') :
    Driver.Heeds allowed post k due' p := by
  induction p generalizing k due due' with
  | done result => exact blind result k due due' same heeds
  | call op next ih =>
    cases op with
    | ask op => exact ⟨heeds.1, fun answer => ih answer (heeds.2 answer) same⟩
    | gather tasks => exact heeds
    | receive =>
      exact fun promise rest split message => heeds promise rest (same.trans split) message
  | await op next ih =>
    cases op with
    | ask op => exact fun answer => ih answer (heeds answer) same
    | gather tasks | receive => trivial

theorem forall₂_split {R : σ → τ → Prop} {before after : List σ} {x : σ} {ys : List τ}
    (related : List.Forall₂ R (before ++ x :: after) ys) :
    ∃ before' y after', ys = before' ++ y :: after' ∧ List.Forall₂ R before before' ∧ R x y ∧
      List.Forall₂ R after after' := by
  induction before generalizing ys with
  | nil =>
    cases related with
    | @cons _ y _ rest first others => exact ⟨[], y, rest, rfl, .nil, first, others⟩
  | cons head before ih =>
    cases related with
    | @cons _ y _ rest first others =>
      obtain ⟨before', z, after', rfl, earlier, here, later⟩ := ih others
      exact ⟨y :: before', z, after', rfl, .cons first earlier, here, later⟩

namespace Site

/-- A task that has not broken its promise. -/
def Engaged (allowed : List (Happening ω) → {ρ : Type} → ω ρ → Prop) (history : List (Happening ω))
    (task : Script ω μ) (promise : μ → Knowledge ω) : Prop :=
  ∃ k : Knowledge ω, k.holds history ∧ task.Heeds allowed promise k

variable {history : List (Happening ω)}

theorem Engaged.lasts (engaged : Engaged allowed history task promise) :
    Engaged allowed (event :: history) task promise := by
  obtain ⟨k, holds, heeds⟩ := engaged
  exact ⟨k, k.lasts holds, heeds⟩

theorem Engaged.acts (engaged : Engaged allowed history task promise)
    (orderly : Orderly allowed history) (acts : Acts task event task') :
    Engaged allowed (event :: history) task' promise ∧ Orderly allowed (event :: history) := by
  obtain ⟨k, holds, heeds⟩ := engaged
  cases acts with
  | ask => exact ⟨⟨k, k.lasts holds, heeds.2⟩, heeds.1 history holds, orderly⟩
  | @answer _ op next answer =>
    exact ⟨⟨k.and (.happened (.answered op answer)), ⟨k.lasts holds, List.mem_cons_self⟩,
      heeds answer⟩, orderly⟩

/-- Driver, tasks and results are as promised. -/
structure Proper (allowed : List (Happening ω) → {ρ : Type} → ω ρ → Prop) (site : Site ω μ α) :
    Prop where
  driver : ∃ (k : Knowledge ω) (arrived coming : List (μ → Knowledge ω)), k.holds site.history ∧
    Driver.Heeds allowed (fun _ _ _ => True) k (arrived ++ coming) site.driver ∧
    List.Forall₂ (fun message promise => (promise message).holds site.history) site.channel
      arrived ∧
    List.Forall₂ (Engaged allowed site.history) site.tasks coming
  strays : ∀ task ∈ site.strays, ∃ promise, Engaged allowed site.history task promise
  orderly : Orderly allowed site.history

theorem Proper.moves (proper : Proper allowed site) (moves : Moves site site') :
    Proper allowed site' := by
  obtain ⟨⟨k, arrived, coming, holds, heeds, channel, tasks⟩, strays, orderly⟩ := proper
  -- what an event leaves as it is
  have later : ∀ event, k.holds (event :: site.history) ∧
      List.Forall₂ (fun message promise => (promise message).holds (event :: site.history))
        site.channel arrived ∧
      List.Forall₂ (Engaged allowed (event :: site.history)) site.tasks coming ∧
      ∀ task ∈ site.strays, ∃ promise, Engaged allowed (event :: site.history) task promise := by
    intro event
    refine ⟨k.lasts holds, channel.imp fun message promise kept => (promise message).lasts kept,
      tasks.imp fun task promise engaged => engaged.lasts, fun task member => ?_⟩
    obtain ⟨promise, engaged⟩ := strays task member
    exact ⟨promise, engaged.lasts⟩
  cases moves with
  | @ask _ op =>
    obtain ⟨holds', channel', tasks', strays'⟩ := later (.asked op)
    exact ⟨⟨k, arrived, coming, holds', heeds.2, channel', tasks'⟩, strays',
      heeds.1 _ holds, orderly⟩
  | @answer _ op _ _ _ _ _ answer =>
    obtain ⟨holds', channel', tasks', strays'⟩ := later (.answered op answer)
    exact ⟨⟨k.and (.happened (.answered op answer)), arrived, coming, ⟨holds', List.mem_cons_self⟩,
      heeds answer, channel', tasks'⟩, strays', orderly⟩
  | gather =>
    obtain ⟨promises, kept, rest⟩ := heeds
    refine ⟨⟨k, [], promises, holds, rest, .nil,
      kept.imp fun task promise heeds => ⟨k, holds, heeds⟩⟩, ?_, orderly⟩
    intro task member
    obtain recent | older := List.mem_append.mp member
    · obtain ⟨before, after, rfl⟩ := List.append_of_mem recent
      obtain ⟨_, promise, _, _, _, engaged, _⟩ := forall₂_split tasks
      exact ⟨promise, engaged⟩
    · exact strays task older
  | @receive _ _ message =>
    cases channel with
    | @cons _ promise _ rest kept channel =>
      exact ⟨⟨k.and (promise message), rest, coming, ⟨holds, kept⟩,
        heeds promise _ (.refl _) message, channel, tasks⟩, strays, orderly⟩
  | @task _ _ _ event _ _ _ _ _ acts =>
    obtain ⟨before', promise, after', rfl, earlier, engaged, others⟩ := forall₂_split tasks
    obtain ⟨engaged', orderly'⟩ := engaged.acts orderly acts
    obtain ⟨holds', channel', _, strays'⟩ := later event
    refine ⟨⟨k, arrived, _, holds', heeds, channel', List.rel_append ?_ (.cons engaged' ?_)⟩,
      strays', orderly'⟩
    · exact earlier.imp fun task promise engaged => engaged.lasts
    · exact others.imp fun task promise engaged => engaged.lasts
  | deliver =>
    obtain ⟨before', promise, after', rfl, earlier, ⟨known, holdsKnown, kept⟩, others⟩ :=
      forall₂_split tasks
    refine ⟨⟨k, arrived ++ [promise], before' ++ after', holds,
      heeds.perm (fun _ _ _ _ _ _ => trivial) ?_, ?_, ?_⟩, strays, orderly⟩
    · rw [List.append_assoc]
      exact (List.perm_middle).append_left arrived
    · exact List.rel_append channel (.cons (kept _ holdsKnown) .nil)
    · exact List.rel_append earlier others
  | @stray _ _ _ before task event task' after _ acts =>
    obtain ⟨promise, engaged⟩ := strays task (by simp)
    obtain ⟨engaged', orderly'⟩ := engaged.acts orderly acts
    obtain ⟨holds', channel', tasks', strays'⟩ := later event
    refine ⟨⟨k, arrived, coming, holds', heeds, channel', tasks'⟩, fun other member => ?_, orderly'⟩
    obtain rfl | elsewhere : other = task' ∨ other ∈ before ++ task :: after := by
      simp only [List.mem_append, List.mem_cons] at member ⊢
      tauto
    · exact ⟨promise, engaged'⟩
    · exact strays' other elsewhere

/-- A driver that heeds what is allowed does so whenever its tasks act. -/
theorem orderly_of_heeds {driver : Driver ω μ α}
    (heeds : Driver.Heeds allowed post .nothing [] driver) (run : Reaches (.start driver) site) :
    Orderly allowed site.history := by
  have proper : Proper allowed site := by
    induction run with
    | refl =>
      exact ⟨⟨.nothing, [], [], trivial, heeds.imp fun _ _ _ _ _ => trivial, .nil, .nil⟩,
        by simp [start], trivial⟩
    | tail _ last ih => exact ih.moves last
  exact proper.orderly

end Site

section
variable {ω : Type → Type} {μ α γ : Type} (fine : Happening ω → Prop)
    (wanted : {ρ : Type} → ω ρ → Prop)

/-- The script can come to the result, if it is answered in such a way. -/
def Script.Ends : Script ω α → α → Prop
  | .done result, a => result = a
  | .call op next, a | .await op next, a =>
    ∃ answer, fine (.answered op answer) ∧ (next answer).Ends a

/-- The script can come to ask such a question. -/
def Script.Asks : Script ω α → Prop
  | .done _ => False
  | .call op next => wanted op ∨ ∃ answer, fine (.answered op answer) ∧ (next answer).Asks
  | .await op next => ∃ answer, fine (.answered op answer) ∧ (next answer).Asks

/-- The driver can come to the goal with the messages of a channel when its tasks run as soon as
they are started, unless one of them can ask such a question. -/
def Driver.May (goal : α → List μ → Prop) : Driver ω μ α → List μ → Prop
  | .done result, channel => goal result channel
  | .call (.ask op) next, channel | .await (.ask op) next, channel =>
    ∃ answer, fine (.answered op answer) ∧ Driver.May goal (next answer) channel
  | .call (.gather tasks) next, _ => (∃ task ∈ tasks, task.Asks fine wanted) ∨
      ∃ messages, List.Forall₂ (Script.Ends fine) tasks messages ∧
        Driver.May goal (next ()) messages
  | .call .receive next, channel =>
    ∃ message rest, channel = message :: rest ∧ Driver.May goal (next message) rest
  | .await (.gather _) _, _ | .await .receive _, _ => False

variable {fine wanted}

theorem Script.Ends.ask_bind {op : ω ρ} {f : ρ → Script ω α} (answer : ρ)
    (good : fine (.answered op answer))
    (rest : (f answer).Ends fine a) : (Script.ask op >>= f).Ends fine a := ⟨answer, good, rest⟩

theorem Driver.May.bind
    (first : Driver.May fine wanted goal p channel)
    (second : ∀ a channel, goal a channel → Driver.May fine wanted goal' (f a) channel) :
    Driver.May fine wanted goal' (p >>= f) channel := by
  induction p generalizing channel with
  | done result => exact second result channel first
  | call op next ih =>
    cases op with
    | ask op =>
      obtain ⟨answer, good, rest⟩ := first
      exact ⟨answer, good, ih answer rest⟩
    | gather tasks =>
      exact first.imp_right fun ⟨messages, ended, rest⟩ => ⟨messages, ended, ih () rest⟩
    | receive =>
      obtain ⟨message, others, rfl, rest⟩ := first
      exact ⟨message, others, rfl, ih message rest⟩
  | await op next ih =>
    cases op with
    | ask op =>
      obtain ⟨answer, good, rest⟩ := first
      exact ⟨answer, good, ih answer rest⟩
    | gather tasks | receive => exact first.elim

namespace Site
variable {driver : Driver ω μ α} {channel : List μ} {strays : List (Script ω μ)}
    {history : List (Happening ω)}
  (asks : ∀ {ρ : Type} (op : ω ρ), fine (.asked op)) (fair : ∀ event ∈ history, fine event)
include asks fair

theorem reaches_of_ends (ends : task.Ends fine message) :
    ∃ history', (∀ event ∈ history', fine event) ∧
    Reaches ⟨driver, task :: after, channel, strays, history⟩
      ⟨driver, .done message :: after, channel, strays, history'⟩ := by
  induction task generalizing history with
  | done result =>
    obtain rfl := ends
    exact ⟨history, fair, .refl⟩
  | call op next ih =>
    obtain ⟨answer, good, ends⟩ := ends
    obtain ⟨history', fair', run⟩ :=
      @ih answer (.answered op answer :: .asked op :: history) (by simp_all) ends
    exact ⟨history', fair', .head (@Moves.task _ _ _ _ [] _ _ _ _ _ _ _ .ask)
      (.head (@Moves.task _ _ _ _ [] _ _ _ _ _ _ _ (.answer answer)) run)⟩
  | await op next ih =>
    obtain ⟨answer, good, ends⟩ := ends
    obtain ⟨history', fair', run⟩ := @ih answer (.answered op answer :: history) (by simp_all) ends
    exact ⟨history', fair', .head (@Moves.task _ _ _ _ [] _ _ _ _ _ _ _ (.answer answer)) run⟩

theorem reaches_of_endAll {tasks : List (Script ω μ)}
    (ended : List.Forall₂ (Script.Ends fine) tasks messages) :
    ∃ history', (∀ event ∈ history', fine event) ∧ Reaches ⟨driver, tasks, channel, strays, history⟩
      ⟨driver, [], channel ++ messages, strays, history'⟩ := by
  induction ended generalizing channel history with
  | nil => exact ⟨history, fair, by simpa using Relation.ReflTransGen.refl⟩
  | @cons task message tasks messages first rest ih =>
    obtain ⟨history₁, fair₁, run₁⟩ := reaches_of_ends asks fair first
    obtain ⟨history₂, fair₂, run₂⟩ := @ih (channel ++ [message]) history₁ fair₁
    refine ⟨history₂, fair₂, run₁.trans (.head (@Moves.deliver _ _ _ _ [] _ _ _ _ _) ?_)⟩
    simpa using run₂

omit asks fair in
/-- From here, such a question can be asked after a fair history. -/
def Strikes (fine : Happening ω → Prop) (wanted : {ρ : Type} → ω ρ → Prop)
    (site : Site ω μ α) : Prop :=
  ∃ site' ρ, ∃ (op : ω ρ) (history : List (Happening ω)), Reaches site site' ∧
    site'.history = .asked op :: history ∧ wanted op ∧ ∀ event ∈ history, fine event

omit asks fair in
theorem Strikes.after (strikes : Strikes fine wanted site') (run : Reaches site site') :
    Strikes fine wanted site := by
  obtain ⟨last, ρ, op, history, run', found⟩ := strikes
  exact ⟨last, ρ, op, history, run.trans run', found⟩

theorem strikes_of_asks (comes : task.Asks fine wanted) :
    Strikes fine wanted ⟨driver, before ++ task :: after, channel, strays, history⟩ := by
  induction task generalizing history with
  | done result => exact comes.elim
  | call op next ih =>
    have asked : Reaches ⟨driver, before ++ .call op next :: after, channel, strays, history⟩
        ⟨driver, before ++ .await op next :: after, channel, strays, .asked op :: history⟩ :=
          .single (.task .ask)
    obtain now | ⟨answer, good, later⟩ := comes
    · exact ⟨_, _, op, history, asked, rfl, now, fair⟩
    · exact (ih answer (by simp_all) later).after (asked.tail (.task (.answer answer)))
  | await op next ih =>
    obtain ⟨answer, good, later⟩ := comes
    exact (ih answer (by simp_all) later).after (.single (.task (.answer answer)))

theorem strikes_of_may (may : Driver.May fine wanted (fun _ _ => False) driver channel) :
    Strikes fine wanted ⟨driver, [], channel, strays, history⟩ := by
  induction driver generalizing channel strays history with
  | done result => exact may.elim
  | call op next ih =>
    cases op with
    | ask op =>
      obtain ⟨answer, good, may⟩ := may
      exact (ih answer (by simp_all) may).after (.head .ask (.single (.answer answer)))
    | gather tasks =>
      refine Strikes.after ?_ (.single .gather)
      obtain ⟨task, member, comes⟩ | ⟨messages, ended, may⟩ := may
      · obtain ⟨before, after, rfl⟩ := List.append_of_mem member
        exact strikes_of_asks asks fair comes
      · obtain ⟨history', fair', run⟩ := reaches_of_endAll asks fair ended
        exact (ih () fair' may).after run
    | receive =>
      obtain ⟨message, rest, rfl, may⟩ := may
      exact (ih message fair may).after (.single .receive)
  | await op next ih =>
    cases op with
    | ask op =>
      obtain ⟨answer, good, may⟩ := may
      exact (ih answer (by simp_all) may).after (.single (.answer answer))
    | gather tasks | receive => exact may.elim

end Site
end
end
