import Mathlib.Logic.Relation
import Zester.Lib.Bucket

/-! Programs over a shared bucket and their interleavings. A program is a tree of
single bucket operations; any number of programs take their steps in any order,
and an operation may fail before or after it took effect. -/

/-- Why an operation was not carried out, or is not known to be. -/
inductive Refusal where
  | notFound
  | keyExists
  | wrongRevision
  | noKeys
  | failed (text : String)
  deriving DecidableEq, Repr

/-- The operations of a bucket, with the type of their answers. -/
inductive Op (κ β : Type) : Type → Type where
  | get (key : κ) : Op κ β (Entry β)
  | put (key : κ) (value : β) : Op κ β Nat
  /-- Only where the key holds no value. -/
  | create (key : κ) (value : β) : Op κ β Nat
  /-- Only if the last message for the key has the given revision. -/
  | update (key : κ) (value : β) (revision : Nat) : Op κ β Nat
  | delete (key : κ) : Op κ β Unit
  | keys : Op κ β (List κ)

namespace Op

def isWrite : Op κ β ρ → Bool
  | .get _ | .keys => false
  | .put _ _ | .create _ _ | .update _ _ _ | .delete _ => true

/-- The operation may store the value under the key. -/
def Stores (k : κ) (v : β) : Op κ β ρ → Prop
  | .put key value | .create key value | .update key value _ => key = k ∧ value = v
  | .get _ | .delete _ | .keys => False

/-- The operation reads the key. -/
def Gets (k : κ) : Op κ β ρ → Prop
  | .get key => key = k
  | _ => False

/-- The message that the operation may add to the log. -/
def message? : Op κ β ρ → Option (Message κ β)
  | .put key value | .create key value | .update key value _ => some ⟨key, some value⟩
  | .delete key => some ⟨key, none⟩
  | .get _ | .keys => none

variable [DecidableEq κ]

/-- The answer to an operation and the bucket after it. -/
def perform : Op κ β ρ → Bucket κ β → Except Refusal ρ × Bucket κ β
  | .get key, b =>
    (match b.get key with
      | some entry => .ok entry
      | none => .error .notFound, b)
  | .put key value, b => (.ok (b.revision + 1), b.write key (some value))
  | .create key value, b =>
    if (b.get key).isSome then (.error .keyExists, b)
    else (.ok (b.revision + 1), b.write key (some value))
  | .update key value revision, b =>
    if (b.last key).map Entry.revision = some revision then
      (.ok (b.revision + 1), b.write key (some value))
    else (.error .wrongRevision, b)
  | .delete key, b => (.ok (), b.write key none)
  | .keys, b => (if b.keys = [] then .error .noKeys else .ok b.keys, b)

theorem perform_read {op : Op κ β ρ} (read : op.isWrite = false) (b : Bucket κ β) :
    (op.perform b).2 = b := by
  cases op <;> simp_all [perform, isWrite]

theorem perform_eq (op : Op κ β ρ) (b : Bucket κ β) :
    (op.perform b).2 = b ∨ ∃ message ∈ op.message?,
    (op.perform b).2 = b.write message.key message.value := by
  cases op with
  | get key | keys => exact .inl rfl
  | put key value | delete key => exact .inr ⟨_, rfl, rfl⟩
  | create key value | update key value revision =>
    simp only [perform]
    split_ifs <;> simp [message?]

theorem le_perform (op : Op κ β ρ) (b : Bucket κ β) : b ≤ (op.perform b).2 := by
  obtain same | ⟨message, -, same⟩ := op.perform_eq b
  · rw [same]
  · exact same ▸ b.le_write message.key message.value

theorem logged_perform {op : Op κ β ρ}
    (logged : (op.perform b).2.Logged k v) : op.Stores k v ∨ b.Logged k v := by
  obtain same | ⟨message, made, same⟩ := op.perform_eq b <;> rw [same] at logged
  · exact .inr logged
  · cases op <;> cases made <;> simpa [Stores, eq_comm] using logged

theorem stored_of_ok {op : Op κ β ρ}
    (stores : op.Stores k v) (ok : (op.perform b).1 = .ok answer) :
    (op.perform b).2 = b.write k (some v) := by
  cases op with
  | get key | keys | delete key => exact stores.elim
  | put key value =>
    obtain ⟨rfl, rfl⟩ := stores
    rfl
  | create key value | update key value revision =>
    obtain ⟨rfl, rfl⟩ := stores
    simp only [perform] at ok ⊢
    split_ifs at ok ⊢
    rfl

/-- A write that takes effect only under a condition. -/
def Guarded (P : Bucket κ β → Prop) (key : κ) (value : β) (refusal : Refusal)
    (op : Op κ β Nat) : Prop :=
  ∀ b, (P b ∧ op.perform b = (.ok (b.revision + 1), b.write key (some value))) ∨
    (¬ P b ∧ op.perform b = (.error refusal, b))

theorem guarded_create (key : κ) (value : β) :
    Guarded (fun b => b.get key = none) key value .keyExists (.create key value) := by
  intro b
  cases held : b.get key <;> simp [perform, held]

theorem guarded_update (key : κ) (value : β) (revision : Nat) :
    Guarded (fun b => ∃ last, b.last key = some last ∧ last.revision = revision) key value
      .wrongRevision (.update key value revision) := by
  intro b
  simp only [← Option.map_eq_some_iff, perform]
  split
  · exact .inl ⟨‹_›, rfl⟩
  · exact .inr ⟨‹_›, rfl⟩

end Op

/-- A program that ends with a result or continues with the answer to an operation. -/
inductive Program (κ β α : Type) : Type 1 where
  | done (result : α)
  | call {ρ : Type} (op : Op κ β ρ) (next : Except Refusal ρ → Program κ β α)

namespace Program

def bind (p : Program κ β α) (f : α → Program κ β γ) : Program κ β γ :=
  match p with
  | .done result => f result
  | .call op next => .call op fun reply => (next reply).bind f

instance : Monad (Program κ β) where
  pure := .done
  bind := bind

@[simp] theorem pure_eq (a : α) : (pure a : Program κ β α) = .done a := rfl

@[simp] theorem done_bind (a : α) (f : α → Program κ β γ) :
    (Program.done a >>= f : Program κ β γ) = f a := rfl

@[simp] theorem call_bind (op : Op κ β ρ)
    (next : Except Refusal ρ → Program κ β α) (f : α → Program κ β γ) :
    (Program.call op next >>= f : Program κ β γ) = .call op fun reply => next reply >>= f := rfl

theorem bind_assoc (p : Program κ β α) (f : α → Program κ β γ) (g : γ → Program κ β δ) :
    (p >>= f) >>= g = p >>= fun a => f a >>= g := by
  induction p with
  | done result => rfl
  | call op next ih => simp only [call_bind, ih]

/-- Every operation that a program can come to is an allowed one. -/
def Uses (allowed : {ρ : Type} → Op κ β ρ → Prop) : Program κ β α → Prop
  | .done _ => True
  | .call op next => allowed op ∧ ∀ reply, (next reply).Uses allowed

theorem Uses.bind
    {f : α → Program κ β γ} (first : p.Uses allowed) (second : ∀ a, (f a).Uses allowed) :
    (p >>= f).Uses allowed := by
  induction p with
  | done result => exact second result
  | call op next ih => exact ⟨first.1, fun reply => ih reply (first.2 reply)⟩

theorem Uses.imp {p : Program κ β α}
    (uses : p.Uses allowed) (weaker : ∀ {ρ : Type} (op : Op κ β ρ), allowed op → allowed' op) :
    p.Uses allowed' := by
  induction p with
  | done result => trivial
  | call op next ih => exact ⟨weaker op uses.1, fun reply => ih reply (uses.2 reply)⟩

/-- What is left of a program after some answers. -/
inductive LeftOf (p : Program κ β α) : Program κ β α → Prop where
  | whole : LeftOf p p
  | answered {ρ : Type} {op : Op κ β ρ} {next : Except Refusal ρ → Program κ β α}
      (reply : Except Refusal ρ)
      (left : LeftOf p (.call op next)) : LeftOf p (next reply)

theorem Uses.left (uses : p.Uses allowed) (left : LeftOf p q) :
    q.Uses allowed := by
  induction left with
  | whole => exact uses
  | answered reply _ ih => exact ih.2 reply

/-- The program comes to the result with some answers. -/
def MayReturn : Program κ β α → α → Prop
  | .done result, a => result = a
  | .call _ next, a => ∃ reply, (next reply).MayReturn a

theorem mayReturn_bind {p : Program κ β α} {f : α → Program κ β γ} {c : γ} :
    (p >>= f).MayReturn c ↔ ∃ a, p.MayReturn a ∧ (f a).MayReturn c := by
  induction p with
  | done result => simp [MayReturn]
  | call op next ih =>
    simp only [call_bind, MayReturn, ih]
    exact ⟨fun ⟨reply, a, first, rest⟩ => ⟨a, ⟨reply, first⟩, rest⟩,
      fun ⟨a, ⟨reply, first⟩, rest⟩ => ⟨reply, a, first, rest⟩⟩

/-- Whatever the answers, the result is a winning one. -/
def Sure (wins : α → Prop) (p : Program κ β α) : Prop := ∀ a, p.MayReturn a → wins a

/-- The program becomes sure to win only by an operation and an answer that fit. -/
def Pivots (wins : α → Prop) (fits : {ρ : Type} → Op κ β ρ → Except Refusal ρ → Prop) :
    Program κ β α → Prop
  | .done _ => True
  | .call op next => ∀ reply,
      ((next reply).Sure wins → (Program.call op next).Sure wins ∨ fits op reply) ∧
      (next reply).Pivots wins fits

theorem exists_mayReturn (p : Program κ β α) : ∃ a, p.MayReturn a := by
  induction p with
  | done result => exact ⟨result, rfl⟩
  | call op next ih =>
    obtain ⟨a, returned⟩ := ih (.error .notFound)
    exact ⟨a, _, returned⟩

theorem Pivots.of_never
    {p : Program κ β α} (never : ∀ a, p.MayReturn a → ¬ wins a) : p.Pivots wins fits := by
  induction p with
  | done result => trivial
  | call op next ih =>
    intro reply
    have rest : ∀ a, (next reply).MayReturn a → ¬ wins a :=
      fun a returned => never a ⟨reply, returned⟩
    refine ⟨fun sure => ?_, ih reply rest⟩
    obtain ⟨a, returned⟩ := exists_mayReturn (next reply)
    exact absurd (sure a returned) (rest a returned)

theorem sure_call {op : Op κ β ρ} {next : Except Refusal ρ → Program κ β α} :
    (Program.call op next).Sure wins ↔ ∀ reply, (next reply).Sure wins :=
  ⟨fun sure reply a returned => sure a ⟨reply, returned⟩,
    fun sure a ⟨reply, returned⟩ => sure reply a returned⟩

section
variable {g : α → γ} {p : Program κ β α}

theorem sure_map : (p >>= fun a => .done (g a)).Sure wins ↔ p.Sure fun a => wins (g a) := by
  constructor
  · intro sure a returned
    exact sure _ (mayReturn_bind.mpr ⟨a, returned, rfl⟩)
  · intro sure c returned
    obtain ⟨a, came, rfl⟩ := mayReturn_bind.mp returned
    exact sure a came

theorem Pivots.map (pivots : p.Pivots (fun a => wins (g a)) fits) :
    (p >>= fun a => .done (g a)).Pivots wins fits := by
  induction p with
  | done result => trivial
  | call op next ih =>
    intro reply
    refine ⟨fun sure => ?_, ih reply (pivots reply).2⟩
    obtain already | fit := (pivots reply).1 (sure_map.mp sure)
    · exact .inl (sure_map.mpr already)
    · exact .inr fit

end

/-- The program writes nothing, up to a point from which on all its messages fit one choice. -/
def Commits {σ : Type} (fits : σ → Message κ β → Prop) : Program κ β α → Prop
  | .done _ => True
  | .call op next =>
    (∃ choice, (Program.call op next).Uses fun op => ∀ message ∈ op.message?, fits choice message) ∨
    (op.isWrite = false ∧ ∀ reply, (next reply).Commits fits)

section
variable {p : Program κ β α} {f : α → Program κ β γ}

theorem Commits.of_uses (uses : p.Uses fun op => ∀ message ∈ op.message?, fits choice message) :
    p.Commits fits := by
  cases p with
  | done result => trivial
  | call op next => exact .inl ⟨choice, uses⟩

theorem Commits.bind (reads : p.Uses fun op => op.isWrite = false)
    (rest : ∀ a, (f a).Commits fits) : (p >>= f).Commits fits := by
  induction p with
  | done result => exact rest result
  | call op next ih => exact .inr ⟨reads.1, fun reply => ih reply (reads.2 reply)⟩

theorem Commits.imp (commits : p.Commits fits)
    (weaker : ∀ choice message, fits choice message → fits' choice message) : p.Commits fits' := by
  induction p with
  | done result => trivial
  | call op next ih =>
    obtain ⟨choice, uses⟩ | ⟨read, rest⟩ := commits
    · exact .inl ⟨choice, uses.imp fun op fit message own =>
        weaker choice message (fit message own)⟩
    · exact .inr ⟨read, fun reply => ih reply (rest reply)⟩

theorem Commits.map (commits : p.Commits fits) (g : α → γ) :
    (p >>= fun a => .done (g a)).Commits fits := by
  induction p with
  | done result => trivial
  | call op next ih =>
    obtain ⟨choice, uses⟩ | ⟨read, rest⟩ := commits
    · exact .inl ⟨choice, uses.bind fun _ => trivial⟩
    · exact .inr ⟨read, fun reply => ih reply (rest reply)⟩

end

def get (key : κ) : Program κ β (Except Refusal (Entry β)) := .call (.get key) .done
def put (key : κ) (value : β) : Program κ β (Except Refusal Nat) := .call (.put key value) .done
def create (key : κ) (value : β) : Program κ β (Except Refusal Nat) :=
  .call (.create key value) .done
def update (key : κ) (value : β) (revision : Nat) : Program κ β (Except Refusal Nat) :=
  .call (.update key value revision) .done
def delete (key : κ) : Program κ β (Except Refusal Unit) := .call (.delete key) .done
def keys : Program κ β (Except Refusal (List κ)) := .call .keys .done

end Program

section
variable {β : Type} [DecidableEq κ]

/-- The bucket and the result in the end, of a program that has the bucket to itself. -/
def Program.alone (b : Bucket κ β) : Program κ β α → Bucket κ β × α
  | .done result => (b, result)
  | .call op next => (next (op.perform b).1).alone (op.perform b).2

theorem Program.alone_bind (p : Program κ β α) (f : α → Program κ β γ) :
    (p >>= f).alone b = (f (p.alone b).2).alone (p.alone b).1 := by
  induction p generalizing b with
  | done result => rfl
  | call op next ih => exact ih _

theorem Program.mayReturn_alone (p : Program κ β α) : p.MayReturn (p.alone b).2 := by
  induction p generalizing b with
  | done result => exact rfl
  | call op next ih => exact ⟨_, ih _⟩

theorem Program.alone_call {op : Op κ β ρ} {reply : Except Refusal ρ}
    (answers : op.perform b = (reply, b'))
    (f : Except Refusal ρ → Program κ β γ) :
    (Program.call op .done >>= f).alone b = (f reply).alone b' := by
  show (f (op.perform b).1).alone (op.perform b).2 = _
  rw [answers]

theorem Program.alone_get_bind (held : b.get key = some entry)
    (f : Except Refusal (Entry β) → Program κ β γ) :
    (Program.get key >>= f).alone b = (f (.ok entry)).alone b :=
  alone_call (by rw [Op.perform, held]) f

theorem Program.alone_get_bind_none (missing : b.get key = none)
    (f : Except Refusal (Entry β) → Program κ β γ) :
    (Program.get key >>= f).alone b = (f (.error .notFound)).alone b :=
  alone_call (by rw [Op.perform, missing]) f

theorem Program.alone_create_bind (free : b.get key = none) (value : β)
    (f : Except Refusal Nat → Program κ β γ) :
    (Program.create key value >>= f).alone b =
    (f (.ok (b.revision + 1))).alone (b.write key (some value)) :=
  alone_call (by simp [Op.perform, free]) f

theorem Program.alone_create_bind_held (held : b.get key = some entry) (value : β)
    (f : Except Refusal Nat → Program κ β γ) :
    (Program.create key value >>= f).alone b = (f (.error .keyExists)).alone b :=
  alone_call (by simp [Op.perform, held]) f

theorem Program.alone_update_bind (held : b.get key = some entry) (value : β)
    (f : Except Refusal Nat → Program κ β γ) :
    (Program.update key value entry.revision >>= f).alone b =
      (f (.ok (b.revision + 1))).alone (b.write key (some value)) :=
  alone_call (by simp [Op.perform, Bucket.get_eq_some_iff.mp held]) f

theorem Program.alone_delete_bind (key : κ) (f : Except Refusal Unit → Program κ β γ) :
    (Program.delete key >>= f).alone b = (f (.ok ())).alone (b.write key none) := rfl

theorem Program.alone_keys_bind (some : b.keys ≠ []) (f : Except Refusal (List κ) → Program κ β γ) :
    (Program.keys >>= f).alone b = (f (.ok b.keys)).alone b :=
  alone_call (by rw [Op.perform, if_neg some]) f

theorem Program.alone_keys_bind_nil (none : b.keys = [])
    (f : Except Refusal (List κ) → Program κ β γ) :
    (Program.keys >>= f).alone b = (f (.error .noKeys)).alone b :=
  alone_call (by rw [Op.perform, if_pos none]) f

end

/-- What may happen around the operations of a program: in which buckets they are
made, and which of them may fail. -/
structure Regime (κ β : Type) where
  permits : {ρ : Type} → Bucket κ β → Op κ β ρ → Prop
  fails : {ρ : Type} → Op κ β ρ → Prop

namespace Regime

/-- Nothing is excluded. -/
def anything : Regime κ β := ⟨fun _ _ => True, fun _ => True⟩

abbrev Permissive (regime : Regime κ β) : Prop :=
  ∀ {ρ : Type} (b : Bucket κ β) (op : Op κ β ρ), regime.permits b op

/-- Reads are always answered. -/
def failingWrites : Regime κ β := ⟨fun _ _ => True, fun op => op.isWrite = true⟩

variable [DecidableEq κ] (regime : Regime κ β)

/-- An operation is carried out, or fails; one that fails may still have taken effect. -/
def Yields {ρ : Type} (op : Op κ β ρ) (b : Bucket κ β) (reply : Except Refusal ρ)
    (b' : Bucket κ β) : Prop :=
  (reply = (op.perform b).1 ∧ b' = (op.perform b).2) ∨
    (regime.fails op ∧ (∃ text, reply = .error (.failed text)) ∧ (b' = b ∨ b' = (op.perform b).2))

variable {regime}

theorem Yields.effect {op : Op κ β ρ} {reply : Except Refusal ρ}
    (yields : regime.Yields op b reply b') : b' = b ∨ b' = (op.perform b).2 := by
  obtain ⟨-, rfl⟩ | ⟨-, -, same⟩ := yields
  · exact .inr rfl
  · exact same

theorem Yields.written {op : Op κ β ρ} {reply : Except Refusal ρ}
    (yields : regime.Yields op b reply b') :
    b' = b ∨ ∃ message ∈ op.message?, b' = b.write message.key message.value := by
  obtain same | rfl := yields.effect
  · exact .inl same
  · exact op.perform_eq b

theorem Yields.le {op : Op κ β ρ} {reply : Except Refusal ρ}
    (yields : regime.Yields op b reply b') : b ≤ b' := by
  obtain rfl | rfl := yields.effect
  · exact Bucket.le_refl _
  · exact op.le_perform b

theorem Yields.read {op : Op κ β ρ} {reply : Except Refusal ρ}
    (yields : regime.Yields op b reply b') (read : op.isWrite = false) : b' = b := by
  obtain rfl | rfl := yields.effect
  · rfl
  · exact Op.perform_read read b

theorem Yields.stored {op : Op κ β ρ} {answer : ρ}
    (yields : regime.Yields op b (.ok answer) b') (stores : op.Stores k v) :
    b' = b.write k (some v) := by
  obtain ⟨ok, rfl⟩ | ⟨-, ⟨text, failed⟩, -⟩ := yields
  · exact Op.stored_of_ok stores ok.symm
  · cases failed

theorem Yields.found (yields : regime.Yields (.get key) b (.ok entry) b') :
    b.get key = some entry := by
  obtain ⟨same, -⟩ | ⟨-, ⟨text, failed⟩, -⟩ := yields
  · simp only [Op.perform] at same
    split at same <;> cases same
    assumption
  · cases failed

theorem Yields.put (yields : regime.Yields (.put key value) b reply b') :
    b' = b ∨ b' = b.write key (some value) :=
  yields.effect

theorem Yields.guarded (guarded : op.Guarded P key value refusal)
    (yields : regime.Yields op b reply b') :
    ((∃ refused, reply = .error refused) ∧ b' = b) ∨
      ((reply = .ok (b.revision + 1) ∨ ∃ refused, reply = .error refused) ∧ P b ∧
        b' = b.write key (some value)) := by
  unfold Yields at yields
  obtain ⟨holds, same⟩ | ⟨-, same⟩ := guarded b <;> rw [same] at yields
  · obtain ⟨rfl, rfl⟩ | ⟨-, ⟨text, rfl⟩, rfl | rfl⟩ := yields
    · exact .inr ⟨.inl rfl, holds, rfl⟩
    · exact .inl ⟨⟨_, rfl⟩, rfl⟩
    · exact .inr ⟨.inr ⟨_, rfl⟩, holds, rfl⟩
  · obtain ⟨rfl, rfl⟩ | ⟨-, ⟨text, rfl⟩, rfl | rfl⟩ := yields <;> exact .inl ⟨⟨_, rfl⟩, rfl⟩

theorem Yields.delete (yields : regime.Yields (.delete key) b reply b') :
    b' = b ∨ b' = b.write key none :=
  yields.effect

variable (regime)

inductive Step {α : Type} : Bucket κ β × Program κ β α → Bucket κ β × Program κ β α → Prop where
  | call {ρ : Type} {op : Op κ β ρ} {next : Except Refusal ρ → Program κ β α}
      {b b' : Bucket κ β} {reply : Except Refusal ρ} (permitted : regime.permits b op)
      (yields : regime.Yields op b reply b') : Step (b, .call op next) (b', next reply)

variable {regime}

theorem Step.le (step : regime.Step start final) : start.1 ≤ final.1 := by
  cases step with
  | call _ yields => exact yields.le

variable (regime)

abbrev Runs {α : Type} : Bucket κ β × Program κ β α → Bucket κ β × Program κ β α → Prop :=
  Relation.ReflTransGen regime.Step

end Regime

/-- A bucket and the programs that work on it. -/
structure System (ι κ β : Type) (α : ι → Type) where
  bucket : Bucket κ β
  programs : (i : ι) → Program κ β (α i)

namespace System
variable [DecidableEq ι] [DecidableEq κ]

/-- One of the programs makes a step. -/
inductive Moves (regime : Regime κ β) : System ι κ β α → System ι κ β α → Prop where
  | step {s : System ι κ β α} (i : ι) {b' : Bucket κ β} {p' : Program κ β (α i)}
      (step : regime.Step (s.bucket, s.programs i) (b', p')) :
      Moves regime s ⟨b', Function.update s.programs i p'⟩

abbrev Reaches (regime : Regime κ β) : System ι κ β α → System ι κ β α → Prop :=
  Relation.ReflTransGen (Moves regime)

end System

/-- What becomes of a write. -/
inductive Luck where
  | served
  | lost (text : String)
  | unacknowledged (text : String)
  deriving DecidableEq, Repr

section
variable {ι κ β : Type} [DecidableEq ι] [DecidableEq κ] {α : ι → Type} {γ : Type}

/-- The next operation of a program, with the given luck if it is a write. -/
def Program.advance (luck : Luck) (b : Bucket κ β) :
    Program κ β γ → Bucket κ β × Program κ β γ
  | .done result => (b, .done result)
  | .call op next =>
    match op.isWrite, luck with
    | true, .lost text => (b, next (.error (.failed text)))
    | true, .unacknowledged text => ((op.perform b).2, next (.error (.failed text)))
    | _, _ => ((op.perform b).2, next (op.perform b).1)

/-- The operations of a program, one after the other. -/
def Program.play (b : Bucket κ β) (p : Program κ β γ) : List Luck → Bucket κ β × Program κ β γ
  | [] => (b, p)
  | luck :: script => play (p.advance luck b).1 (p.advance luck b).2 script

/-- The next operation of one of the programs. -/
def System.turn (s : System ι κ β α) (i : ι) (luck : Luck) : System ι κ β α :=
  let after := (s.programs i).advance luck s.bucket
  ⟨after.1, Function.update s.programs i after.2⟩

/-- The operations of the programs in the order of a script. -/
def System.play (s : System ι κ β α) : List (ι × Luck) → System ι κ β α
  | [] => s
  | (i, luck) :: script => (s.turn i luck).play script

/-- The next operation of a program is one that the regime permits. -/
def Program.Permitted (regime : Regime κ β) (b : Bucket κ β) : Program κ β γ → Prop
  | .done _ => True
  | .call op _ => regime.permits b op

/-- The regime permits every operation of the script. -/
def System.Permitted (regime : Regime κ β) (s : System ι κ β α) : List (ι × Luck) → Prop
  | [] => True
  | (i, luck) :: script =>
    (s.programs i).Permitted regime s.bucket ∧ (s.turn i luck).Permitted regime script

variable {regime : Regime κ β}

omit [DecidableEq κ] in
theorem Program.permitted_of (permits : regime.Permissive) (b : Bucket κ β) (p : Program κ β γ) :
    p.Permitted regime b := by
  cases p with
  | done result => exact trivial
  | call op next => exact permits b op

theorem System.permitted_of (permits : regime.Permissive) (s : System ι κ β α)
    (script : List (ι × Luck)) : s.Permitted regime script := by
  induction script generalizing s with
  | nil => exact trivial
  | cons turn script ih => exact ⟨Program.permitted_of permits _ _, ih _⟩

variable (fails : ∀ {ρ : Type} (op : Op κ β ρ), op.isWrite = true → regime.fails op)
include fails

theorem Program.advance_step (luck : Luck) (permitted : p.Permitted regime b) :
    p.advance luck b = (b, p) ∨ regime.Step (b, p) (p.advance luck b) := by
  cases p with
  | done result => exact .inl rfl
  | call op next =>
    refine .inr ?_
    have served : regime.Step (b, .call op next) ((op.perform b).2, next (op.perform b).1) :=
      .call permitted (.inl ⟨rfl, rfl⟩)
    simp only [Program.advance]
    cases write : op.isWrite with
    | false => exact served
    | true =>
      cases luck with
      | served => exact served
      | lost text => exact .call permitted (.inr ⟨fails op write, ⟨_, rfl⟩, .inl rfl⟩)
      | unacknowledged text =>
        exact .call permitted (.inr ⟨fails op write, ⟨_, rfl⟩, .inr rfl⟩)

theorem Program.play_runs (permits : regime.Permissive) (b : Bucket κ β) (p : Program κ β γ)
    (script : List Luck) : regime.Runs (b, p) (p.play b script) := by
  induction script generalizing b p with
  | nil => exact .refl
  | cons luck script ih =>
    obtain stays | moves := advance_step fails luck (permitted_of permits b p)
    · rw [Program.play, stays]
      exact ih b p
    · exact .head moves (ih _ _)

theorem System.play_reaches (s : System ι κ β α) (script : List (ι × Luck))
    (permitted : s.Permitted regime script) : s.Reaches regime (s.play script) := by
  induction script generalizing s with
  | nil => exact .refl
  | cons turn script ih =>
    obtain ⟨i, luck⟩ := turn
    obtain stays | moves := Program.advance_step fails luck permitted.1
    · rw [System.play]
      have rest := ih _ permitted.2
      rw [System.turn, stays, Function.update_eq_self] at rest ⊢
      exact rest
    · exact .head (.step i moves) (ih _ permitted.2)

end
