import Mathlib.Data.List.Infix
import Mathlib.Data.List.Dedup

/-! A revisioned key-value bucket, kept as the log of its messages. The revision
of an entry is the place of its message in the log, so an entry that still has an
old revision was not written since. -/

/-- A message of the log; one without a value marks the deletion of its key. -/
structure Message (κ β : Type) where
  key : κ
  value : Option β
  deriving DecidableEq, Repr

@[ext] structure Entry (β : Type) where
  value : β
  revision : Nat
  deriving DecidableEq, Repr

/-- The messages of a bucket, newest first. -/
structure Bucket (κ β : Type) where
  log : List (Message κ β)
  deriving DecidableEq, Repr

namespace Bucket
open List
variable {log : List (Message κ β)}

def empty : Bucket κ β := ⟨[]⟩

def revision (b : Bucket κ β) : Nat := b.log.length

def write (b : Bucket κ β) (key : κ) (value : Option β) : Bucket κ β := ⟨⟨key, value⟩ :: b.log⟩

/-- `b'` comes after `b`: its log continues that of `b`. -/
instance : LE (Bucket κ β) := ⟨fun b b' => b.log <:+ b'.log⟩

@[refl] theorem le_refl (b : Bucket κ β) : b ≤ b := suffix_refl b.log

theorem le_trans {b₁ b₂ b₃ : Bucket κ β} (first : b₁ ≤ b₂) (second : b₂ ≤ b₃) : b₁ ≤ b₃ :=
  IsSuffix.trans first second

theorem le_write (b : Bucket κ β) (key : κ) (value : Option β) : b ≤ b.write key value :=
  suffix_cons _ _

theorem revision_mono {b b' : Bucket κ β} (later : b ≤ b') : b.revision ≤ b'.revision :=
  IsSuffix.length_le later

/-- The value was stored under the key at some time. -/
def Logged (b : Bucket κ β) (key : κ) (value : β) : Prop := ⟨key, some value⟩ ∈ b.log

theorem not_logged_empty : ¬ (empty : Bucket κ β).Logged key value :=
  not_mem_nil

theorem Logged.mono {b b' : Bucket κ β} (logged : b.Logged key value) (later : b ≤ b') :
    b'.Logged key value :=
  IsSuffix.mem logged later

@[simp] theorem logged_write {b : Bucket κ β} :
    (b.write key value).Logged k v ↔ (k = key ∧ value = some v) ∨ b.Logged k v := by
  simp [Logged, write, eq_comm]

theorem write_inj {b : Bucket κ β}
    (same : b.write key value = b.write key' value') : key = key' ∧ value = value' := by
  simpa [write] using same

theorem write_ne (b : Bucket κ β) (key : κ) (value : Option β) : b.write key value ≠ b := by
  intro same
  have longer := congrArg revision same
  simp [revision, write] at longer

/-- The messages that came after `b`. -/
def since (b b' : Bucket κ β) : List (Message κ β) := b'.log.take (b'.revision - b.revision)

@[simp] theorem since_self (b : Bucket κ β) : b.since b = [] := by simp [since]

@[simp] theorem since_write (b : Bucket κ β) (key : κ) (value : Option β) :
    b.since (b.write key value) = [⟨key, value⟩] := by
  simp [since, revision, write]

section
variable [DecidableEq κ]

/-- The last message for a key, with its revision. -/
def lastOf : List (Message κ β) → κ → Option (Entry (Option β))
  | [], _ => none
  | message :: log, key =>
    if message.key = key then some ⟨message.value, log.length + 1⟩ else lastOf log key

def last (b : Bucket κ β) (key : κ) : Option (Entry (Option β)) := lastOf b.log key

def get (b : Bucket κ β) (key : κ) : Option (Entry β) :=
  (b.last key).bind fun entry => entry.value.map fun value => ⟨value, entry.revision⟩

/-- The keys that hold a value. -/
def keys (b : Bucket κ β) : List κ :=
  (b.log.map Message.key).dedup.filter fun key => (b.get key).isSome

/-- The values stored under a key, newest first. -/
def history (b : Bucket κ β) (key : κ) : List β :=
  b.log.filterMap fun message => if message.key = key then message.value else none

variable {b : Bucket κ β}

@[simp] theorem last_write_self (b : Bucket κ β) (key : κ) (value : Option β) :
    (b.write key value).last key = some ⟨value, b.revision + 1⟩ := by
  simp [last, lastOf, write, revision]

@[simp] theorem last_write_ne (other : k ≠ key) : (b.write key value).last k = b.last k := by
  simp [last, lastOf, write, other.symm]

theorem get_eq_some_iff : b.get key = some e ↔ b.last key = some ⟨some e.value, e.revision⟩ := by
  cases found : b.last key with
  | none => simp [get, found]
  | some message =>
    obtain ⟨value, revision⟩ := message
    cases value <;> simp [get, found, Entry.ext_iff]

@[simp] theorem get_put_self (b : Bucket κ β) (key : κ) (v : β) :
    (b.write key (some v)).get key = some ⟨v, b.revision + 1⟩ := by
  simp [get]

@[simp] theorem get_delete_self (b : Bucket κ β) (key : κ) :
    (b.write key none).get key = none := by
  simp [get]

@[simp] theorem get_write_ne (other : k ≠ key) : (b.write key value).get k = b.get k := by
  simp [get, other]

theorem lastOf_revision (found : lastOf log key = some message) :
    message.revision ≤ log.length := by
  induction log with
  | nil => simp [lastOf] at found
  | cons head log ih =>
    simp only [lastOf] at found
    split at found
    · cases found
      simp
    · exact (ih found).trans (by simp)

theorem last_revision_le (found : b.last key = some message) : message.revision ≤ b.revision :=
  lastOf_revision found

theorem get_revision_le (found : b.get key = some e) : e.revision ≤ b.revision :=
  last_revision_le (get_eq_some_iff.mp found)

/-- A message that was there before is still the same as the last one for its key. -/
theorem last_of_le (later : b ≤ b') (found : b'.last key = some message)
    (old : message.revision ≤ b.revision) : b.last key = some message := by
  obtain ⟨since, split⟩ := later
  obtain ⟨log'⟩ := b'
  simp only at split
  subst split
  simp only [last, revision] at found old ⊢
  induction since with
  | nil => exact found
  | cons head since ih =>
    simp only [cons_append, lastOf] at found
    split at found
    · cases found
      simp only [length_append] at old
      omega
    · exact ih found

theorem get_of_le (later : b ≤ b') (found : b'.get key = some e) (old : e.revision ≤ b.revision) :
    b.get key = some e :=
  get_eq_some_iff.mpr (last_of_le later (get_eq_some_iff.mp found) old)

theorem last_of_write_le {older : Bucket κ β} (later : older.write key value ≤ b) :
    ∃ message, b.last key = some message ∧ older.revision < message.revision := by
  obtain ⟨since, split⟩ := later
  obtain ⟨log⟩ := b
  simp only at split
  subst split
  induction since with
  | nil => exact ⟨_, last_write_self older key value, Nat.lt_succ_self _⟩
  | cons head since ih =>
    simp only [last, cons_append, lastOf]
    split
    · refine ⟨_, rfl, ?_⟩
      simp only [revision, write, length_append, length_cons]
      omega
    · exact ih

theorem get_of_last_revision (later : b ≤ b') (read : b.get key = some e)
    (found : b'.last key = some message)
    (same : message.revision = e.revision) : b'.get key = some e := by
  have old : message.revision ≤ b.revision := same ▸ get_revision_le read
  have before := last_of_le later found old
  rw [get_eq_some_iff] at read ⊢
  rw [found, ← before, read]

theorem lastOf_key_unique (found : lastOf log key = some message)
    (found' : lastOf log k = some message')
    (same : message.revision = message'.revision) : key = k := by
  induction log with
  | nil => simp [lastOf] at found
  | cons head log ih =>
    simp only [lastOf] at found found'
    split at found <;> split at found'
    · rename_i here here'
      exact here.symm.trans here'
    · cases found
      have := lastOf_revision found'
      simp only at same
      omega
    · cases found'
      have := lastOf_revision found
      simp only at same
      omega
    · exact ih found found'

theorem get_key_unique (found : b.get key = some e) (found' : b.get k = some entry)
    (same : e.revision = entry.revision) : key = k :=
  lastOf_key_unique (get_eq_some_iff.mp found) (get_eq_some_iff.mp found') same

theorem lastOf_mem (found : lastOf log key = some message) : ⟨key, message.value⟩ ∈ log := by
  induction log with
  | nil => simp [lastOf] at found
  | cons head log ih =>
    simp only [lastOf] at found
    split at found
    · rename_i here
      cases found
      simp [← here]
    · exact mem_cons_of_mem _ (ih found)

theorem logged_of_get (found : b.get key = some e) : b.Logged key e.value :=
  lastOf_mem (get_eq_some_iff.mp found)

@[simp] theorem mem_keys : key ∈ b.keys ↔ (b.get key).isSome := by
  simp only [keys, mem_filter, mem_dedup, mem_map, and_iff_right_iff_imp]
  intro held
  obtain ⟨e, found⟩ := Option.isSome_iff_exists.mp held
  exact ⟨_, logged_of_get found, rfl⟩

@[simp] theorem history_put_self (b : Bucket κ β) (key : κ) (v : β) :
    (b.write key (some v)).history key = v :: b.history key := by
  simp [history, write]

@[simp] theorem history_delete (b : Bucket κ β) (key k : κ) :
    (b.write key none).history k = b.history k := by
  simp [history, write]

@[simp] theorem history_write_ne (other : k ≠ key) :
    (b.write key value).history k = b.history k := by
  simp [history, write, other.symm]

theorem mem_history : v ∈ b.history key ↔ b.Logged key v := by
  simp only [history, mem_filterMap, Logged]
  constructor
  · rintro ⟨⟨k, w⟩, member, stored⟩
    split at stored
    · rename_i same
      cases same
      cases stored
      exact member
    · cases stored
  · intro logged
    exact ⟨_, logged, by simp⟩

theorem history_of_last_none (none : b.last key = none) : b.history key = [] := by
  obtain ⟨log⟩ := b
  simp only [last, history] at none ⊢
  induction log with
  | nil => rfl
  | cons message log ih =>
    simp only [lastOf] at none
    split at none
    · cases none
    · rename_i other
      simp [other, ih none]

theorem history_of_get (found : b.get key = some e) :
    ∃ before, b.history key = e.value :: before := by
  obtain ⟨log⟩ := b
  have message := get_eq_some_iff.mp found
  clear found
  simp only [last, history] at message ⊢
  induction log with
  | nil => simp [lastOf] at message
  | cons head log ih =>
    simp only [lastOf] at message
    split at message
    · rename_i here
      obtain ⟨stored, -⟩ : head.value = some e.value ∧ _ := by simpa using message
      exact ⟨_, by rw [filterMap_cons, if_pos here, stored]⟩
    · rename_i elsewhere
      simpa [elsewhere] using ih message

end
end Bucket
