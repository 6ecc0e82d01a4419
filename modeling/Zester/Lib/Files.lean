import Mathlib.Logic.Function.Basic

/-! Programs over files. A program is a tree of single file operations; each of them is carried
out on the disk or fails, and one that fails may have harmed the file that it was to change. -/

/-- What the files hold. -/
abbrev Disk (β : Type) := String → Option β

inductive FileError where
  | notExist (text : String)
  | failed (text : String)
  deriving DecidableEq, Repr

def FileError.text : FileError → String
  | .notExist text | .failed text => text

inductive FileOp (β : Type) : Type → Type where
  | read (path : String) : FileOp β β
  | write (path : String) (data : β) (perm : Nat) : FileOp β Unit
  | mkdirAll (path : String) (perm : Nat) : FileOp β Unit
  | remove (path : String) : FileOp β Unit

namespace FileOp

def missing (action path : String) : FileError :=
  .notExist (action ++ " " ++ path ++ ": no such file or directory")

/-- The answer to an operation and the disk after it. -/
def perform : FileOp β ρ → Disk β → Except FileError ρ × Disk β
  | .read path, disk =>
    match disk path with
    | some data => (.ok data, disk)
    | none => (.error (missing "open" path), disk)
  | .write path data _, disk => (.ok (), Function.update disk path (some data))
  | .mkdirAll _ _, disk => (.ok (), disk)
  | .remove path, disk =>
    match disk path with
    | some _ => (.ok (), Function.update disk path none)
    | none => (.error (missing "remove" path), disk)

/-- The file that the operation changes. -/
def target : FileOp β ρ → Option String
  | .write path _ _ | .remove path => some path
  | .read _ | .mkdirAll _ _ => none

inductive Yields (op : FileOp β ρ) (disk : Disk β) : Except FileError ρ → Disk β → Prop where
  | carried : Yields op disk (op.perform disk).1 (op.perform disk).2
  | failed (text : String) {disk' : Disk β}
      (others : ∀ path, op.target ≠ some path → disk' path = disk path) :
      Yields op disk (.error (.failed text)) disk'

theorem Yields.same {op : FileOp β ρ} (reads : op.target = none)
    (yields : op.Yields disk reply disk') : disk' = disk := by
  cases yields with
  | failed text others => exact funext fun path => others path (by simp [reads])
  | carried =>
    cases op with
    | read path => cases held : disk path <;> simp [perform, held]
    | mkdirAll path perm => rfl
    | write path data perm | remove path => cases reads

end FileOp

inductive FileProgram (β α : Type) : Type 1 where
  | done (result : α)
  | call {ρ : Type} (op : FileOp β ρ) (next : Except FileError ρ → FileProgram β α)

namespace FileProgram

def bind : FileProgram β α → (α → FileProgram β γ) → FileProgram β γ
  | .done result, f => f result
  | .call op next, f => .call op fun reply => (next reply).bind f

instance : Monad (FileProgram β) where
  pure := .done
  bind := bind

def op (operation : FileOp β ρ) : FileProgram β (Except FileError ρ) := .call operation .done

inductive Runs : FileProgram β α → Disk β → α → Disk β → Prop where
  | done {result : α} {disk : Disk β} : Runs (.done result) disk result disk
  | call {ρ : Type} {op : FileOp β ρ} {next : Except FileError ρ → FileProgram β α}
      {disk disk' disk'' : Disk β} {reply : Except FileError ρ} {result : α}
      (yields : op.Yields disk reply disk') (rest : Runs (next reply) disk' result disk'') :
      Runs (.call op next) disk result disk''

def run : FileProgram β α → Disk β → α × Disk β
  | .done result, disk => (result, disk)
  | .call op next, disk => (next (op.perform disk).1).run (op.perform disk).2

theorem run_runs (p : FileProgram β α) (disk : Disk β) :
    p.Runs disk (p.run disk).1 (p.run disk).2 := by
  induction p generalizing disk with
  | done result => exact .done
  | call op next ih => exact .call .carried (ih _ _)

@[simp] theorem run_pure (result : α) (disk : Disk β) :
    (pure result : FileProgram β α).run disk = (result, disk) := rfl

@[simp] theorem run_op (operation : FileOp β ρ) (disk : Disk β) :
    (op operation).run disk = operation.perform disk := rfl

@[simp] theorem run_bind (p : FileProgram β α) (f : α → FileProgram β γ) (disk : Disk β) :
    (p >>= f).run disk = (f (p.run disk).1).run (p.run disk).2 := by
  induction p generalizing disk with
  | done result => rfl
  | call op next ih => exact ih _ _

theorem runs_done (runs : Runs (pure result) disk result' disk') :
    result' = result ∧ disk' = disk := by
  cases runs with
  | done => exact ⟨rfl, rfl⟩

theorem runs_bind {p : FileProgram β α} {f : α → FileProgram β γ} {disk disk'' : Disk β}
    {result : γ} (runs : (p >>= f).Runs disk result disk'') :
    ∃ a disk', p.Runs disk a disk' ∧ (f a).Runs disk' result disk'' := by
  induction p generalizing disk with
  | done a => exact ⟨a, disk, .done, runs⟩
  | call op next ih =>
    obtain _ | ⟨yields, rest⟩ := runs
    obtain ⟨a, disk', first, second⟩ := ih _ rest
    exact ⟨a, disk', .call yields first, second⟩

theorem runs_op (runs : (op operation).Runs disk reply disk') :
    operation.Yields disk reply disk' := by
  obtain _ | ⟨yields, rest⟩ := runs
  cases rest with
  | done => exact yields

section
variable {path : String} {disk disk' : Disk β}

/-- A read whose failure the result excludes: the content of the file, or that there is none. -/
theorem runs_read {f : Except FileError β → FileProgram β α}
    (runs : (op (.read path) >>= f).Runs disk result disk')
    (stops : ∀ text, ¬(f (.error (.failed text))).Runs disk result disk') :
    (∃ data, disk path = some data ∧ (f (.ok data)).Runs disk result disk') ∨
      ∃ text, disk path = none ∧ (f (.error (.notExist text))).Runs disk result disk' := by
  obtain ⟨reply, seen, reads, rest⟩ := runs_bind runs
  rw [(runs_op reads).same rfl] at rest
  cases runs_op reads with
  | failed text others => exact absurd rest (stops text)
  | carried =>
    cases held : disk path with
    | some data => exact .inl ⟨data, rfl, by simpa [FileOp.perform, held] using rest⟩
    | none => exact .inr ⟨_, rfl, by simpa [FileOp.perform, held, FileOp.missing] using rest⟩

theorem runs_write {f : Except FileError Unit → FileProgram β α}
    (runs : (op (.write path data perm) >>= f).Runs disk result disk')
    (stops : ∀ err mid, ¬(f (.error err)).Runs mid result disk') :
    (f (.ok ())).Runs (Function.update disk path (some data)) result disk' := by
  obtain ⟨reply, after, writes, rest⟩ := runs_bind runs
  cases runs_op writes with
  | carried => exact rest
  | failed text others => exact absurd rest (stops _ _)

theorem runs_remove {f : Except FileError Unit → FileProgram β α}
    (runs : (op (.remove path) >>= f).Runs disk result disk')
    (stops : ∀ text mid, ¬(f (.error (.failed text))).Runs mid result disk') :
    ∃ reply after, after path = none ∧ (f reply).Runs after result disk' := by
  obtain ⟨reply, after, removes, rest⟩ := runs_bind runs
  cases runs_op removes with
  | failed text others => exact absurd rest (stops _ _)
  | carried =>
    refine ⟨_, _, ?_, rest⟩
    cases held : disk path <;> simp [FileOp.perform, held]

end

end FileProgram
