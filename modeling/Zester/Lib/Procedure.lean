import Mathlib.Logic.Basic

/-! Procedures of atomic actions on a state. An action takes effect as a whole or fails
without any; a crash may come between two of them. -/

inductive Procedure (σ ε α : Type) where
  | done (result : α)
  | act (action : σ → Except ε σ) (next : Except ε Unit → Procedure σ ε α)

namespace Procedure

def bind (p : Procedure σ ε α) (f : α → Procedure σ ε γ) : Procedure σ ε γ :=
  match p with
  | .done result => f result
  | .act action next => .act action fun reply => (next reply).bind f

instance : Monad (Procedure σ ε) where
  pure := .done
  bind := bind

def perform (action : σ → Except ε σ) : Procedure σ ε (Except ε Unit) := .act action .done

@[simp] theorem perform_bind (action : σ → Except ε σ) (f : Except ε Unit → Procedure σ ε α) :
    (perform action >>= f) = .act action f := rfl

@[simp] theorem pure_eq_done (result : α) : (pure result : Procedure σ ε α) = .done result := rfl

def run (s : σ) : Procedure σ ε α → σ × α
  | .done result => (s, result)
  | .act action next =>
    match action s with
    | .ok s' => (next (.ok ())).run s'
    | .error e => (next (.error e)).run s

/-- The state after so many actions, which a crash leaves there. -/
def stopped (s : σ) : Nat → Procedure σ ε α → σ
  | 0, _ => s
  | _ + 1, .done _ => s
  | n + 1, .act action next =>
    match action s with
    | .ok s' => (next (.ok ())).stopped s' n
    | .error e => (next (.error e)).stopped s n

/-- A run in which the action of that number fails, whatever the state. -/
def runFailing (s : σ) (fault : ε) : Nat → Procedure σ ε α → σ × α
  | _, .done result => (s, result)
  | 0, .act _ next => (next (.error fault)).run s
  | n + 1, .act action next =>
    match action s with
    | .ok s' => (next (.ok ())).runFailing s' fault n
    | .error e => (next (.error e)).runFailing s fault n

end Procedure
