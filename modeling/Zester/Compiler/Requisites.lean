import Zester.Lib.Ranging
import Zester.States.Requisites

/-! The rewriting of a compilation. Argument lists are merged by the extend rules and flattened into
the configuration of a state; every `_in` declaration becomes a forward requisite of its target, and
every prereq an ordering of its target. -/
namespace Zester.Compiler
open States

/-- `v.([]any)` with its failure ignored: anything but a list reads as nil. -/
def asList : Value → List Value
  | .list items => items
  | _ => []

/-- The body of both loops of `mergeArgsList`. -/
def mergeEntry (merged : Config) (k : String) (v : Value) : Config :=
  if k ∈ requisiteKeys then
    match merged.lookup k with
    | some existing => merged.insert k (.list (asList existing ++ asList v))
    | none => merged.insert k v
  else
    merged.insert k v

def mergeItem (it : Ranging) (loop : List Nat) (merged item : Config) : Config :=
  (it.order loop item.entries).foldl (fun merged entry => mergeEntry merged entry.1 entry.2) merged

def mergeItems (it : Ranging) (loop : Nat) : Nat → Config → List Config → Config
  | _, merged, [] => merged
  | i, merged, item :: items =>
    mergeItems it loop (i + 1) (mergeItem it [loop, i] merged item) items

/-- The base list alone, then the overlay on top of it. -/
def mergedMap (it : Ranging) (base overlay : List Config) : Config :=
  mergeItems it 1 0 (mergeItems it 0 0 ∅ base) overlay

def mergeArgsList (it : Ranging) (base overlay : List Config) : List Config :=
  (it.order [2] (mergedMap it base overlay).entries).map fun entry =>
    AList.singleton entry.1 entry.2

/-- `maps.Copy(result, item)` for every item: a later item wins. -/
def flattenArgsList (args : List Config) : Config :=
  args.foldl (fun result item => item ∪ result) ∅

structure StateKey where
  id : String
  module : String
  deriving DecidableEq, Repr

namespace StateKey

/-- The reference by which other states name the state. -/
def ref (k : StateKey) : String := k.module ++ ":" ++ k.id

end StateKey

/-- The two nested maps `id → module → args list`, as one map. -/
abbrev MergedStates := AList fun _ : StateKey => List Config

namespace MergedStates

def args (states : MergedStates) (k : StateKey) : List Config := (states.lookup k).getD []

end MergedStates

def inSuffix : String := "_in"

def sameStateAlias : List (String × String) := [("listen", "watch")]

/-- `strings.CutSuffix`. -/
def cutSuffix (s suffix : String) : Option String :=
  if suffix.toList <:+ s.toList then
    some (String.ofList (s.toList.take (s.toList.length - suffix.toList.length)))
  else
    none

def deriveInverseForward : List (String × String) :=
  compilerKeys.filterMap fun k =>
    (cutSuffix k inSuffix).map fun base => (k, (sameStateAlias.lookup base).getD base)

def inverseForward : List (String × String) := deriveInverseForward

/-- The reference is cut at its last colon. -/
def splitRef (ref : String) : Except String StateKey :=
  let backwards := ref.toList.reverse
  match backwards.dropWhile (· ≠ ':') with
  | [] => .error ("requisite target " ++ ref.quote ++ " is not in module:id form")
  | _ :: module =>
    .ok ⟨String.ofList (backwards.takeWhile (· ≠ ':')).reverse, String.ofList module.reverse⟩

def toAnyList : Value → List Value
  | .list items => items
  | .null => []
  | v => [v]

def toAnySlice (refs : List String) : List Value := refs.map .str

/-- The loop of `injectRequisite`: the first map that has the key gets the
references, and a new map does when there is none. -/
def injectArgs (key : String) (refs : List String) : List Config → List Config
  | [] => [AList.singleton key (.list (toAnySlice refs))]
  | arg :: args =>
    match arg.lookup key with
    | some existing => arg.insert key (.list (toAnyList existing ++ toAnySlice refs)) :: args
    | none => arg :: injectArgs key refs args

def injectRequisite (states : MergedStates) (k : StateKey) (key : String) (refs : List String) :
    MergedStates :=
  states.insert k (injectArgs key refs (states.args k))

/-- One alias on the `i`-th argument map: its entry is moved to the new key of
the same state, wherever that key is found first. -/
def aliasArg (i : Nat) (args : List Config) (entry : String × String) : List Config :=
  match args[i]? with
  | none => args
  | some arg =>
    match arg.lookup entry.1 with
    | none => args
    | some v => injectArgs entry.2 (parseReqEntries v) (args.set i (arg.erase entry.1))

def aliasArgs (args : List Config) : List Config :=
  (List.range args.length).foldl (fun args i => sameStateAlias.foldl (aliasArg i) args) args

/-- Step 1. -/
def aliasStates (it : Ranging) (states : MergedStates) : MergedStates :=
  (it.order [0] states.keys).foldl
    (fun states k => states.insert k (aliasArgs (states.args k))) states

/-- A requisite to be injected onto each of its targets. -/
structure Pending where
  fwdKey : String
  srcRef : String
  targets : List String
  deriving DecidableEq, Repr

/-- The innermost loop of step 2: the `_in` keys of one argument map are taken
out of it and noted. -/
def takeInverse (srcRef : String) (taken : Config × List Pending) (entry : String × String) :
    Config × List Pending :=
  match taken.1.lookup entry.1 with
  | some v => (taken.1.erase entry.1, taken.2 ++ [⟨entry.2, srcRef, parseReqEntries v⟩])
  | none => taken

def takeArgs (it : Ranging) (loop : List Nat) (srcRef : String) :
    Nat → List Config → List Config × List Pending
  | _, [] => ([], [])
  | i, arg :: args =>
    let taken := (it.order (i :: loop) inverseForward).foldl (takeInverse srcRef) (arg, [])
    let rest := takeArgs it loop srcRef (i + 1) args
    (taken.1 :: rest.1, taken.2 ++ rest.2)

def takeStates (it : Ranging) : Nat → MergedStates → List StateKey → MergedStates × List Pending
  | _, states, [] => (states, [])
  | i, states, k :: keys =>
    let taken := takeArgs it [i, 1] k.ref 0 (states.args k)
    let rest := takeStates it (i + 1) (states.insert k taken.1) keys
    (rest.1, taken.2 ++ rest.2)

/-- The prereq declarations of all states, as requires of their targets. -/
def prereqOrders (it : Ranging) (states : MergedStates) : List Pending :=
  (it.order [3] states.keys).flatMap fun k =>
    (states.args k).filterMap fun arg =>
      (arg.lookup "prereq").map fun v => ⟨"require", k.ref, parseReqEntries v⟩

def injectTargets (what : String) (fwdKey srcRef : String) :
    MergedStates → List String → Except String MergedStates
  | states, [] => .ok states
  | states, target :: targets =>
    match splitRef target with
    | .error text => .error ("compiler: " ++ what ++ " " ++ target.quote ++ ": " ++ text)
    | .ok k => injectTargets what fwdKey srcRef (injectRequisite states k fwdKey [srcRef]) targets

def injectPending (what : String) : MergedStates → List Pending → Except String MergedStates
  | states, [] => .ok states
  | states, p :: pending => do
    injectPending what (← injectTargets what p.fwdKey p.srcRef states p.targets) pending

def transformRequisites (it : Ranging) (states : MergedStates) : Except String MergedStates := do
  let aliased := aliasStates it states
  let taken := takeStates it 0 aliased (it.order [1] aliased.keys)
  let inverted ← injectPending "inverse requisite" taken.1 taken.2
  injectPending "prereq" inverted (prereqOrders it inverted)

end Zester.Compiler
