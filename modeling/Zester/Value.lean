import Mathlib.Data.List.AList
import Mathlib.Data.List.Sort
import Mathlib.Data.String.Basic

/-! Values as the YAML decoder hands them to the program in place of `any`. -/
namespace Zester

/-- A `map[string]β`. -/
abbrev Table (β : Type*) := AList fun _ : String => β

/-- A decoded value. A map lists its entries in the order in which a loop over
the map visits them; `other` is a scalar of a type no function looks into
(a float, a timestamp), known by its printed text; `keyed` is a `map[any]any`, which
a mapping with a key that is no string becomes, with its printed text. -/
inductive Value where
  | null
  | bool (b : Bool)
  | int (n : Int)
  | str (s : String)
  | other (text : String)
  | list (items : List Value)
  | map (entries : List (String × Value))
  | keyed (text : String) (entries : List (Value × Value))
  deriving Inhabited

abbrev Entries := List (String × Value)

namespace Value

mutual

/-- The text of `fmt.Sprintf("%v", v)`: maps print their keys in order. -/
def sprint : Value → String
  | .null => "<nil>"
  | .bool b => toString b
  | .int n => toString n
  | .str s => s
  | .other text | .keyed text _ => text
  | .list items => "[" ++ String.intercalate " " (sprintItems items) ++ "]"
  | .map entries =>
    let fields := (sprintEntries entries).insertionSort (fun a b => a.1 ≤ b.1)
    "map[" ++ String.intercalate " " (fields.map fun field => field.1 ++ ":" ++ field.2) ++ "]"

def sprintItems : List Value → List String
  | [] => []
  | item :: items => sprint item :: sprintItems items

def sprintEntries : List (String × Value) → List (String × String)
  | [] => []
  | (key, value) :: entries => (key, sprint value) :: sprintEntries entries

end

/-- A step into a value: to the entry of a map, or to the item of a list or the entry
of a `map[any]any` by its place. -/
inductive Step where
  | field (key : String)
  | index (i : Nat)
  deriving DecidableEq, Repr

abbrev Path := List Step

/-- What a value shows at its top: a scalar, or the kind of collection it is. -/
inductive Shape where
  | scalar (v : Value)
  | list (length : Nat)
  | map
  | keyed (keys : List Value)

def shape : Value → Shape
  | .list items => .list items.length
  | .map _ => .map
  | .keyed _ entries => .keyed (entries.map Prod.fst)
  | v => .scalar v

/-- What a value shows at a path. -/
def observe : Value → Path → Option Shape
  | v, [] => some v.shape
  | .map entries, .field key :: rest => (entries.lookup key).bind fun v => v.observe rest
  | .list items, .index i :: rest => items[i]?.bind fun v => v.observe rest
  | .keyed _ entries, .index i :: rest => entries[i]?.bind fun entry => entry.2.observe rest
  | _, _ :: _ => none

/-- Deep equality: the entries of a map have no order. -/
def Same (v w : Value) : Prop := ∀ path, v.observe path = w.observe path

end Value
end Zester
