import Zester.Value

/-! Requisite declarations: the key tables of `reserved.go`, the parser of
requisite values and the lists a state carries. -/
namespace Zester.States

/-- A configuration map, such as one item of a state's argument list. -/
abbrev Config := Table Value

namespace Config

/-- `config[key]`: an absent key reads as nil. -/
def read (config : Config) (key : String) : Value := (config.lookup key).getD .null

def ofList (entries : Entries) : Config :=
  entries.foldr (fun entry config => AList.insert entry.1 entry.2 config) ∅

end Config

/-- The same-state declarations `ParseRequisites` reads, in the order of the
fields they fill. -/
def requisiteKeys : List String := ["require", "watch", "onchanges", "onfail"]

def compilerKeys : List String :=
  ["names", "listen", "listen_in", "require_in", "watch_in", "onchanges_in", "onfail_in",
    "prereq_in"]

def saltShorthandMap : List (String × String) :=
  [("pkg", "pkg.installed"), ("file", "file.managed"), ("service", "service.running"),
    ("cmd", "cmd.run"), ("user", "user.present"), ("group", "group.present")]

/-- Unknown modules pass through as they are. -/
def fullModule (mod : String) : String := (saltShorthandMap.lookup mod).getD mod

/-- One entry of a requisite list: a reference as it stands, or the module and
id pairs of a map. Entries of any other type name nothing. -/
def parseReqEntry : Value → List String
  | .str ref => [ref]
  | .map entries => entries.map fun entry => fullModule entry.1 ++ ":" ++ entry.2.sprint
  | _ => []

def parseReqEntries : Value → List String
  | .null => []
  | .list items => items.flatMap parseReqEntry
  | entry => parseReqEntry entry

structure Requisites where
  require : List String := []
  watch : List String := []
  onChanges : List String := []
  onFail : List String := []
  deriving DecidableEq, Repr, Inhabited

def parseRequisites (config : Config) : Requisites where
  require := parseReqEntries (config.read "require")
  watch := parseReqEntries (config.read "watch")
  onChanges := parseReqEntries (config.read "onchanges")
  onFail := parseReqEntries (config.read "onfail")

namespace Requisites

/-- The loop of `AllDeps`: `deps` holds exactly the names already seen. -/
def noteDep (deps : List String) (d : String) : List String :=
  if d ∈ deps then deps else deps ++ [d]

/-- The union of all requisite lists, each name once. -/
def allDeps (r : Requisites) : List String :=
  (r.require ++ r.watch ++ r.onChanges ++ r.onFail).foldl noteDep []

theorem noteDep_foldl (names deps : List String) (nodup : deps.Nodup) :
    (names.foldl noteDep deps).Nodup ∧
      ∀ d, d ∈ names.foldl noteDep deps ↔ d ∈ deps ∨ d ∈ names := by
  induction names generalizing deps with
  | nil => simpa using nodup
  | cons name names ih =>
    rw [List.foldl_cons]
    have step : (noteDep deps name).Nodup ∧ ∀ d, d ∈ noteDep deps name ↔ d ∈ deps ∨ d = name := by
      unfold noteDep
      split
      · rename_i seen
        exact ⟨nodup, fun d => ⟨.inl, fun h => h.elim id fun same => same ▸ seen⟩⟩
      · rename_i fresh
        exact ⟨nodup.append (by simp) (by simpa using fresh), fun d => by simp⟩
    obtain ⟨unique, members⟩ := ih _ step.1
    refine ⟨unique, fun d => ?_⟩
    rw [members, step.2, List.mem_cons, or_assoc]

theorem allDeps_nodup (r : Requisites) : r.allDeps.Nodup :=
  (noteDep_foldl _ [] List.nodup_nil).1

theorem mem_allDeps {r : Requisites} :
    d ∈ r.allDeps ↔ d ∈ r.require ∨ d ∈ r.watch ∨ d ∈ r.onChanges ∨ d ∈ r.onFail := by
  rw [allDeps, (noteDep_foldl _ [] List.nodup_nil).2]
  simp

end Requisites
end Zester.States
