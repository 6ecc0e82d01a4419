import Zester.Compiler.Requisites
import Zester.States.Attributes
import Zester.Text

/-! A compilation from the requested references on. The files are loaded with all that they include,
and their states are merged and extended; in the last part the requisites are rewritten, names lists
are expanded and the states are built. -/
namespace Zester.Compiler
open States

/-- What the expansion reads of a parameter's description. -/
structure Param where
  name : String
  aliases : List String
  primary : Bool
  deriving DecidableEq, Repr

structure ModuleInfo where
  openParams : Bool
  params : List Param
  deriving DecidableEq, Repr

structure Registry where
  builders : String → Option (String → Config → Except String State)
  describe : String → Option ModuleInfo

namespace Registry

def build (r : Registry) (module id : String) (config : Config) : Except String State :=
  match r.builders module with
  | none => .error ("state: unknown module " ++ module.quote)
  | some builder => builder id config

/-- The key that an expanded name is written to, with its aliases. -/
def namesInjectKey (r : Registry) (module : String) : String × List String :=
  match r.describe module with
  | none => ("name", [])
  | some info =>
    if info.openParams then
      ("name", [])
    else
      match info.params.find? (·.primary) with
      | some param => (param.name, param.aliases)
      | none => ("name", [])

def buildOne (r : Registry) (floats : Floats) (module id : String) (config : Config) :
    Except String State := do
  let s ← r.build module id config
  return wrapAttributes s (parseStateAttributes floats config)

end Registry

def deriveNamesKey : String :=
  (compilerKeys.find? fun k => (cutSuffix k inSuffix).isNone ∧
    (sameStateAlias.lookup k).isNone).getD ""

def namesKey : String := deriveNamesKey

def expandNames (config : Config) : Option (List String) :=
  match config.lookup namesKey with
  | none => none
  | some v =>
    let names := parseNameList v
    if names = [] then none else some names

def nameInstance (inject : String × List String) (config : Config) (name : String) : Config :=
  let cleared :=
    inject.2.foldl (fun config key => config.erase key) ((config.erase namesKey).erase inject.1)
  cleared.insert inject.1 (.str name)

def buildEntry (r : Registry) (floats : Floats) (k : StateKey) (args : List Config) :
    Except String (List State) :=
  let config := flattenArgsList args
  match expandNames config with
  | some names =>
    names.mapM fun name =>
      (r.buildOne floats k.module name
          (nameInstance (r.namesInjectKey k.module) config name)).mapError fun text =>
        "compiler: build state " ++ k.id.quote ++ " (" ++ k.module ++ ", name=" ++ name ++
          "): " ++ text
  | none =>
    ((r.buildOne floats k.module k.id config).mapError fun text =>
      "compiler: build state " ++ k.id.quote ++ " (" ++ k.module ++ "): " ++ text).map fun s => [s]

def buildMerged (it : Ranging) (r : Registry) (floats : Floats) (states : MergedStates) :
    Except String (List State) := do
  let out ← transformRequisites it states
  let built ← (it.order [4] out.keys).mapM fun k => buildEntry r floats k (out.args k)
  return built.flatten

/-- A dotted reference to a state file. -/
abbrev StateRef := String

namespace StateRef

def resolveToPath (ref : StateRef) (statesDir : String) : String :=
  match ref.toList.splitOn '.' with
  | [part] => joinPath [statesDir, String.ofList part, "init.zy"]
  | parts => joinPath [statesDir, joinPath (parts.map String.ofList) ++ ".zy"]

end StateRef

/-- The argument lists of a state, by module. -/
abbrev StateData := Table (List Config)

structure ParsedFile where
  includes : List StateRef := []
  extend : Table StateData := ∅
  states : Table StateData := ∅

/-- The file system, the template engine and the decoder of a compiler, and the modules that it
knows when it builds. -/
structure CompilerConfig where
  statesDir : String
  files : Table (Except String String)
  render : String → String → Except String String
  unmarshal : String → Except String Entries
  /-- The type of a scalar that is known by its text. -/
  scalarType : String → String
  registry : Registry
  floats : Floats

inductive CompileError where
  | cycle (chain : List StateRef)
  | failed (text : String)
  | exhausted
  deriving DecidableEq, Repr

namespace CompilerConfig

/-- `%T` of a decoded value. -/
def typeName (c : CompilerConfig) : Value → String
  | .null => "<nil>"
  | .bool _ => "bool"
  | .int _ => "int"
  | .str _ => "string"
  | .other text => c.scalarType text
  | .list _ => "[]interface \x7b\x7d"
  | .map _ => "map[string]interface \x7b\x7d"
  | .keyed _ _ => "map[interface \x7b\x7d]interface \x7b\x7d"

/-- The loop over the items of an argument list, from the `i`-th on. -/
def parseArgs (c : CompilerConfig) (module : String) :
    Nat → List Value → Except String (List Config)
  | _, [] => .ok []
  | i, .map entries :: items =>
    do return Config.ofList entries :: (← c.parseArgs module (i + 1) items)
  | i, v :: _ =>
    .error ("compiler: module " ++ module.quote ++ ": arg " ++ toString i ++
      ": expected map, got " ++ c.typeName v)

def parseStateData (c : CompilerConfig) : Value → Except String StateData
  | .map entries =>
    entries.foldlM (fun (result : StateData) entry =>
      match entry.2 with
      | .list items => do return result.insert entry.1 (← c.parseArgs entry.1 0 items)
      | v =>
        .error ("compiler: module " ++ entry.1.quote ++ ": expected list, got " ++ c.typeName v)) ∅
  | v => .error ("compiler: expected map, got " ++ c.typeName v)

/-- Items of an include list that are no strings are passed over. -/
def includeRef : Value → Option StateRef
  | .str ref => some ref
  | _ => none

def parseExtend (c : CompilerConfig) (parsed : ParsedFile) (entry : String × Value) :
    Except String ParsedFile :=
  match c.parseStateData entry.2 with
  | .error text => .error ("compiler: parse extend state " ++ entry.1.quote ++ ": " ++ text)
  | .ok data => .ok { parsed with extend := parsed.extend.insert entry.1 data }

/-- The body of the loop over the entries of the document. -/
def parseDirective (c : CompilerConfig) (parsed : ParsedFile) (entry : String × Value) :
    Except String ParsedFile :=
  match entry with
  | ("include", .list items) =>
    .ok { parsed with includes := parsed.includes ++ items.filterMap includeRef }
  | ("include", _) => .ok parsed
  | ("extend", .map entries) => entries.foldlM c.parseExtend parsed
  | ("extend", _) => .ok parsed
  | (id, v) =>
    match c.parseStateData v with
    | .error text => .error ("compiler: parse state " ++ id.quote ++ ": " ++ text)
    | .ok data => .ok { parsed with states := parsed.states.insert id data }

def parseDirectives (c : CompilerConfig) (doc : Entries) : Except String ParsedFile :=
  doc.foldlM c.parseDirective {}

def readFile (c : CompilerConfig) (path : String) : Except String String :=
  (c.files.lookup path).getD (.error ("open " ++ path ++ ": no such file or directory"))

def parseFile (c : CompilerConfig) (path : String) : Except String ParsedFile :=
  match c.readFile path with
  | .error text => .error ("compiler: read " ++ path ++ ": " ++ text)
  | .ok content =>
    match c.render path content with
    | .error text => .error ("compiler: render " ++ path ++ ": " ++ text)
    | .ok rendered =>
      match c.unmarshal rendered with
      | .error text => .error ("compiler: parse " ++ path ++ ": " ++ text)
      | .ok doc =>
        match c.parseDirectives doc with
        | .error text => .error ("compiler: parse directives " ++ path ++ ": " ++ text)
        | .ok parsed => .ok parsed

def loadAndParse (c : CompilerConfig) (ref : StateRef) : Except String ParsedFile :=
  c.parseFile (ref.resolveToPath c.statesDir)

end CompilerConfig

structure Loading where
  loaded : AList fun _ : StateRef => ParsedFile := ∅
  sources : List String := []

namespace CompilerConfig

def loadRecursive (c : CompilerConfig) :
    Nat → List StateRef → Loading → StateRef → Except CompileError Loading
  | 0, _, _, _ => .error .exhausted
  | fuel + 1, loadStack, acc, ref =>
    if ref ∈ loadStack then
      .error (.cycle (loadStack ++ [ref]))
    else if ref ∈ acc.loaded then
      .ok acc
    else
      match c.loadAndParse ref with
      | .error text => .error (.failed text)
      | .ok parsed =>
        parsed.includes.foldlM (c.loadRecursive fuel (loadStack ++ [ref]))
          ⟨acc.loaded.insert ref parsed, acc.sources ++ [ref.resolveToPath c.statesDir]⟩

def loadAll (c : CompilerConfig) (fuel : Nat) (refs : List StateRef) :
    Except CompileError Loading :=
  refs.foldlM (c.loadRecursive fuel []) {}

/-- The parsed file of each path. -/
def refByPath (c : CompilerConfig) (it : Ranging) (loading : Loading) : Table ParsedFile :=
  (it.order [5] loading.loaded.entries).foldl (fun files entry =>
    files.insert (entry.1.resolveToPath c.statesDir) entry.2) ∅

end CompilerConfig

/-- The states merged so far. The map of a state is the one of the file that declared it first, so
the owner of each state is kept along with the ids that there are. -/
structure Merging where
  owners : Table String := ∅
  states : MergedStates := ∅

namespace Merging

def dataOf (merging : Merging) (id : String) : List (String × List Config) :=
  merging.states.entries.filterMap fun entry =>
    if entry.1.id = id then some (entry.1.module, entry.2) else none

/-- `mergeArgsList` for a module that the state has, the new arguments for any other. -/
def addModule (it : Ranging) (id : String) (states : MergedStates) (i : Nat) (module : String)
    (args : List Config) : MergedStates :=
  match states.lookup ⟨id, module⟩ with
  | some base => states.insert ⟨id, module⟩ (mergeArgsList (it.within [i]) base args)
  | none => states.insert ⟨id, module⟩ args

def addModules (it : Ranging) (id : String) :
    Nat → MergedStates → List (String × List Config) → MergedStates
  | _, states, [] => states
  | i, states, (module, args) :: rest =>
    addModules it id (i + 1) (addModule it id states i module args) rest

def mergeState (it : Ranging) (path : String) (merging : Merging) (id : String) (data : StateData) :
    Merging :=
  match merging.owners.lookup id with
  | none =>
    ⟨merging.owners.insert id path,
      addModules it id 0 merging.states (data.entries.map fun entry => (entry.1, entry.2))⟩
  | some owner =>
    let stateData :=
      if owner = path then merging.dataOf id else data.entries.map fun entry => (entry.1, entry.2)
    { merging with states := addModules it id 0 merging.states (it.order [6] stateData) }

def mergeFile (it : Ranging) (path : String) :
    Nat → Merging → List (Sigma fun _ : String => StateData) → Merging
  | _, merging, [] => merging
  | i, merging, entry :: rest =>
    mergeFile it path (i + 1) (mergeState (it.within [i]) path merging entry.1 entry.2) rest

def mergeSources (it : Ranging) (files : Table ParsedFile) : Nat → Merging → List String → Merging
  | _, merging, [] => merging
  | i, merging, path :: sources =>
    match files.lookup path with
    | none => mergeSources it files (i + 1) merging sources
    | some parsed =>
      mergeSources it files (i + 1)
        (mergeFile (it.within [i, 7]) path 0 merging (it.order [i, 8] parsed.states.entries))
          sources

def extendStates (it : Ranging) :
    Nat → Merging → List (Sigma fun _ : String => StateData) → Except String Merging
  | _, merging, [] => .ok merging
  | i, merging, entry :: rest =>
    if entry.1 ∈ merging.owners then
      extendStates it (i + 1) { merging with
        states := addModules (it.within [i]) entry.1 0 merging.states
          (it.order [i, 9] (entry.2.entries.map fun entry => (entry.1, entry.2))) } rest
    else
      .error ("compiler: extend: state " ++ entry.1.quote ++ " not found in included files")

def extendSources (it : Ranging) (files : Table ParsedFile) : Nat → Merging → List String →
    Except String Merging
  | _, merging, [] => .ok merging
  | i, merging, path :: sources =>
    match files.lookup path with
    | none => extendSources it files (i + 1) merging sources
    | some parsed => do
      let extended ← extendStates (it.within [i, 10]) 0 merging
          (it.order [i, 11] parsed.extend.entries)
      extendSources it files (i + 1) extended sources

end Merging

structure CompileResult where
  states : List State
  sources : List String

namespace CompilerConfig

def compileLoaded (c : CompilerConfig) (it : Ranging) (loading : Loading) :
    Except String (List State) := do
  let files := c.refByPath it loading
  let merged := Merging.mergeSources it files 0 {} loading.sources
  let extended ← Merging.extendSources it files 0 merged loading.sources
  buildMerged it c.registry c.floats extended.states

def compileMultiple (c : CompilerConfig) (it : Ranging) (fuel : Nat) (refs : List StateRef) :
    Except CompileError CompileResult := do
  let loading ← c.loadAll fuel refs
  let states ← (c.compileLoaded it loading).mapError .failed
  return ⟨states, loading.sources⟩

end CompilerConfig
end Zester.Compiler
