import Zester.Lib.FileTree
import Zester.Path

/-! The file system as one process meets it. Every operation is carried out on the tree
or fails, for a reason that the tree gives or for one from outside. -/
namespace Zester

abbrev Files := FileTree.Spot Text String

/-- The errors of the `os` package that callers tell apart. -/
inductive Fault where
  | notExist
  | crossDevice
  | busy
  | failed (text : String)
  deriving DecidableEq, Repr

def Fault.text : Fault → String
  | .notExist => "no such file or directory"
  | .crossDevice => "invalid cross-device link"
  | .busy => "device or resource busy"
  | .failed text => text

inductive DiskOp where
  | mkdirAll (path : String)
  | mkdirTemp (path : String)
  | createTemp (path : String)
  | chmod (path : String)
  | write (path : String)
  | rename (old new : String)
  | remove (path : String)
  | removeAll (path : String)
  | stat (path : String)
  | readDir (path : String)
  | readFile (path : String)
  | walk (path : String)
  deriving DecidableEq, Repr

/-- What the tree does not decide: which operations fail, the random numbers of
temporary names, and what a removal that fails leaves behind. -/
structure World where
  fails : Nat → DiskOp → Option Fault
  number : Nat → Nat
  remains : Nat → Files

def World.calm : World := ⟨fun _ _ => none, fun _ => 0, fun _ => none⟩

/-- The tree and the operations so far, the last one first. -/
structure Host where
  tree : Files
  log : List DiskOp

namespace Host
variable (world : World) (host : Host)

def attempt {α : Type} (op : DiskOp) (act : Files → Except Fault (Files × α)) :
    Host × Except Fault α :=
  match world.fails host.log.length op with
  | some fault => (⟨host.tree, op :: host.log⟩, .error fault)
  | none =>
    match act host.tree with
    | .error fault => (⟨host.tree, op :: host.log⟩, .error fault)
    | .ok (tree, answer) => (⟨tree, op :: host.log⟩, .ok answer)

def mkdirAll (path : String) : Host × Except Fault Unit :=
  attempt world host (.mkdirAll path) fun tree =>
    match FileTree.mkdirAll tree (place path.toList) with
    | none => .error (.failed "not a directory")
    | some made => .ok (some made, ())

def names (tree : Files) (path : String) : List Text :=
  match FileTree.get tree (place path.toList) with
  | some (.dir children) => children.map Prod.fst
  | _ => []

/-- The first name that is not taken, from a number on. -/
def freeName (taken : List Text) (front back : String) : Nat → Nat → String
  | 0, number => front ++ toString number ++ back
  | tries + 1, number =>
    let name := front ++ toString number ++ back
    if name.toList ∈ taken then freeName taken front back tries (number + 1) else name

def tempPath (dir front back : String) : String :=
  let taken := names host.tree dir
  entryPath dir (freeName taken front back taken.length (world.number host.log.length))

def create (op : String → DiskOp) (dir front back : String) (entry : FileTree Text String) :
    Host × Except Fault String :=
  let path := tempPath world host dir front back
  attempt world host (op path) fun tree =>
    if FileTree.look tree (place dir.toList) = some .dir then
      .ok (FileTree.alter (fun _ => some entry) tree (place path.toList), path)
    else .error .notExist

/-- `os.MkdirTemp` with a pattern that ends with a star. -/
def mkdirTemp (dir front : String) : Host × Except Fault String :=
  if front.toList.contains '/' then (host, .error (.failed "pattern contains path separator"))
  else create world host .mkdirTemp dir front "" (.dir [])

/-- `os.CreateTemp` with a star between the parts of the pattern. -/
def createTemp (dir front back : String) : Host × Except Fault String :=
  create world host .createTemp dir front back (.file "")

def chmod (path : String) : Host × Except Fault Unit :=
  attempt world host (.chmod path) fun tree => .ok (tree, ())

def write (path data : String) : Host × Except Fault Unit :=
  attempt world host (.write path) fun tree =>
    match FileTree.look tree (place path.toList) with
    | some (.file _) =>
      .ok (FileTree.alter (fun _ => some (.file data)) tree (place path.toList), ())
    | _ => .error .notExist

/-- A directory is never replaced, and nothing moves into itself. -/
def rename (old new : String) : Host × Except Fault Unit :=
  attempt world host (.rename old new) fun tree =>
    let source := place old.toList
    let target := place new.toList
    match FileTree.get tree source with
    | none => .error .notExist
    | some moved =>
      match FileTree.look tree target, FileTree.kind moved with
      | some .dir, _ => .error (.failed "file exists")
      | some (.file _), .dir => .error (.failed "not a directory")
      | _, _ =>
        if source ≠ target ∧ source <+: target then .error (.failed "invalid argument")
        else if FileTree.look tree target.dropLast ≠ some .dir then .error .notExist
        else
          .ok (FileTree.alter (fun _ => some moved)
            (FileTree.alter (fun _ => none) tree source) target, ())

/-- A directory is removed only if it is empty. -/
def remove (path : String) : Host × Except Fault Unit :=
  attempt world host (.remove path) fun tree =>
    match FileTree.get tree (place path.toList) with
    | none => .error .notExist
    | some (.dir (_ :: _)) => .error (.failed "directory not empty")
    | some _ => .ok (FileTree.alter (fun _ => none) tree (place path.toList), ())

/-- Removing nothing is no error; a removal that fails may have taken a part away. -/
def removeAll (path : String) : Host × Except Fault Unit :=
  let n := host.log.length
  match world.fails n (.removeAll path) with
  | some fault =>
    (⟨FileTree.alter (fun _ => world.remains n) host.tree (place path.toList),
      .removeAll path :: host.log⟩, .error fault)
  | none =>
    (⟨FileTree.alter (fun _ => none) host.tree (place path.toList), .removeAll path :: host.log⟩,
      .ok ())

def stat (path : String) : Host × Except Fault Unit :=
  attempt world host (.stat path) fun tree =>
    match FileTree.get tree (place path.toList) with
    | none => .error .notExist
    | some _ => .ok (tree, ())

def readDir (path : String) : Host × Except Fault (List Text) :=
  attempt world host (.readDir path) fun tree =>
    match FileTree.get tree (place path.toList) with
    | none => .error .notExist
    | some (.file _) => .error (.failed "not a directory")
    | some (.dir children) => .ok (tree, children.map Prod.fst)

def readFile (path : String) : Host × Except Fault String :=
  attempt world host (.readFile path) fun tree =>
    match FileTree.get tree (place path.toList) with
    | none => .error .notExist
    | some (.dir _) => .error (.failed "is a directory")
    | some (.file content) => .ok (tree, content)

instance (part : Text) : Decidable (IsName part) :=
  decidable_of_iff (part ≠ [] ∧ part ≠ ['.'] ∧ part ≠ dotDot ∧ '/' ∉ part)
    ⟨fun ⟨a, b, c, d⟩ => ⟨a, b, c, d⟩, fun ⟨a, b, c, d⟩ => ⟨a, b, c, d⟩⟩

/-- `filepath.WalkDir`: the relative paths of all entries below, and whether they are files. -/
def walk (path : String) : Host × Except Fault (List (String × Bool)) :=
  attempt world host (.walk path) fun tree =>
    match FileTree.get tree (place path.toList) with
    | none => .error .notExist
    | some found =>
      .ok (tree, ((FileTree.walk found).filter fun entry =>
          entry.1.all fun part => decide (IsName part)).map fun entry =>
        (String.ofList (['/'].intercalate entry.1), entry.2.isSome))

end Host
end Zester
