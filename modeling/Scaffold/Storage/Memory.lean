import Scaffold.Dict
import Scaffold.Storage

namespace Scaffold

inductive Entry
  | directory
  | file (content : Content)
  deriving DecidableEq

def Entry.isDirectory : Entry → Bool
  | directory => true
  | file _ => false

structure MemoryTree where
  entries : Dict Location Entry
  deriving DecidableEq

namespace MemoryTree

def empty : MemoryTree := ⟨Dict.empty.insert [] .directory⟩

instance : Inhabited MemoryTree := ⟨empty⟩

def size (tree : MemoryTree) : Nat := tree.entries.size

def isBare (tree : MemoryTree) : Bool := tree.size = 1

def get? (tree : MemoryTree) (place : Location) : Option Entry := tree.entries.get? place

def put (tree : MemoryTree) (place : Location) (entry : Entry) : MemoryTree :=
  ⟨tree.entries.insert place entry⟩

def holds (tree : MemoryTree) (path : String) : Bool :=
  (tree.get? (Location.ofText path)).isSome

def isDir (tree : MemoryTree) (path : String) : Except Fault Bool :=
  match tree.get? (Location.ofText path) with
  | some entry => .ok entry.isDirectory
  | none => .error (.missing path)

def isFile (tree : MemoryTree) (path : String) : Except Fault Bool :=
  match tree.get? (Location.ofText path) with
  | some entry => .ok !entry.isDirectory
  | none => .error (.missing path)

/-- All that is below a directory, or the file itself, in the order of the locations: siblings come
in the order of their names, and a directory is followed by what is in it. -/
def listing (tree : MemoryTree) (path : String) : Except Fault (List Location) :=
  let place := Location.ofText path
  (tree.isFile place.text).map fun file =>
    tree.entries.keys.filter fun key => place.isPrefixOf key && (key ≠ place || file)

def read (tree : MemoryTree) (path : String) : Except Fault Content :=
  match tree.get? (Location.ofText path) with
  | none => .error (.missing path)
  | some .directory => .error (.isDirectory path)
  | some (.file content) => .ok content

def ensure (place : Location) : StateM MemoryTree (Except Fault Unit) := do
  match (← get).get? place with
  | some .directory => return .ok ()
  | some (.file _) => return .error (.notDirectory place.text)
  | none =>
    modify (·.put place .directory)
    return .ok ()

/-- Makes each location from `place` down along `names` a directory, and stops at a file. -/
def ensureAlong (place : Location) (names : List String) :
    StateM MemoryTree (Except Fault Unit) := do
  match ← ensure place with
  | .error fault => return .error fault
  | .ok () =>
    match names with
    | [] => return .ok ()
    | name :: names => ensureAlong (place ++ [name]) names

def mkdir (path : String) : StateM MemoryTree (Except Fault Unit) :=
  if path = "" then return .error .emptyPath else ensureAlong [] (Location.ofText path)

def mkfile (path : String) (content : Option Content) :
    StateM MemoryTree (Except Fault Unit) := do
  let place := Location.ofText path
  if place = [] then return .error .rootIsDirectory
  if (← get).get? place = some .directory then return .error (.isDirectory place.text)
  match ← ensureAlong [] place.dropLast with
  | .error fault => return .error fault
  | .ok () =>
    modify (·.put place (.file (content.getD .empty)))
    return .ok ()

def storage : Storage (StateM MemoryTree) where
  holds path := return (← get).holds path
  isDir path := return (← get).isDir path
  isFile path := return (← get).isFile path
  mkdir := mkdir
  mkfile := mkfile
  read path := return (← get).read path

end MemoryTree
end Scaffold
