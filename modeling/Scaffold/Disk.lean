import Scaffold.Content
import Scaffold.Dict
import Scaffold.Disk.Error
import Scaffold.Path

/-!
The host's file system as a value: directories, files and symbolic links by location. `walk` finds
what a path names, link after link; each request either succeeds or leaves the disk as it was.
-/
namespace Scaffold

inductive Node
  | directory
  | file (content : Content)
  | link (target : String)
  deriving DecidableEq

inductive NodeKind
  | directory
  | file
  | link
  deriving DecidableEq, Repr

def Node.kind : Node → NodeKind
  | directory => .directory
  | file _ => .file
  | link _ => .link

structure Disk where
  nodes : Dict Location Node
  deriving DecidableEq

namespace Disk

def blank : Disk := ⟨Dict.empty.insert [] .directory⟩

def get? (disk : Disk) (place : Location) : Option Node := disk.nodes.get? place

def put (disk : Disk) (place : Location) (node : Node) : Disk := ⟨disk.nodes.insert place node⟩

/-- A path has fewer bytes than this. -/
def pathLimit : Nat := 4096

/-- A name has at most this many bytes. -/
def nameLimit : Nat := 255

def linkLimit : Nat := 40

inductive Ending
  | follow
  /-- A link there is meant itself, unless a slash comes after it. -/
  | keep
  /-- A new node is to stand there: what is there is meant itself, with a slash after it or not. -/
  | make
  /-- A file is to be written there: a link is followed, and a slash after it is refused. -/
  | write
  deriving DecidableEq, Repr

inductive Found
  | node (place : Location) (node : Node)
  | absent (place : Location)
  deriving DecidableEq

def steps (path : String) : List String := Path.pieces path

def endsInSlash (path : String) : Bool := path.toList.getLast? = some '/'

/-- Goes from `place` along `names`. `links` is how many links may still be followed, and `slash`
says whether a slash ends the path. -/
def walk (disk : Disk) (ending : Ending) (links : Nat) (place : Location) (names : List String)
    (slash : Bool) : Except DiskError Found :=
  match disk.get? place with
  | none => .error .notFound
  | some here =>
    match names with
    | [] =>
      if slash ∧ here ≠ .directory ∧ ending ≠ .make then .error .notDirectory
      else .ok (.node place here)
    | name :: rest =>
      if here ≠ .directory then .error .notDirectory
      else if name = "." then walk disk ending links place rest slash
      else if name = ".." then walk disk ending links place.dropLast rest slash
      else if rest = [] ∧ slash ∧ ending = .write then .error .isDirectory
      else if nameLimit < name.utf8ByteSize then .error .nameTooLong
      else
        match disk.get? (place ++ [name]) with
        | none => if rest = [] then .ok (.absent (place ++ [name])) else .error .notFound
        | some (.link target) =>
          if rest = [] ∧ (ending = .make ∨ ending = .keep ∧ !slash) then
            .ok (.node (place ++ [name]) (.link target))
          else
            match links with
            | 0 => .error .tooManyLinks
            | links + 1 =>
              walk disk ending links (if Path.isRooted target then [] else place)
                (steps target ++ rest) (slash || (rest = [] && endsInSlash target))
        | some _ => walk disk ending links (place ++ [name]) rest slash
termination_by (links, names.length)

def locate (disk : Disk) (cwd : Location) (ending : Ending) (path : String) :
    Except DiskError Found :=
  if path.toList.contains '\x00' then .error .nulInPath
  else if path = "" then .error .notFound
  else if pathLimit ≤ path.utf8ByteSize then .error .nameTooLong
  else
    walk disk ending linkLimit (if Path.isRooted path then [] else cwd) (steps path)
      (endsInSlash path)

def find (disk : Disk) (cwd : Location) (ending : Ending) (path : String) :
    Except DiskError (Location × Node) := do
  match ← disk.locate cwd ending path with
  | .node place node => return (place, node)
  | .absent _ => .error .notFound

def kind (disk : Disk) (cwd : Location) (followLinks : Bool) (path : String) :
    Except DiskError NodeKind :=
  (disk.find cwd (if followLinks then .follow else .keep) path).map (·.2.kind)

def readBytes (disk : Disk) (cwd : Location) (path : String) : Except DiskError Content := do
  match ← disk.find cwd .follow path with
  | (_, .file content) => return content
  | _ => .error .isDirectory

def children (disk : Disk) (place : Location) : List String :=
  disk.nodes.keys.filterMap fun key =>
    if key ≠ [] ∧ key.dropLast = place then key.getLast? else none

def listDir (disk : Disk) (cwd : Location) (path : String) : Except DiskError (List String) := do
  match ← disk.find cwd .follow path with
  | (place, .directory) => return disk.children place
  | _ => .error .notDirectory

def createDir (disk : Disk) (cwd : Location) (path : String) : Except DiskError Disk := do
  match ← disk.locate cwd .make path with
  | .node _ _ => .error .alreadyExists
  | .absent place => return disk.put place .directory

def writeFile (disk : Disk) (cwd : Location) (path : String) (content : Content) :
    Except DiskError Disk := do
  match ← disk.locate cwd .write path with
  | .node _ .directory => .error .isDirectory
  | .node place _ => return disk.put place (.file content)
  | .absent place => return disk.put place (.file content)

/-- Only a directory can be made under a path that ends in a slash. -/
def createLink (disk : Disk) (cwd : Location) (path target : String) : Except DiskError Disk := do
  if pathLimit ≤ target.utf8ByteSize then .error .nameTooLong
  match ← disk.locate cwd .make path with
  | .node _ _ => .error .alreadyExists
  | .absent place =>
    if endsInSlash path then .error .notFound else return disk.put place (.link target)

def removeFile (disk : Disk) (cwd : Location) (path : String) : Except DiskError Disk := do
  match ← disk.find cwd .make path with
  | (_, .directory) => .error .isDirectory
  | (place, _) =>
    if endsInSlash path then .error .notDirectory else return ⟨disk.nodes.erase place⟩

end Disk
end Scaffold
