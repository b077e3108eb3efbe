import Scaffold.Disk.Access
import Scaffold.Storage

/-!
A tree of files below a directory of the host. Paths are resolved on their text before the host
sees them, so none climbs above the directory; links are read through but never written through.
-/
namespace Scaffold

/-- The tree below the directory `root`, a rooted path in normal form. -/
structure DirectoryTree where
  root : String
  deriving DecidableEq, Repr

namespace DirectoryTree
open DiskAccess

def hostPath (tree : DirectoryTree) (path : String) : String :=
  Path.join tree.root ("/".intercalate (Location.ofText path))

variable {m : Type → Type} [Monad m]

section Access
variable [DiskAccess m]

def makeRoot (built : String) (names : List String) : m (Except Fault Unit) := do
  match ← tryExists built with
  | .error error => return .error (.disk error)
  | .ok there =>
    let made ← if there then
        pure (if ← isDir built then .ok () else .error (.notDirectory built))
      else
        pure ((← createDir built).mapError .disk)
    match made, names with
    | .error fault, _ => return .error fault
    | .ok (), [] => return .ok ()
    | .ok (), name :: names => makeRoot (Path.join built name) names

def isWritable (root : String) : m Bool := do
  let probe := Path.join root ".access"
  match ← writeFile probe "check".toUTF8 with
  | .error _ => return false
  | .ok () => return (← removeFile probe).toOption.isSome

/-- The tree below a directory, which is made if it is missing and has to be writable. -/
def mount (root : String) : m (Except Fault DirectoryTree) := do
  if root = "" then return .error .emptyRoot
  if !Path.isRooted root then return .error .relativeRoot
  if (← pathExists root) && !(← isDir root) then return .error (.rootNotDirectory root)
  let place := Path.normalize root
  match ← tryExists place.text with
  | .error error => return .error (.disk error)
  | .ok there =>
    let made ← if there then pure (.ok ()) else makeRoot "/" place.segments
    match made with
    | .error fault => return .error fault
    | .ok () =>
      if ← isWritable place.text then return .ok ⟨place.text⟩
      else return .error (.rootNotWritable place.text)

/-- A link counts, whether or not it leads anywhere. -/
def holds (tree : DirectoryTree) (path : String) : m Bool :=
  return (← kind false (tree.hostPath path)).toOption.isSome

def isDir (tree : DirectoryTree) (path : String) : m (Except Fault Bool) := do
  let host := tree.hostPath path
  if ← pathExists host then return .ok (← DiskAccess.isDir host) else return .error (.missing path)

def isFile (tree : DirectoryTree) (path : String) : m (Except Fault Bool) := do
  let host := tree.hostPath path
  if ← pathExists host then return .ok (← DiskAccess.isFile host) else return .error (.missing path)

/-- Makes the directories along `names` below the host's path `built`. `path` is what a fault
names. -/
def makeAlong (path built : String) : List String → m (Except Fault Unit)
  | [] => return .ok ()
  | name :: names => do
    let built := Path.join built name
    if ← isLink built then return .error (.linkOnPath path)
    if ← pathExists built then
      if ← DiskAccess.isDir built then makeAlong path built names
      else return .error (.notDirectory path)
    else
      match ← createDir built with
      | .error error => return .error (.disk error)
      | .ok () => makeAlong path built names

def mkdir (tree : DirectoryTree) (path : String) : m (Except Fault Unit) :=
  if path = "" then return .error .emptyPath
  else
    let place := Location.ofText path
    makeAlong place.text tree.root place

def mkfile (tree : DirectoryTree) (path : String) (content : Option Content) :
    m (Except Fault Unit) := do
  let place := Location.ofText path
  let host := tree.hostPath path
  if ← isLink host then return .error (.isLink place.text)
  if ← DiskAccess.isDir host then return .error (.isDirectory place.text)
  let made ← match place.parent? with
    | none => pure (.ok ())
    | some parent => tree.mkdir parent.text
  match made with
  | .error fault => return .error fault
  | .ok () => return (← writeFile host (content.getD .empty)).mapError .disk

def read (tree : DirectoryTree) (path : String) : m (Except Fault Content) := do
  match ← tree.isDir path with
  | .error fault => return .error fault
  | .ok true => return .error (.isDirectory path)
  | .ok false => return (← readBytes (tree.hostPath path)).mapError .disk

def storage (tree : DirectoryTree) : Storage m where
  holds := tree.holds
  isDir := tree.isDir
  isFile := tree.isFile
  mkdir := tree.mkdir
  mkfile := tree.mkfile
  read := tree.read

end Access

section Listing
variable [DiskListing m]

def visit (below : String → Location → m (Except Fault (List Location))) (host : String)
    (place : Location) : List String → m (Except Fault (List Location))
  | [] => return .ok []
  | name :: names => do
    let found ← if ← DiskAccess.isDir (Path.join host name) then
        below (Path.join host name) (place ++ [name])
      else pure (.ok [])
    match found with
    | .error fault => return .error fault
    | .ok inside =>
      match ← visit below host place names with
      | .error fault => return .error fault
      | .ok others => return .ok ((place ++ [name]) :: inside ++ others)

def readBelow (depth : Nat) (host : String) (place : Location) :
    m (Except Fault (List Location)) := do
  match depth with
  | 0 => return .ok []
  | depth + 1 =>
    match ← DiskListing.listDir host with
    | .error error => return .error (.disk error)
    | .ok names => visit (readBelow depth) host place (names.mergeSort fun a b => a ≤ b)

/-- All that is below a directory, or the file itself. Siblings come in the order of their names,
and a directory is followed by what is in it. A path beyond the limit of its length names nothing,
so no directory lies deeper than that limit. -/
def listing (tree : DirectoryTree) (path : String) : m (Except Fault (List Location)) := do
  let place := Location.ofText path
  match ← tree.isFile place.text with
  | .error fault => return .error fault
  | .ok true => return .ok [place]
  | .ok false => readBelow Disk.pathLimit (tree.hostPath path) place

end Listing
end DirectoryTree
end Scaffold
