import Scaffold.Disk

namespace Scaffold

class DiskAccess (m : Type → Type) where
  /-- The kind of the node at a path; with `true` a link gives the kind of what it leads to. -/
  kind : Bool → String → m (Except DiskError NodeKind)
  readBytes : String → m (Except DiskError Content)
  writeFile : String → Content → m (Except DiskError Unit)
  createDir : String → m (Except DiskError Unit)
  removeFile : String → m (Except DiskError Unit)

class DiskListing (m : Type → Type) extends DiskAccess m where
  /-- The names in a directory, in no certain order. -/
  listDir : String → m (Except DiskError (List String))

namespace DiskAccess
variable {m : Type → Type} [Monad m] [DiskAccess m]

def pathExists (path : String) : m Bool :=
  return (← kind true path).toOption.isSome

/-- Whether the path leads to a node; only an answer of "not found" says no. -/
def tryExists (path : String) : m (Except DiskError Bool) := do
  match ← kind true path with
  | .ok _ => return .ok true
  | .error .notFound => return .ok false
  | .error error => return .error error

def isDir (path : String) : m Bool :=
  return (← kind true path).toOption = some .directory

def isFile (path : String) : m Bool :=
  return (← kind true path).toOption = some .file

def isLink (path : String) : m Bool :=
  return (← kind false path).toOption = some .link

def readText (path : String) : m (Except DiskError String) := do
  match ← readBytes path with
  | .error error => return .error error
  | .ok content => match String.fromUTF8? content with
    | some text => return .ok text
    | none => return .error .notUtf8

/-- Makes the first of some directories, each of which is the one above the one before it. If there
is nothing for it to stand in, the rest are made first. -/
def createDirs : List String → m (Except DiskError Unit)
  | [] => return .ok ()
  | path :: above => do
    match ← createDir path with
    | .ok () => return .ok ()
    | .error .notFound =>
      match ← createDirs above with
      | .error error => return .error error
      | .ok () =>
        match ← createDir path with
        | .ok () => return .ok ()
        | .error error => if ← isDir path then return .ok () else return .error error
    | .error error => if ← isDir path then return .ok () else return .error error

end DiskAccess
end Scaffold
