import Scaffold.Disk.Access
import Scaffold.Error
import Scaffold.Json.Reader
import Scaffold.Script

namespace Scaffold

abbrev Scripts := Dict String String

namespace Scripts

def fieldName : String := "batchScripts_v1"

def toJson (scripts : Scripts) : Json :=
  .object [(some fieldName,
    .object (scripts.entries.map fun entry => (some entry.1, .string (some entry.2))))]

def entryOfJson? : Option String × Json → Option (String × String)
  | (some name, .string (some script)) => some (name, script)
  | _ => none

def ofFields? (fields : List (Option String × Json)) : Option Scripts :=
  (fields.mapM entryOfJson?).map Dict.ofList

/-- The scripts in an object with the one known field, or in a list of its value alone. Other
fields are passed over, but the known one may not come twice. -/
def ofJson? : Json → Option Scripts
  | .object fields =>
    if fields.any (·.1.isNone) then none
    else match fields.filter (·.1 = some fieldName) with
      | [] => some Dict.empty
      | [(_, .object entries)] => ofFields? entries
      | _ => none
  | .array [] => some Dict.empty
  | .array [.object entries] => ofFields? entries
  | _ => none

def toText (scripts : Scripts) : String := scripts.toJson.pretty

def ofText? (text : String) : Option Scripts := (Json.parse text).bind ofJson?

end Scripts

structure ScriptStore (m : Type → Type) where
  load : m (Except Error Scripts)
  save : String → String → m (Except Error Unit)

namespace ScriptStore
variable {m : Type → Type} [Monad m]

def get? (store : ScriptStore m) (name : String) : m (Except Error (Option String)) :=
  return (← store.load).map (·.get? name)

def names (store : ScriptStore m) : m (Except Error (List String)) :=
  return (← store.load).map (·.keys)

def resolve (store : ScriptStore m) : Invocation → m (Except Error String)
  | .inline script => return .ok script
  | .saved name => do
    match ← store.get? name with
    | .error error => return .error error
    | .ok none => return .error (.unknownScript name)
    | .ok (some script) => return .ok script

def memory : ScriptStore (StateM Scripts) where
  load := return .ok (← get)
  save name script := do
    modify (·.insert name script)
    return .ok ()

section File
variable [DiskAccess m]

def loadFile (path : String) : m (Except Error Scripts) := do
  if !(← DiskAccess.pathExists path) then return .ok Dict.empty
  match ← DiskAccess.readText path with
  | .error error => return .error (.disk error)
  | .ok text => match Scripts.ofText? text with
    | some scripts => return .ok scripts
    | none => return .error (.corruptStore path)

/-- Reads the file, puts the script in and writes all of them back. Directories above the file are
made if they are missing. -/
def saveFile (path name script : String) : m (Except Error Unit) := do
  match ← loadFile path with
  | .error error => return .error error
  | .ok scripts =>
    match ← DiskAccess.createDirs (Path.ancestors path).tail with
    | .error error => return .error (.disk error)
    | .ok () =>
      match ← DiskAccess.writeFile path (Scripts.toText (scripts.insert name script)).toUTF8 with
      | .error error => return .error (.disk error)
      | .ok () => return .ok ()

def file (path : String) : ScriptStore m where
  load := loadFile path
  save := saveFile path

end File
end ScriptStore
end Scaffold
