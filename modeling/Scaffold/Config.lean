import Scaffold.Disk.Access
import Scaffold.Error
import Scaffold.Template
import Scaffold.Toml

namespace Scaffold

structure Config where
  templates : Dict String String := .empty
  store : Option String := none
  deriving DecidableEq

structure Environment where
  storeHome : Option String := none
  home : Option String := none
  deriving DecidableEq, Repr

namespace Config

structure Draft where
  store : Option String := none
  templates : Option (Dict String String) := none
  /-- Whether the templates may still get a key from outside their own table. -/
  isOpen : Bool := true
  inTemplates : Bool := false

namespace Draft

def addTemplate (texts : Dict String String) (key text : String) : Option (Dict String String) :=
  if texts.contains key then none else some (texts.insert key text)

def addFields (texts : Dict String String) :
    List (List String × Toml.Value) → Option (Dict String String)
  | [] => some texts
  | ([key], .text text) :: fields => do addFields (← addTemplate texts key text) fields
  | _ => none

/-- The key of the only template that a date or time in the place of the templates gives. -/
def momentKey : String := "$__toml_private_datetime"

def templatesOf? : Toml.Value → Option (Dict String String)
  | .table fields => addFields .empty fields
  | .moment moment => some (Dict.empty.insert momentKey moment.text)
  | .text _ => none

/-- One more statement; none that sets something unknown, sets it twice or sets it to what it cannot
be. -/
def add (draft : Draft) : Toml.Statement → Option Draft
  | .header ["templates"] =>
    if draft.templates.isNone then
      some { draft with templates := some .empty, isOpen := false, inTemplates := true }
    else none
  | .header _ => none
  | .assign key value =>
    if draft.inTemplates then
      match key, value with
      | [key], .text text => do
        let texts ← addTemplate (draft.templates.getD .empty) key text
        return { draft with templates := some texts }
      | _, _ => none
    else
      match key, value with
      | ["store"], .text text =>
        if draft.store.isNone then some { draft with store := some text } else none
      | ["templates"], value =>
        if draft.templates.isNone then do
          let texts ← templatesOf? value
          return { draft with templates := some texts, isOpen := false }
        else none
      | ["templates", key], .text text =>
        if draft.isOpen then do
          let texts ← addTemplate (draft.templates.getD .empty) key text
          return { draft with templates := some texts }
        else none
      | _, _ => none

end Draft

def ofToml (text origin : String) : Except Error Config :=
  match (Toml.parse text).bind (List.foldlM Draft.add {}) with
  | some draft => .ok ⟨draft.templates.getD .empty, draft.store⟩
  | none => .error (.invalidConfig origin)

def fileName : String := "batch-kit.toml"

section File
variable {m : Type → Type} [Monad m] [DiskAccess m]

def load (path : String) : m (Except Error Config) := do
  match ← DiskAccess.readText path with
  | .error error => return .error (.disk error)
  | .ok text => return ofToml text path

/-- The settings of the file that was named, else of the file in `root` if it is there. -/
def discover (named : Option String) (root : String) : m (Except Error Config) := do
  match named with
  | some path => load path
  | none =>
    let candidate := Path.join root fileName
    if ← DiskAccess.isFile candidate then load candidate else return .ok {}

end File

def templateTexts (config : Config) : Templates := Templates.ofList config.templates.entries

/-- The file of saved scripts: the one that is set, else the one in its directory, else the one
below the user's home. -/
def storePath (config : Config) (environment : Environment) : String :=
  match config.store, environment.storeHome with
  | some path, _ => path
  | none, some directory => Path.join directory "scripts.json"
  | none, none =>
    Path.join (Path.join (environment.home.getD "") ".batch-kit") "scripts.json"

end Config
end Scaffold
