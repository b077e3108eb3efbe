import Scaffold.CommandLine.Help
import Scaffold.Config
import Scaffold.Storage.Directory
import Scaffold.Store
import Scaffold.Text.Numeral
import Scaffold.World

/-!
The command: it runs scripts in a directory, saves them and lists them. Nothing on the disk changes
until a script has been compiled.
-/
namespace Scaffold.CommandLine

inductive Failure
  | script (cause : Error)
  | tree (cause : Fault)
  deriving DecidableEq, Repr

def Failure.report : Failure → String
  | script cause => cause.report
  | tree cause => cause.message

structure Setting where
  cwd : String
  environment : Environment := {}
  deriving DecidableEq, Repr

section Terminal
variable {m : Type → Type} [Monad m] [Terminal m]

def printLine (text : String) : m Unit := Terminal.print (text ++ "\n")

def askUser (question : String) : m (Option String) := do
  Terminal.printError question
  return (← Terminal.readLine).map Text.withoutLineEnd

def askValue (name : String) : m (Option String) :=
  askUser ("Value for $\x7b" ++ name ++ "\x7d: ")

def wordLimit : Nat := 0x10000000000000000

def readNumber (text : String) : Option Nat :=
  let digits := match text.toList with
    | '+' :: digits => digits
    | digits => digits
  (Text.decimalNumber? digits).filter (· < wordLimit)

/-- The name that an answer picks: by its number in the list, counted from one, or by itself. -/
def pickName (names : List String) (answer : String) : Option String :=
  let answer := Text.trim answer
  match readNumber answer with
  | some 0 => none
  | some (n + 1) => names[n]?
  | none => if names.contains answer then some answer else none

def padLeft (width : Nat) (text : String) : String :=
  String.ofList (List.replicate (width - text.length) ' ') ++ text

def showNumbered (number : Nat) : List String → m Unit
  | [] => return ()
  | name :: names => do
    Terminal.printError (padLeft 3 (toString number) ++ ") " ++ name ++ "\n")
    showNumbered (number + 1) names

def askName (names : List String) : m (Option String) := do
  showNumbered 1 names
  return (← askUser "Pick saved script: ").bind (pickName names)

end Terminal

variable {m : Type → Type} [Monad m] [DiskAccess m] [Terminal m]

def rootOf (cwd : String) (root : Option String) : Path :=
  Path.normalize (Path.join cwd (root.getD ""))

def execute (root : Path) (config : Config) (script : String) : m (Except Failure Unit) := do
  match ← prepare askValue root.name? script with
  | .error error => return .error (.script error)
  | .ok operations =>
    match ← DirectoryTree.mount root.text with
    | .error fault => return .error (.tree fault)
    | .ok tree =>
      match ← apply tree.storage config.templateTexts operations with
      | .error error => return .error (.script error)
      | .ok _ => return .ok (← printLine "Batch execution complete.")

def storeOf (setting : Setting) (request : Request) (config : Config) : ScriptStore m :=
  .file (request.store.getD (config.storePath setting.environment))

def withConfig (request : Request) (root : String) (next : Config → m (Except Failure Unit)) :
    m (Except Failure Unit) := do
  match ← Config.discover request.config root with
  | .error error => return .error (.script error)
  | .ok config => next config

def create (setting : Setting) (request : Request) (input : String) (root : Option String) :
    m (Except Failure Unit) :=
  let place := rootOf setting.cwd root
  withConfig request place.text fun config => do
    match Invocation.parse input with
    | none => return .ok ()
    | some invocation =>
      match ← (storeOf setting request config).resolve invocation with
      | .error error => return .error (.script error)
      | .ok script => execute place config script

def save (setting : Setting) (request : Request) (input : String) : m (Except Failure Unit) :=
  withConfig request setting.cwd fun config => do
    match parseSaveLine input with
    | .error error => return .error (.script error)
    | .ok (name, script) =>
      match ← (storeOf setting request config).save name script with
      | .error error => return .error (.script error)
      | .ok () => return .ok (← printLine ("Saved script: " ++ name))

def noScripts : String := "No saved scripts."

def template (setting : Setting) (request : Request) (name root : Option String) :
    m (Except Failure Unit) :=
  let place := rootOf setting.cwd root
  withConfig request place.text fun config => do
    let store := storeOf setting request config
    match ← store.names with
    | .error error => return .error (.script error)
    | .ok [] => return .ok (← printLine noScripts)
    | .ok names =>
      let chosen ← match name with
        | some name => pure (some name)
        | none => askName names
      match chosen with
      | none => return .ok ()
      | some name =>
        match ← store.resolve (.saved name) with
        | .error error => return .error (.script error)
        | .ok script => execute place config script

def printLines : List String → m Unit
  | [] => return ()
  | line :: lines => do
    printLine line
    printLines lines

def list (setting : Setting) (request : Request) : m (Except Failure Unit) :=
  withConfig request setting.cwd fun config => do
    match ← (storeOf setting request config).names with
    | .error error => return .error (.script error)
    | .ok [] => return .ok (← printLine noScripts)
    | .ok names => return .ok (← printLines names)

def showOperations (json : Bool) (operations : List Operation) : List String :=
  if json then [(Operation.listToJson operations).pretty] else operations.map Operation.line

def showCompiled (script : String) (json : Bool) : m (Except Failure Unit) := do
  match compile script with
  | .error error => return .error (.script error)
  | .ok operations => return .ok (← printLines (showOperations json operations))

def carryOut (setting : Setting) (request : Request) : m (Except Failure Unit) :=
  match request.command with
  | .create input root => create setting request input root
  | .save input => save setting request input
  | .template name root => template setting request name root
  | .list => list setting request
  | .compile script json => showCompiled script json

/-- Runs the command with its arguments and gives its exit code. A run that the user stopped is no
failure. -/
def run (setting : Setting) (words : List String) : m Nat := do
  match readArguments words with
  | .error .version => Terminal.print "batch 0.1.0\n"; return 0
  | .error (.help topic) => Terminal.print topic.text; return 0
  | .error .usage => Terminal.printError (Topic.text .program); return 2
  | .ok request =>
    match ← carryOut setting request with
    | .ok () => return 0
    | .error (.script .cancelled) => printLine (Error.message .cancelled); return 0
    | .error failure => Terminal.printError (failure.report ++ "\n"); return 1

end Scaffold.CommandLine
