import Scaffold.Apply
import Scaffold.Placeholder
import Scaffold.Shorthand.Compile

namespace Scaffold

inductive Invocation
  | saved (name : String)
  | inline (script : String)
  deriving DecidableEq, Repr

def Invocation.parse (input : String) : Option Invocation :=
  match (Text.trim input).toList with
  | [] => none
  | '!' :: name => some (saved (Text.trim (String.ofList name)))
  | _ => some (inline input)

def parseSaveLine (input : String) : Except Error (String × String) :=
  match Text.splitOnce '@' input.toList with
  | none => .error .invalidSaveLine
  | some (left, right) =>
    let name := Text.trim (String.ofList left)
    let script := Text.trim (String.ofList right)
    if name = "" ∨ script = "" then .error .missingNameOrScript else .ok (name, script)

variable {m : Type → Type} [Monad m]

def prepare (ask : String → m (Option String)) (workspace : Option String) (script : String) :
    m (Except Error (List Operation)) := do
  match ← substitute ask workspace script with
  | .error error => return .error error
  | .ok text => return compile text

/-- Prepares a script and then fills the tree. What `ask` may change is a state `σ` of its own. -/
def runScript {σ : Type} (storage : Storage m) (ask : String → StateM σ (Option String))
    (workspace : Option String) (templates : Templates) (script : String) :
    StateT σ m (Except Error Report) := fun state => do
  let (prepared, state) := prepare ask workspace script state
  match prepared with
  | .error error => return (.error error, state)
  | .ok operations => return (← apply storage templates operations, state)

end Scaffold
