import Scaffold.Operation
import Scaffold.Storage.Fault

namespace Scaffold

inductive Error
  | unmatchedGroup
  | cancelled
  | apply (index : Nat) (operation : Operation) (cause : Fault)
  | unknownScript (name : String)
  | invalidSaveLine
  | missingNameOrScript
  | disk (cause : DiskError)
  | corruptStore (path : String)
  | invalidConfig (path : String)
  deriving DecidableEq, Repr

namespace Error

def isCancellation : Error → Bool
  | cancelled => true
  | _ => false

def causes : Error → List String
  | apply _ _ cause => [cause.message]
  | disk cause => [cause.message]
  | corruptStore _ => ["not a file of saved scripts"]
  | invalidConfig _ => ["not a file of settings"]
  | _ => []

def message (error : Error) : String :=
  let cause := "".intercalate error.causes
  match error with
  | unmatchedGroup => "Parse error: unmatched ["
  | cancelled => "Variable input cancelled."
  | apply index operation _ =>
    operation.line ++ " failed (operation " ++ toString index ++ "): " ++ cause
  | unknownScript name => "No saved script \"" ++ name ++ "\""
  | invalidSaveLine => "Use: name @ script"
  | missingNameOrScript => "Missing name or script."
  | disk _ => "I/O error: " ++ cause
  | corruptStore path => "Script store " ++ path ++ " is corrupted: " ++ cause
  | invalidConfig path => "Invalid config " ++ path ++ ": " ++ cause

def report (error : Error) : String := ": ".intercalate (error.message :: error.causes)

end Error
end Scaffold
