import Scaffold.Json

namespace Scaffold

inductive Kind
  | mkdir
  | write
  deriving DecidableEq, Repr

def Kind.text : Kind → String
  | .mkdir => "mkdir"
  | .write => "write"

/-- One request; `path` holds `/`-separated segments below the place the script runs in. -/
structure Operation where
  kind : Kind
  path : String
  deriving DecidableEq, Repr

namespace Operation

def mkdir (path : String) : Operation := ⟨.mkdir, path⟩

def write (path : String) : Operation := ⟨.write, path⟩

def line (operation : Operation) : String := operation.kind.text ++ " " ++ operation.path

def toJson (operation : Operation) : Json :=
  .object [(some "op", .string (some operation.kind.text)),
    (some "relPath", .string (some operation.path))]

def listToJson (operations : List Operation) : Json := .array (operations.map toJson)

end Operation
end Scaffold
