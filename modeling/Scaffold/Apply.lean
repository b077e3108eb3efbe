import Scaffold.Error
import Scaffold.Storage
import Scaffold.Template

/-!
Carrying operations out on a tree of files, in order. A directory that is there is fine and a file
that is there stays as it is; the first operation that fails ends the run.
-/
namespace Scaffold

structure Report where
  /-- Directories asked for, new or not. -/
  dirs : Nat := 0
  written : Nat := 0
  /-- Files asked for where something stood already. -/
  skipped : Nat := 0
  deriving DecidableEq, Repr

variable {m : Type → Type} [Monad m]

def applyOne (storage : Storage m) (templates : Templates) (report : Report)
    (operation : Operation) : m (Except Fault Report) := do
  let place := Location.ofSegments operation.path
  match operation.kind with
  | .mkdir =>
    match ← storage.mkdir place.text with
    | .error fault => return .error fault
    | .ok () => return .ok { report with dirs := report.dirs + 1 }
  | .write =>
    let made ← match place.parent? with
      | none => pure (.ok ())
      | some parent => storage.mkdir parent.text
    match made with
    | .error fault => return .error fault
    | .ok () =>
      if ← storage.holds place.text then
        return .ok { report with skipped := report.skipped + 1 }
      else
        match ← storage.mkfile place.text (some (templates.content operation.path).toUTF8) with
        | .error fault => return .error fault
        | .ok () => return .ok { report with written := report.written + 1 }

/-- Operations in order, the first of which has number `index`. -/
def applyFrom (storage : Storage m) (templates : Templates) (index : Nat) (report : Report) :
    List Operation → m (Except Error Report)
  | [] => return .ok report
  | operation :: operations => do
    match ← applyOne storage templates report operation with
    | .error fault => return .error (.apply index operation fault)
    | .ok report => applyFrom storage templates (index + 1) report operations

def apply (storage : Storage m) (templates : Templates) (operations : List Operation) :
    m (Except Error Report) :=
  applyFrom storage templates 0 {} operations

end Scaffold
