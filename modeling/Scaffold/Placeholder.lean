import Scaffold.Error

/-!
Placeholders such as `${name}` in a script's text. A text is cut from left to right into characters
and placeholders; each name is asked for once, in the order of first appearance, and what was
answered is put in without a second look.
-/
namespace Scaffold

inductive Piece
  | char (c : Char)
  | hole (name : String)
  deriving DecidableEq, Repr

namespace Piece

/-- The name between a brace just opened and the next closing one, and what follows; a name has at
least one character. -/
def hole? (cs : List Char) : Option (String × List Char) :=
  match cs.takeWhile (· ≠ '}'), cs.dropWhile (· ≠ '}') with
  | c :: name, _ :: rest => some (String.ofList (c :: name), rest)
  | _, _ => none

theorem length_hole? {cs rest : List Char} {name : String} (found : hole? cs = some (name, rest)) :
    rest.length < cs.length := by
  have whole := congrArg List.length (List.takeWhile_append_dropWhile (p := (· ≠ '}')) (l := cs))
  rw [hole?] at found
  split at found
  next ends =>
    simp only [Option.some.injEq, Prod.mk.injEq] at found
    obtain ⟨_, rfl⟩ := found
    rw [ends, List.length_append, List.length_cons] at whole
    omega
  next => simp at found

def listOfChars (cs : List Char) : List Piece :=
  match cs with
  | [] => []
  | '$' :: '{' :: cs =>
    match _found : hole? cs with
    | some (name, rest) => hole name :: listOfChars rest
    | none => char '$' :: listOfChars ('{' :: cs)
  | c :: cs => char c :: listOfChars cs
termination_by cs.length
decreasing_by
  · have := length_hole? ‹_›
    simp only [List.length_cons]
    omega
  · simp
  · simp

def name? : Piece → Option String
  | char _ => none
  | hole name => some name

def fill (value : String → String) : Piece → List Char
  | char c => [c]
  | hole name => (value name).toList

end Piece

def placeholders (script : String) : List String :=
  ((Piece.listOfChars script.toList).filterMap Piece.name?).eraseDups

def workspaceName : String := "project"

section Substitution
variable {m : Type → Type} [Monad m]

/-- A value for each name in turn. The workspace's own name is known where there is a workspace;
the others are asked for, and the first one without an answer ends the asking. -/
def resolveNames (ask : String → m (Option String)) (workspace : Option String) :
    List String → m (Option (List (String × String)))
  | [] => return some []
  | name :: names => do
    let known := if name = workspaceName then workspace else none
    let answer ← match known with
      | some value => pure (some value)
      | none => ask name
    match answer with
    | none => return none
    | some value => return (← resolveNames ask workspace names).map ((name, value) :: ·)

def substitute (ask : String → m (Option String)) (workspace : Option String) (script : String) :
    m (Except Error String) := do
  match ← resolveNames ask workspace (placeholders script) with
  | none => return .error .cancelled
  | some values =>
    let value name := (values.lookup name).getD ""
    return .ok (String.ofList ((Piece.listOfChars script.toList).flatMap (Piece.fill value)))

end Substitution
end Scaffold
