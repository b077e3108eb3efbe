import Scaffold.Shorthand.Item
import Scaffold.Shorthand.Scan

/-!
From items to operations. A state machine keeps the current directory; a statement that is not
chained falls back to where the statement before it began. `compileUnder_eq` is the equation of the
compiler: cut into items, then run the machine, where a group compiles like a script of its own.
-/
namespace Scaffold

/-- Where the next statement stands. -/
structure State where
  stack : List String := []
  /-- The depth that the next statement falls back to unless it is chained. -/
  anchor : Option Nat := none
  chained : Bool := false
  deriving DecidableEq, Repr

namespace State

/-- What compiling the body of a group below a directory gives. -/
abbrev Expander := List String → List Token → Except Error (List Operation)

/-- An unchained statement leaves the directory of the one before it. -/
def fallBack (state : State) : State :=
  if state.chained then state
  else match state.anchor with
    | none => state
    | some depth => { state with stack := state.stack.take depth, anchor := none }

def pathText (root stack : List String) : String := "/".intercalate (root ++ stack)

def descend (root stack : List String) : List String → List Operation
  | [] => []
  | dir :: dirs =>
    Operation.mkdir (pathText root (stack ++ [dir])) :: descend root (stack ++ [dir]) dirs

def splitLeaf (parts : List String) (isFile : Bool) : List String × Option String :=
  if isFile then (parts.dropLast, parts.getLast?) else (parts, none)

def stepPath (state : State) (root parts : List String) (isFile : Bool) : State × List Operation :=
  let (dirs, leaf) := splitLeaf parts isFile
  let stack := state.stack ++ dirs
  ({ stack, anchor := some state.stack.length, chained := false },
    descend root state.stack dirs ++
      leaf.toList.map fun file => Operation.write (pathText root (stack ++ [file])))

def stepToken (state : State) (root : List String) (token : Token) : State × List Operation :=
  let state := if token.opensStatement then state.fallBack else state
  match token with
  | .path parts isFile => state.stepPath root parts isFile
  | .name file =>
    ({ state with chained := false }, [Operation.write (pathText root (state.stack ++ [file]))])
  | .semicolon => ({}, [])
  | .less => ({ state with chained := true }, [])
  | .ampersand => ({ state with chained := true }, [])
  | .openBracket => (state, [])
  | .closeBracket => (state, [])

/-- What one item does; a group gives what `expand` makes of its body in the current directory. -/
def stepWith (expand : Expander) (state : State) (root : List String) :
    Item → Except Error (State × List Operation)
  | .plain token => .ok (state.stepToken root token)
  | .group body =>
    let state := state.fallBack
    (expand (root ++ state.stack) body).map fun operations =>
      ({ state with anchor := none, chained := false }, operations)

def runWith (expand : Expander) (root : List String) (state : State) :
    List Item → Except Error (State × List Operation)
  | [] => .ok (state, [])
  | item :: items => do
    let (state, operations) ← state.stepWith expand root item
    let (state, more) ← runWith expand root state items
    return (state, operations ++ more)

theorem runWith_congr {expand expand' : Expander} {items : List Item}
    (same : ∀ root body, .group body ∈ items → expand root body = expand' root body)
    (root : List String) (state : State) :
    runWith expand root state items = runWith expand' root state items := by
  induction items generalizing state with
  | nil => rfl
  | cons item items ih =>
    have head : state.stepWith expand root item = state.stepWith expand' root item := by
      cases item with
      | plain token => rfl
      | group body => simp [stepWith, same _ body]
    simp only [runWith, head]
    congr 1
    funext result
    simp only [ih fun root body present => same root body (by simp [present])]

end State

theorem Item.length_lt_of_items {tokens body : List Token} {found : List Item}
    (cut : items tokens = .ok found) (present : .group body ∈ found) :
    body.length < tokens.length := by
  fun_induction items tokens generalizing found with
  | case1 =>
    cases cut
    simp at present
  | case2 => simp at cut
  | case3 rest inner after closed ih =>
    have lengths := length_closeGroup closed
    cases more : items after with
    | error e => simp [more, Except.map] at cut
    | ok others =>
      simp only [more, Except.map, Except.ok.injEq] at cut
      subst cut
      simp only [List.length_cons]
      rcases List.mem_cons.mp present with same | present
      · cases same
        omega
      · have := ih more present
        omega
  | case4 token rest _ ih =>
    cases more : items rest with
    | error e => simp [more, Except.map] at cut
    | ok others =>
      simp only [more, Except.map, Except.ok.injEq] at cut
      subst cut
      have := ih more (by simpa using present)
      simp only [List.length_cons]
      omega

/-- The operations of a script that runs below the directory `root`. The test on lengths never
fails; it says why the recursion ends. -/
def compileUnder (root : List String) (tokens : List Token) : Except Error (List Operation) := do
  let found ← Item.items tokens
  let expand : State.Expander := fun root body =>
    if body.length < tokens.length then compileUnder root body else .error .unmatchedGroup
  let (_, operations) ← State.runWith expand root {} found
  return operations
termination_by tokens.length

theorem compileUnder_eq (root : List String) (tokens : List Token) :
    compileUnder root tokens = do
      let found ← Item.items tokens
      let (_, operations) ← State.runWith compileUnder root {} found
      return operations := by
  rw [compileUnder]
  cases cut : Item.items tokens with
  | error e => rfl
  | ok found =>
    have same : ∀ root body, .group body ∈ found →
        (if body.length < tokens.length then compileUnder root body else .error .unmatchedGroup) =
          compileUnder root body :=
      fun root body present => if_pos (Item.length_lt_of_items cut present)
    simp only [bind, Except.bind]
    rw [State.runWith_congr same]

def State.step (state : State) (root : List String) (item : Item) :
    Except Error (State × List Operation) :=
  state.stepWith compileUnder root item

def compileTokens (tokens : List Token) : Except Error (List Operation) := compileUnder [] tokens

def compile (source : String) : Except Error (List Operation) :=
  compileTokens (Token.listOfText source)

end Scaffold
