import Scaffold.Error
import Scaffold.Shorthand.Token

namespace Scaffold

/-- A token, or a bracket group without its two brackets. -/
inductive Item
  | plain (token : Token)
  | group (body : List Token)
  deriving DecidableEq, Repr

namespace Item

/-- The body of a group that is open `depth` times, and what follows the bracket that closes it. -/
def closeGroup : Nat → List Token → Option (List Token × List Token)
  | _, [] => none
  | 0, .closeBracket :: rest => some ([], rest)
  | depth + 1, .closeBracket :: rest =>
    (closeGroup depth rest).map fun (body, rest) => (.closeBracket :: body, rest)
  | depth, .openBracket :: rest =>
    (closeGroup (depth + 1) rest).map fun (body, rest) => (.openBracket :: body, rest)
  | depth, token :: rest =>
    (closeGroup depth rest).map fun (body, rest) => (token :: body, rest)

theorem length_closeGroup {depth : Nat} {tokens body rest : List Token}
    (closed : closeGroup depth tokens = some (body, rest)) :
    body.length + rest.length + 1 = tokens.length := by
  fun_induction closeGroup depth tokens generalizing body rest <;>
    simp_all only [reduceCtorEq, Option.some.injEq, Prod.mk.injEq, Option.map_eq_some_iff,
      List.length_cons]
  · obtain ⟨rfl, rfl⟩ := closed
    simp
  all_goals
    rename_i ih
    obtain ⟨⟨inner, after⟩, found, rfl, rfl⟩ := closed
    have := ih found
    simp only [List.length_cons]
    omega

/-- A closing bracket where no group is open is an item like any other token. -/
def items (tokens : List Token) : Except Error (List Item) :=
  match tokens with
  | [] => .ok []
  | .openBracket :: rest =>
    match _closed : closeGroup 0 rest with
    | none => .error .unmatchedGroup
    | some (body, after) => (items after).map (group body :: ·)
  | token :: rest => (items rest).map (plain token :: ·)
termination_by tokens.length
decreasing_by
  · have := length_closeGroup ‹_›
    simp only [List.length_cons]
    omega
  · simp

end Item
end Scaffold
