import Scaffold.Proofs.Shorthand.Rooting
import Scaffold.Proofs.Shorthand.Written

/-! Two other ways to treat a group: its tokens are written out and their text is compiled as a
script, whose operations go below the group's directory afterwards; or the closing bracket is
compiled along with the body. Both walk over the items on their own (`State.expandItems`).
`compile_eq_expandText` says that neither makes a difference. -/

namespace Scaffold

/-- The operations of items. A token does what it does in the machine. A group that is not chained
stands where the statement before it began, and behind it everything stands there: nothing is left to
fall back to, and nothing is chained. -/
def State.expandItems (expand : Expander) (root : List String) (state : State) :
    List Item → Except Error (List Operation)
  | [] => .ok []
  | .plain token :: items =>
    let (next, operations) := state.stepToken root token
    (expandItems expand root next items).map (operations ++ ·)
  | .group body :: items => do
    let here := if state.chained then state.stack
      else state.stack.take (state.anchor.getD state.stack.length)
    let operations ← expand here body
    (expandItems expand root { stack := here } items).map (operations ++ ·)

/-- The operations of tokens, where `expand` gets each group with the directory it stands in. -/
def expandWith (expand : State.Expander) (root : List String) (tokens : List Token) :
    Except Error (List Operation) := do
  let found ← Item.items tokens
  State.expandItems expand root {} found

/-- What is handed on of a group: its body, and if `keeps` the bracket that closes it. -/
def handedOn (keeps : Bool) (body : List Token) : List Token :=
  if keeps then body ++ [.closeBracket] else body

/-- The operations of a text, where a group is a text of its own. As in `compileUnder`, the test on
lengths never fails. -/
def expandText (keeps : Bool) (source : String) : Except Error (List Operation) :=
  let expand : State.Expander := fun here body =>
    let text := Token.listText (handedOn keeps body)
    if (Token.listOfText text).length < (Token.listOfText source).length then
      (expandText keeps text).map (List.map (Operation.under here))
    else .error .unmatchedGroup
  expandWith expand [] (Token.listOfText source)
termination_by (Token.listOfText source).length

/-- The operations of tokens below `root`, where a group may bring its closing bracket along. -/
def compileHandedOn (keeps : Bool) (root : List String) (tokens : List Token) :
    Except Error (List Operation) :=
  let expand : State.Expander := fun here body =>
    if (handedOn keeps body).length < tokens.length then
      compileHandedOn keeps (root ++ here) (handedOn keeps body)
    else .error .unmatchedGroup
  expandWith expand root tokens
termination_by tokens.length

namespace State

theorem stack_fallBack (state : State) : state.fallBack.stack =
    if state.chained then state.stack
    else state.stack.take (state.anchor.getD state.stack.length) := by
  unfold fallBack
  split
  next => rfl
  next =>
    cases state.anchor with
    | none => exact List.take_length.symm
    | some depth => rfl

theorem expandItems_eq {expand expand' : Expander} {root : List String} {items : List Item}
    (same : ∀ here body, .group body ∈ items → expand here body = expand' (root ++ here) body)
    (state : State) : expandItems expand root state items =
      (runWith expand' root state items).map (·.2) := by
  induction items generalizing state with
  | nil => rfl
  | cons item items ih =>
    have later := ih fun here body present => same here body (List.mem_cons_of_mem _ present)
    cases item with
    | plain token =>
      rcases done : state.stepToken root token with ⟨next, operations⟩
      have stepped : state.stepWith expand' root (.plain token) = .ok (next, operations) :=
        congrArg Except.ok done
      rw [runWith_cons_of_ok stepped, map_map, expandItems, done]
      exact (congrArg _ (later next)).trans (map_map _ _)
    | group body =>
      have here := same state.fallBack.stack body List.mem_cons_self
      rw [expandItems, ← stack_fallBack]
      cases expanded : expand' (root ++ state.fallBack.stack) body with
      | error e =>
        rw [runWith, stepWith, expanded]
        simp only [here, expanded]
        rfl
      | ok operations =>
        have stepped : state.stepWith expand' root (.group body) =
            .ok ({ stack := state.fallBack.stack }, operations) := by
          rw [stepWith, expanded]
          rfl
        rw [runWith_cons_of_ok stepped, map_map]
        simp only [here, expanded]
        exact (congrArg _ (later _)).trans (map_map _ _)

end State

theorem expandWith_eq {expand expand' : State.Expander} {root : List String} {tokens : List Token}
    (same : ∀ here body, Item.IsGroupOf body tokens →
      expand here body = expand' (root ++ here) body) :
    expandWith expand root tokens = compileWith expand' root tokens := by
  cases found : Item.items tokens with
  | error e =>
    rw [expandWith, compileWith, found]
    rfl
  | ok items =>
    rw [compileWith_of_cut (Item.cut_of_items found), expandWith, found]
    exact State.expandItems_eq (fun here body present => same here body ⟨items, found, present⟩) {}

theorem length_handedOn_lt (keeps : Bool) {tokens body : List Token}
    (inside : Item.IsGroupOf body tokens) : (handedOn keeps body).length < tokens.length := by
  obtain ⟨found, cut, present⟩ := inside
  have bound := (Item.cut_of_items cut).length_group present
  cases keeps with
  | true =>
    simp only [handedOn, ↓reduceIte, List.length_append, List.length_singleton]
    omega
  | false =>
    simp only [handedOn, Bool.false_eq_true, ↓reduceIte]
    omega

theorem compileUnder_append_closeBracket {tokens : List Token} {found : List Item}
    (cut : Item.Cut tokens found) (root : List String) :
    compileUnder root (tokens ++ [.closeBracket]) = compileUnder root tokens := by
  have longer : Item.Cut (tokens ++ [.closeBracket]) (found ++ [.plain .closeBracket]) :=
    cut.append (.plain (by decide) .nil)
  rw [compileUnder_of_cut longer, compileUnder_of_cut cut]
  obtain ⟨last, operations, ran⟩ := exists_run_of_cut cut (List.Subset.refl found) root {}
  rw [State.runWith_append_of_ok ran, ran]
  exact congrArg Except.ok (List.append_nil operations)

theorem compileUnder_handedOn (keeps : Bool) {tokens body : List Token}
    (inside : Item.IsGroupOf body tokens) (root : List String) :
    compileUnder root (handedOn keeps body) = compileUnder root body := by
  cases keeps with
  | false => rfl
  | true =>
    obtain ⟨found, cut⟩ :=
      Item.exists_cut_iff.mpr (Token.openAfter_of_balanced inside.balanced 0)
    exact compileUnder_append_closeBracket cut root

theorem compileHandedOn_eq_compileUnder (keeps : Bool) (root : List String) (tokens : List Token) :
    compileHandedOn keeps root tokens = compileUnder root tokens := by
  induction size : tokens.length using Nat.strongRecOn generalizing root tokens with
  | _ bound ih =>
    rw [compileHandedOn, compileUnder_eq_compileWith]
    apply expandWith_eq
    intro here body inside
    have shorter := length_handedOn_lt keeps inside
    rw [if_pos shorter, ih _ (size ▸ shorter) _ _ rfl]
    exact compileUnder_handedOn keeps inside _

theorem compileHandedOn_eq (keeps : Bool) (root : List String) (tokens : List Token) :
    compileHandedOn keeps root tokens =
      expandWith (fun here body => compileHandedOn keeps (root ++ here) (handedOn keeps body)) root
        tokens := by
  rw [compileHandedOn_eq_compileUnder, compileUnder_eq_compileWith]
  refine (expandWith_eq fun here body inside => ?_).symm
  rw [compileHandedOn_eq_compileUnder, compileUnder_handedOn keeps inside]

theorem listOfText_handedOn (keeps : Bool) {source : String} {body : List Token}
    (inside : Item.IsGroupOf body (Token.listOfText source)) :
    Token.listOfText (Token.listText (handedOn keeps body)) = handedOn keeps body := by
  apply Token.listOfText_listText
  intro token member
  have fromText : ∀ token ∈ body, token.WellFormed := fun token inBody =>
    Token.wellFormed_of_mem_scan (inside.subset inBody)
  cases keeps with
  | false => exact fromText token member
  | true =>
    rcases List.mem_append.mp member with inBody | closing
    · exact fromText token inBody
    · rw [List.mem_singleton.mp closing]
      trivial

theorem map_under_handedOn (keeps : Bool) {source : String} {body : List Token}
    (inside : Item.IsGroupOf body (Token.listOfText source)) (here : List String) :
    (compileTokens (Token.listOfText (Token.listText (handedOn keeps body)))).map
      (List.map (Operation.under here)) = compileUnder here body := by
  rw [listOfText_handedOn keeps inside, ← compileUnder_eq_map, compileUnder_handedOn keeps inside]

theorem expandText_eq_compileTokens (keeps : Bool) (source : String) :
    expandText keeps source = compileTokens (Token.listOfText source) := by
  induction size : (Token.listOfText source).length using Nat.strongRecOn generalizing source with
  | _ bound ih =>
    rw [expandText, compileTokens, compileUnder_eq_compileWith]
    apply expandWith_eq
    intro here body inside
    -- The measure is that of the text written out, which is that of the tokens it came from.
    have shorter := length_handedOn_lt keeps inside
    rw [← listOfText_handedOn keeps inside] at shorter
    rw [if_pos shorter, ih _ (size ▸ shorter) _ rfl]
    exact map_under_handedOn keeps inside here

theorem expandText_eq (keeps : Bool) (source : String) :
    expandText keeps source =
      expandWith (fun here body => (expandText keeps (Token.listText (handedOn keeps body))).map
        (List.map (Operation.under here))) [] (Token.listOfText source) := by
  rw [expandText_eq_compileTokens, compileTokens, compileUnder_eq_compileWith]
  refine (expandWith_eq fun here body inside => ?_).symm
  rw [expandText_eq_compileTokens]
  exact map_under_handedOn keeps inside here

/-- Compiling groups in place gives what writing them out, reading them again and putting the
directory in front gives, errors included, with the closing bracket handed on or not. The last two
equations are the recursions that the other sides stand for. -/
theorem compile_eq_expandText (keeps : Bool) (source : String) :
    compile source = expandText keeps source ∧
      compile source = compileHandedOn keeps [] (Token.listOfText source) ∧
      expandText keeps source =
        expandWith (fun here body => (expandText keeps (Token.listText (handedOn keeps body))).map
          (List.map (Operation.under here))) [] (Token.listOfText source) ∧
      ∀ root tokens, compileHandedOn keeps root tokens =
        expandWith (fun here body => compileHandedOn keeps (root ++ here) (handedOn keeps body)) root
          tokens := by
  refine ⟨?_, ?_, expandText_eq keeps source, compileHandedOn_eq keeps⟩
  · exact (expandText_eq_compileTokens keeps source).symm
  · exact (compileHandedOn_eq_compileUnder keeps [] _).symm

/-- A group inside a group, below a directory each; the last name stands where the outer group
stood. -/
theorem compile_eq_expandText_in_group :
    let source := "/a/ < [ x /b/ < [ y ] ] z"
    let operations := [Operation.mkdir "a", Operation.write "a/x", Operation.mkdir "a/b",
      Operation.write "a/b/y", Operation.write "a/z"]
    compile source = .ok operations ∧ expandText false source = .ok operations ∧
      expandText true source = .ok operations ∧
      compileHandedOn true [] (Token.listOfText source) = .ok operations := by
  intro source operations
  have scanned : Token.listOfText source = [.path ["a"] false, .less, .openBracket, .name "x",
      .path ["b"] false, .less, .openBracket, .name "y", .closeBracket, .closeBracket,
      .name "z"] := by decide +kernel
  have compiled : compile source = .ok operations := by
    rw [compile, scanned]
    cbv
  obtain ⟨plain, -⟩ := compile_eq_expandText false source
  obtain ⟨kept, inPlace, -⟩ := compile_eq_expandText true source
  exact ⟨compiled, plain ▸ compiled, kept ▸ compiled, inPlace ▸ compiled⟩

end Scaffold
