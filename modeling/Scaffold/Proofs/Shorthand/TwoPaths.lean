import Scaffold.Proofs.Shorthand.Rooting

/-! A machine that keeps two paths instead of a directory and a depth to fall back to.
`runWith_view` says that it follows the machine of the compiler item by item; what is easy to see of
it, that the place to fall back to only moves down until the next `;`, so holds of both. -/

namespace Scaffold

structure TwoPaths where
  /-- Where a statement begins that is not chained. -/
  base : List String := []
  here : List String := []
  chained : Bool := false
  deriving DecidableEq, Repr

namespace TwoPaths

/-- An unchained statement goes back to the base. -/
def settle (paths : TwoPaths) : TwoPaths :=
  if paths.chained then paths else { paths with here := paths.base }

def place (root : List String) (paths : TwoPaths) (entry : String) : String :=
  "/".intercalate (root ++ (paths.here ++ [entry]))

/-- The parts of a path in turn: each is a directory, made and entered, but the last is a file to
write if the path `isFile`. -/
def follow (root : List String) (isFile : Bool) (paths : TwoPaths) :
    List String → TwoPaths × List Operation
  | [] => (paths, [])
  | part :: parts =>
    if isFile = true ∧ parts = [] then (paths, [Operation.write (paths.place root part)])
    else
      let (last, more) := follow root isFile { paths with here := paths.here ++ [part] } parts
      (last, Operation.mkdir (paths.place root part) :: more)

def stepToken (root : List String) (paths : TwoPaths) : Token → TwoPaths × List Operation
  | .path parts isFile =>
    let start := paths.settle
    follow root isFile { start with base := start.here, chained := false } parts
  | .name file =>
    let start := paths.settle
    ({ start with chained := false }, [Operation.write (start.place root file)])
  | .less => ({ paths with chained := true }, [])
  | .ampersand => ({ paths with chained := true }, [])
  | .semicolon => ({}, [])
  | .openBracket => (paths, [])
  | .closeBracket => (paths, [])

def stepWith (expand : State.Expander) (root : List String) (paths : TwoPaths) :
    Item → Except Error (TwoPaths × List Operation)
  | .plain token => .ok (paths.stepToken root token)
  | .group body =>
    let start := paths.settle
    (expand (root ++ start.here) body).map fun operations =>
      ({ start with base := start.here, chained := false }, operations)

def runWith (expand : State.Expander) (root : List String) (paths : TwoPaths) :
    List Item → Except Error (TwoPaths × List Operation)
  | [] => .ok (paths, [])
  | item :: items => do
    let (paths, operations) ← paths.stepWith expand root item
    let (paths, more) ← runWith expand root paths items
    return (paths, operations ++ more)

/-- As `Scaffold.compileUnder`, but the machine with two paths runs, in groups too. -/
def compileUnder (root : List String) (tokens : List Token) : Except Error (List Operation) := do
  let found ← Item.items tokens
  let expand : State.Expander := fun root body =>
    if body.length < tokens.length then compileUnder root body else .error .unmatchedGroup
  let (_, operations) ← runWith expand root {} found
  return operations
termination_by tokens.length

end TwoPaths

namespace State

/-- The two paths that a stack and an anchor stand for. -/
def view (state : State) : TwoPaths :=
  ⟨state.stack.take (state.anchor.getD state.stack.length), state.stack, state.chained⟩

theorem view_fallBack (state : State) : state.fallBack.view = state.view.settle := by
  unfold fallBack TwoPaths.settle
  by_cases chained : state.chained = true
  · simp [view, chained]
  · cases anchor : state.anchor with
    | none => simp [view, chained, anchor]
    | some depth =>
      have whole : (state.stack.take depth).take (state.stack.take depth).length =
          state.stack.take depth := List.take_length
      simp only [view, chained, anchor, Bool.false_eq_true, ↓reduceIte, Option.getD_none,
        Option.getD_some, whole]

theorem splitLeaf_cons (part : String) (parts : List String) (isFile : Bool) :
    splitLeaf (part :: parts) isFile =
      if isFile = true ∧ parts = [] then ([], some part)
      else (part :: (splitLeaf parts isFile).1, (splitLeaf parts isFile).2) := by
  cases isFile with
  | false => rfl
  | true =>
    cases parts with
    | nil => rfl
    | cons next parts => rfl

theorem follow_view (root parts : List String) (isFile : Bool) (paths : TwoPaths) :
    paths.follow root isFile parts =
      let (dirs, leaf) := splitLeaf parts isFile
      ({ paths with here := paths.here ++ dirs }, descend root paths.here dirs ++
        leaf.toList.map fun file =>
          Operation.write (pathText root (paths.here ++ dirs ++ [file]))) := by
  induction parts generalizing paths with
  | nil => cases isFile <;> simp [TwoPaths.follow, splitLeaf, descend]
  | cons part parts ih =>
    rw [splitLeaf_cons, TwoPaths.follow]
    split
    next => simp [TwoPaths.place, descend, pathText]
    next => simp [ih, TwoPaths.place, descend, pathText]

theorem stepToken_view {token : Token} (notOpen : token ≠ .openBracket) (root : List String)
    (state : State) : state.view.stepToken root token =
      ((state.stepToken root token).1.view, (state.stepToken root token).2) := by
  cases token with
  | openBracket => exact absurd rfl notOpen
  | path parts isFile =>
    have settled := view_fallBack state
    simp only [TwoPaths.stepToken, stepToken, Token.opensStatement, ↓reduceIte, ← settled, stepPath,
      follow_view]
    simp [view]
  | name file =>
    have settled := view_fallBack state
    simp only [TwoPaths.stepToken, stepToken, Token.opensStatement, ↓reduceIte, ← settled]
    simp [view, TwoPaths.place, pathText]
  | less | ampersand => simp [TwoPaths.stepToken, stepToken, Token.opensStatement, view]
  | semicolon => simp [TwoPaths.stepToken, stepToken, view]
  | closeBracket => simp [TwoPaths.stepToken, stepToken, Token.opensStatement]

theorem stepWith_view {expand expand' : Expander} {item : Item} (noOpen : item ≠ .plain .openBracket)
    (same : ∀ root body, item = .group body → expand' root body = expand root body)
    (root : List String) (state : State) : state.view.stepWith expand' root item =
      (state.stepWith expand root item).map fun result => (result.1.view, result.2) := by
  cases item with
  | plain token =>
    have notOpen : token ≠ .openBracket := fun bracket => noOpen (bracket ▸ rfl)
    rw [TwoPaths.stepWith, stepToken_view notOpen]
    rfl
  | group body =>
    have settled := view_fallBack state
    simp only [TwoPaths.stepWith, stepWith, ← settled, same _ body rfl]
    rw [map_map]
    simp [view]

theorem runWith_view {expand expand' : Expander} {items : List Item}
    (noOpen : .plain .openBracket ∉ items)
    (same : ∀ root body, .group body ∈ items → expand' root body = expand root body)
    (root : List String) (state : State) : TwoPaths.runWith expand' root state.view items =
      (runWith expand root state items).map fun result => (result.1.view, result.2) := by
  induction items generalizing state with
  | nil => rfl
  | cons item items ih =>
    have others : .plain .openBracket ∉ items := fun member => noOpen (by simp [member])
    have here : state.view.stepWith expand' root item =
        (state.stepWith expand root item).map fun result => (result.1.view, result.2) :=
      stepWith_view (fun bracket => noOpen (by simp [bracket]))
        (fun root body group => same root body (by simp [group])) root state
    have rest := ih others fun root body member => same root body (by simp [member])
    rw [TwoPaths.runWith, here]
    cases stepped : state.stepWith expand root item with
    | error e =>
      rw [runWith, stepped]
      rfl
    | ok result =>
      rw [runWith_cons_of_ok stepped, map_map]
      change (TwoPaths.runWith expand' root result.1.view items >>=
        fun more => .ok (more.1, result.2 ++ more.2)) = _
      rw [rest, bind_ok_eq_map fun more : TwoPaths × List Operation =>
        (more.1, result.2 ++ more.2), map_map]

/-- The machine never falls back to a depth that it has not reached. -/
def Anchored (state : State) : Prop := ∀ depth, state.anchor = some depth → depth ≤ state.stack.length

theorem Anchored.fallBack {state : State} (anchored : state.Anchored) : state.fallBack.Anchored := by
  unfold State.fallBack
  split
  · exact anchored
  · cases anchor : state.anchor with
    | none => exact anchored
    | some depth =>
      intro other same
      cases same

theorem Anchored.stepToken {state : State} (anchored : state.Anchored) (root : List String)
    (token : Token) : (state.stepToken root token).1.Anchored := by
  cases token with
  | path parts isFile =>
    intro depth same
    have before : depth = state.fallBack.stack.length := by
      simpa [State.stepToken, stepPath, Token.opensStatement] using same.symm
    rw [before]
    simp [State.stepToken, stepPath, Token.opensStatement]
  | name file | openBracket => exact anchored.fallBack
  | less | ampersand | closeBracket => exact anchored
  | semicolon =>
    intro depth same
    cases same

theorem Anchored.runWith {expand : Expander} {root : List String} {items : List Item}
    {state last : State} {operations : List Operation} (anchored : state.Anchored)
    (ran : runWith expand root state items = .ok (last, operations)) : last.Anchored := by
  refine runWith_preserves (motive := fun _ state => state.Anchored) ?_ [] anchored ran
  intro item _ _ state next operations anchored stepped
  obtain ⟨token, rfl, same⟩ | ⟨body, rfl, -, rfl⟩ := stepWith_eq_ok stepped
  · have here := anchored.stepToken root token
    rwa [same] at here
  · intro depth same
    cases same

theorem base_within_fallBack (state : State) : state.view.base <+: state.fallBack.stack := by
  have settled : state.fallBack.stack = state.view.settle.here :=
    congrArg TwoPaths.here (view_fallBack state)
  rw [settled, TwoPaths.settle]
  split
  · exact List.take_prefix _ _
  · exact List.prefix_rfl

theorem base_fallBack (state : State) : state.fallBack.view.base = state.view.base := by
  rw [view_fallBack, TwoPaths.settle]
  split <;> rfl

theorem isBelow_of_mem_descend {root stack dirs : List String} {operation : Operation}
    (present : operation ∈ descend root stack dirs) : operation.IsBelow (root ++ stack) := by
  induction dirs generalizing stack with
  | nil => cases present
  | cons dir dirs ih =>
    rcases List.mem_cons.mp present with rfl | present
    · refine ⟨[dir], List.cons_ne_nil _ _, ?_⟩
      rw [List.append_assoc]
      rfl
    · exact (ih present).of_within (List.prefix_append stack [dir])

theorem isBelow_write (root stack : List String) (file : String) :
    (Operation.write (pathText root (stack ++ [file]))).IsBelow (root ++ stack) := by
  refine ⟨[file], List.cons_ne_nil _ _, ?_⟩
  rw [List.append_assoc]
  rfl

theorem stepToken_base (state : State) {token : Token} (noReset : token ≠ .semicolon)
    (root : List String) :
    state.view.base <+: (state.stepToken root token).1.view.base ∧
      ∀ operation ∈ (state.stepToken root token).2, operation.IsBelow (root ++ state.view.base) := by
  have within := base_within_fallBack state
  cases token with
  | path parts isFile =>
    refine ⟨by simpa [stepToken, stepPath, Token.opensStatement, view] using within, ?_⟩
    intro operation present
    simp only [stepToken, stepPath, Token.opensStatement, ↓reduceIte, List.mem_append,
      List.mem_map] at present
    rcases present with made | ⟨file, -, rfl⟩
    · exact (isBelow_of_mem_descend made).of_within within
    · exact (isBelow_write root _ file).of_within (within.trans (List.prefix_append _ _))
  | name file =>
    have kept : (state.stepToken root (.name file)).1.view.base = state.view.base :=
      base_fallBack state
    refine ⟨kept ▸ List.prefix_rfl, ?_⟩
    intro operation present
    rw [List.mem_singleton.mp present]
    exact (isBelow_write root _ file).of_within within
  | openBracket =>
    have kept : (state.stepToken root .openBracket).1.view.base = state.view.base :=
      base_fallBack state
    exact ⟨kept ▸ List.prefix_rfl, by simp [stepToken]⟩
  | less | ampersand | closeBracket => exact ⟨List.prefix_rfl, by simp [stepToken]⟩
  | semicolon => exact absurd rfl noReset

theorem runWith_base {items : List Item} (noReset : .plain .semicolon ∉ items)
    {root : List String} {state last : State} {operations : List Operation}
    (ran : runWith compileUnder root state items = .ok (last, operations)) :
    state.view.base <+: last.view.base ∧
      ∀ operation ∈ operations, operation.IsBelow (root ++ state.view.base) := by
  induction items generalizing state operations with
  | nil =>
    cases ran
    exact ⟨List.prefix_rfl, by simp⟩
  | cons item items ih =>
    obtain ⟨next, first, more, stepped, rest, rfl⟩ := runWith_cons_eq_ok ran
    have later := ih (fun member => noReset (by simp [member])) rest
    have here : state.view.base <+: next.view.base ∧
        ∀ operation ∈ first, operation.IsBelow (root ++ state.view.base) := by
      obtain ⟨token, rfl, same⟩ | ⟨body, rfl, expanded, rfl⟩ := stepWith_eq_ok stepped
      · have other : token ≠ .semicolon := fun reset => noReset (by simp [reset])
        have moved := stepToken_base state other root
        rwa [same] at moved
      · have within := base_within_fallBack state
        refine ⟨by simpa [view] using within, ?_⟩
        intro operation present
        exact (isBelow_of_compileUnder expanded present).of_within within
    refine ⟨here.1.trans later.1, ?_⟩
    intro operation present
    rcases List.mem_append.mp present with inFirst | inMore
    · exact here.2 operation inFirst
    · exact (later.2 operation inMore).of_within here.1

end State

theorem TwoPaths.compileUnder_eq (root : List String) (tokens : List Token) :
    TwoPaths.compileUnder root tokens = Scaffold.compileUnder root tokens := by
  induction tokens using Item.wellFounded_isGroupOf.induction generalizing root with
  | _ tokens ih =>
    cases found : Item.items tokens with
    | error e =>
      rw [TwoPaths.compileUnder, compileUnder_eq_error_iff.mpr found, found]
      rfl
    | ok items =>
      have cut := Item.cut_of_items found
      have same : ∀ root body, .group body ∈ items →
          (if body.length < tokens.length then TwoPaths.compileUnder root body
            else .error .unmatchedGroup) = Scaffold.compileUnder root body := by
        intro root body present
        rw [if_pos (Item.length_lt_of_items found present)]
        exact ih body ⟨items, found, present⟩ root
      have noOpen : .plain .openBracket ∉ items := fun bracket => cut.ne_openBracket bracket rfl
      rw [TwoPaths.compileUnder, compileUnder_of_cut cut, found]
      change (TwoPaths.runWith _ root (State.view {}) items >>= fun result => .ok result.2) = _
      rw [State.runWith_view noOpen same, bind_ok_eq_map fun result : TwoPaths × List Operation =>
        result.2, map_map]

/-- The machine with two paths and the machine of the compiler go through the items of any tokens
together: after each item they stand at the same place, with the same operations behind them. The
anchor is a depth of the stack, and until the next `;` nothing is made outside the base. -/
theorem run_refines_twoPaths {tokens : List Token} {found : List Item}
    (cut : Item.items tokens = .ok found) (root : List String) :
    compileUnder root tokens = TwoPaths.compileUnder root tokens ∧
      ∀ done rest, found = done ++ rest → ∃ state operations,
        State.runWith compileUnder root {} done = .ok (state, operations) ∧
        TwoPaths.runWith TwoPaths.compileUnder root {} done =
          .ok (⟨state.stack.take (state.anchor.getD state.stack.length), state.stack,
            state.chained⟩, operations) ∧
        (∀ depth, state.anchor = some depth → depth ≤ state.stack.length) ∧
        ∀ more after, rest = more ++ after → .plain .semicolon ∉ more → ∃ next others,
          State.runWith compileUnder root state more = .ok (next, others) ∧
          state.view.base <+: next.view.base ∧
          ∀ operation ∈ others, operation.IsBelow (root ++ state.view.base) := by
  have pieces := Item.cut_of_items cut
  refine ⟨(TwoPaths.compileUnder_eq root tokens).symm, ?_⟩
  rintro done rest rfl
  have noOpen : .plain .openBracket ∉ done := fun bracket =>
    pieces.ne_openBracket (List.mem_append_left rest bracket) rfl
  obtain ⟨state, operations, ran⟩ :=
    exists_run_of_cut pieces (List.subset_append_left done rest) root {}
  have followed : TwoPaths.runWith TwoPaths.compileUnder root (State.view {}) done =
      (State.runWith compileUnder root {} done).map fun result => (result.1.view, result.2) :=
    State.runWith_view noOpen (fun root body _ => TwoPaths.compileUnder_eq root body) root {}
  have start : State.Anchored {} := by
    intro depth same
    cases same
  rw [ran] at followed
  refine ⟨state, operations, ran, followed, start.runWith ran, ?_⟩
  -- What follows may start anywhere in the run: the items after it are cut from the same tokens.
  rintro more after rfl noReset
  have among : more ⊆ done ++ (more ++ after) := by
    intro item present
    simp [present]
  obtain ⟨next, others, ranOn⟩ := exists_run_of_cut pieces among root state
  exact ⟨next, others, ranOn, State.runWith_base noReset ranOn⟩

/-- The chained path ends in a file, so the name behind it stands beside its directory; the group
stands there too and moves the base no further. -/
theorem run_refines_twoPaths_of_chain :
    let tokens : List Token := [.path ["a"] false, .less, .path ["b", "x.txt"] true, .name "y",
      .openBracket, .name "z", .closeBracket]
    let done := [Item.plain (.path ["a"] false), .plain .less, .plain (.path ["b", "x.txt"] true)]
    let rest := [Item.plain (.name "y"), .group [.name "z"]]
    let made := [Operation.mkdir "top/a", Operation.mkdir "top/a/b",
      Operation.write "top/a/b/x.txt"]
    Item.items tokens = .ok (done ++ rest) ∧
      State.runWith compileUnder ["top"] {} done = .ok (⟨["a", "b"], some 1, false⟩, made) ∧
      TwoPaths.runWith TwoPaths.compileUnder ["top"] {} done =
        .ok (⟨["a"], ["a", "b"], false⟩, made) ∧
      TwoPaths.runWith TwoPaths.compileUnder ["top"] {} (done ++ rest) =
        .ok (⟨["a"], ["a"], false⟩,
          made ++ [Operation.write "top/a/y", Operation.write "top/a/z"]) := by
  intro tokens done rest made
  have cut : Item.items tokens = .ok (done ++ rest) := by cbv
  have early : State.runWith compileUnder ["top"] {} done =
      .ok (⟨["a", "b"], some 1, false⟩, made) := by cbv
  have whole : State.runWith compileUnder ["top"] {} (done ++ rest) =
      .ok (⟨["a"], none, false⟩,
        made ++ [Operation.write "top/a/y", Operation.write "top/a/z"]) := by cbv
  obtain ⟨-, follows⟩ := run_refines_twoPaths cut ["top"]
  obtain ⟨state, operations, ran, followed, -⟩ := follows done rest rfl
  obtain ⟨last, all, ranOn, followedOn, -⟩ := follows (done ++ rest) [] (List.append_nil _).symm
  rw [early] at ran
  rw [whole] at ranOn
  cases ran
  cases ranOn
  exact ⟨cut, early, followed, followedOn⟩

end Scaffold
