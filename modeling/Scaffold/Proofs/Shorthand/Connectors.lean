import Mathlib.Data.List.Basic
import Mathlib.Logic.Relation
import Scaffold.Proofs.Shorthand.Around
import Scaffold.Proofs.Shorthand.Sequence

/-! Edits of a script that nobody can tell from its operations. A connector is lost before anything
that resets the machine, and after anything that leaves no depth to fall back to
(`State.runWith_of_free`). `compileFrom_insert` says so where no group is open, `compileUnder_insert`
carries it into groups at any depth, and `compileTokens_of_edits` puts any number of edits
together. -/

namespace Scaffold

namespace Token

/-- A place between tokens where one connector more makes no difference. -/
inductive Slack : List Token → List Token → Prop
  | start (post : List Token) : Slack [] post
  | afterOpen (front post : List Token) : Slack (front ++ [openBracket]) post
  | afterSemicolon (front post : List Token) : Slack (front ++ [semicolon]) post
  | afterGroup (front post : List Token) (closes : 0 < openAfter 0 front) :
      Slack (front ++ [closeBracket]) post
  | afterConnector (front post : List Token) {other : Token} (connects : other.isConnector) :
      Slack (front ++ [other]) post
  | finish (pre : List Token) : Slack pre []
  | beforeSemicolon (pre back : List Token) : Slack pre (semicolon :: back)
  | beforeClose (pre back : List Token) (closes : 0 < openAfter 0 pre) :
      Slack pre (closeBracket :: back)
  | beforeConnector (pre back : List Token) {other : Token} (connects : other.isConnector) :
      Slack pre (other :: back)

/-- One edit, at whatever depth. A connector put in beside another doubles it, and taking it out
again merges the two. A `]` closes a group where one is open before it. -/
inductive Edit : List Token → List Token → Prop
  | exchange (pre post : List Token) {connector other : Token} (connects : connector.isConnector)
      (connectsToo : other.isConnector) : Edit (pre ++ connector :: post) (pre ++ other :: post)
  | insert (pre post : List Token) {connector : Token} (connects : connector.isConnector)
      (slack : Slack pre post) : Edit (pre ++ post) (pre ++ connector :: post)
  | dropStray (pre post : List Token) (stray : openAfter 0 pre = 0) :
      Edit (pre ++ closeBracket :: post) (pre ++ post)

theorem isConnector_iff {token : Token} : token.isConnector ↔ token = less ∨ token = ampersand := by
  cases token <;> simp [isConnector]

theorem openAfter_connector {connector : Token} (connects : connector.isConnector) (depth : Nat)
    (rest : List Token) : openAfter depth (connector :: rest) = openAfter depth rest := by
  rcases isConnector_iff.mp connects with rfl | rfl
  · rfl
  · rfl

theorem balanced_connector {connector : Token} (connects : connector.isConnector) (depth : Nat)
    (rest : List Token) : Balanced depth (connector :: rest) ↔ Balanced depth rest := by
  rcases isConnector_iff.mp connects with rfl | rfl
  · simp [Balanced]
  · simp [Balanced]

theorem Slack.inside {front back inner outer : List Token}
    (slack : Slack (front ++ openBracket :: inner) (outer ++ closeBracket :: back))
    (balanced : Balanced 0 (inner ++ outer)) : Slack inner outer := by
  rcases List.eq_nil_or_concat' inner with rfl | ⟨inner, last, rfl⟩
  · exact .start outer
  cases outer with
  | nil => exact .finish _
  | cons next outer =>
    have shape : front ++ openBracket :: (inner ++ [last]) =
        front ++ openBracket :: inner ++ [last] := by simp
    rw [shape] at slack
    generalize whole : front ++ openBracket :: inner ++ [last] = pre at slack
    -- The same token stands beside the place, among all tokens and within the group.
    cases slack with
    | start => simp at whole
    | afterOpen =>
      cases (List.append_inj' whole rfl).2
      exact .afterOpen inner _
    | afterSemicolon =>
      cases (List.append_inj' whole rfl).2
      exact .afterSemicolon inner _
    | afterGroup =>
      cases (List.append_inj' whole rfl).2
      rw [List.append_assoc] at balanced
      exact .afterGroup inner _ (openAfter_pos_of_balanced balanced)
    | afterConnector _ _ connects =>
      cases (List.append_inj' whole rfl).2
      exact .afterConnector inner _ connects
    | beforeSemicolon => exact .beforeSemicolon _ outer
    | beforeClose => exact .beforeClose _ outer (openAfter_pos_of_balanced balanced)
    | beforeConnector _ _ connects => exact .beforeConnector _ outer connects

end Token

namespace State

variable {state : State}

theorem fallBack_of_free (free : state.anchor = none) : state.fallBack = state := by
  unfold fallBack
  rw [free]
  exact ite_self state

theorem stepWith_of_free {expand : Expander} (free : state.anchor = none) (root : List String)
    (item : Item) :
    { state with chained := true }.stepWith expand root item = state.stepWith expand root item ∨
      { state with chained := true }.stepWith expand root item =
          .ok ({ state with chained := true }, []) ∧
        state.stepWith expand root item = .ok (state, []) := by
  have here : state.fallBack = state := fallBack_of_free free
  have chained : { state with chained := true }.fallBack = { state with chained := true } :=
    fallBack_of_free free
  cases item with
  | group body =>
    left
    rw [stepWith, stepWith, here, chained]
  | plain token =>
    cases token with
    | path parts isFile =>
      left
      simp only [stepWith, stepToken, Token.opensStatement, ↓reduceIte, here, chained]
      rfl
    | name file =>
      left
      simp only [stepWith, stepToken, Token.opensStatement, ↓reduceIte, here, chained]
    | less | ampersand | semicolon => exact .inl rfl
    | openBracket =>
      right
      simp only [stepWith, stepToken, Token.opensStatement, ↓reduceIte, here, chained, and_self]
    | closeBracket => exact .inr ⟨rfl, rfl⟩

theorem runWith_of_free {expand : Expander} (free : state.anchor = none) (root : List String)
    (items : List Item) :
    (runWith expand root { state with chained := true } items).map (·.2) =
      (runWith expand root state items).map (·.2) := by
  induction items with
  | nil => rfl
  | cons item items ih =>
    rcases stepWith_of_free free root item with same | ⟨first, second⟩
    · rw [runWith, runWith, same]
    · rw [runWith_cons_of_ok first, runWith_cons_of_ok second, map_map, map_map]
      exact ih

end State

section Laws
variable {connector : Token} {root : List String}

theorem compileFrom_of_free {state : State} (free : state.anchor = none) (root : List String)
    (tokens : List Token) :
    compileFrom { state with chained := true } root tokens = compileFrom state root tokens := by
  cases cut : Item.items tokens with
  | error e => rw [compileFrom_eq_error_iff.mpr cut, compileFrom_eq_error_iff.mpr cut]
  | ok found =>
    have cut := Item.cut_of_items cut
    rw [compileFrom_of_cut cut, compileFrom_of_cut cut, State.runWith_of_free free]

theorem compileFrom_connector (connects : connector.isConnector) (state : State)
    (root : List String) (tokens : List Token) :
    compileFrom state root (connector :: tokens) =
      compileFrom { state with chained := true } root tokens := by
  rcases Token.isConnector_iff.mp connects with rfl | rfl
  · exact compileFrom_silent (by decide) rfl state root tokens
  · exact compileFrom_silent (by decide) rfl state root tokens

theorem compileFrom_closeBracket (state : State) (root : List String) (tokens : List Token) :
    compileFrom state root (.closeBracket :: tokens) = compileFrom state root tokens :=
  compileFrom_silent (by decide) rfl state root tokens

theorem compileFrom_group {body : List Token} (balanced : Token.Balanced 0 body) (state : State)
    (root : List String) :
    ∃ operations, compileUnder (root ++ state.fallBack.stack) body = .ok operations ∧
      ∀ tokens, compileFrom state root (.openBracket :: body ++ .closeBracket :: tokens) =
        (compileFrom { state.fallBack with anchor := none, chained := false } root tokens).map
          (operations ++ ·) := by
  obtain ⟨operations, compiled⟩ := exists_compileUnder (Token.openAfter_of_balanced balanced 0)
    (root ++ state.fallBack.stack)
  refine ⟨operations, compiled, ?_⟩
  intro tokens
  have cut : Item.Cut (.openBracket :: body ++ [.closeBracket]) [.group body] :=
    .group balanced .nil
  have stepped : state.stepWith compileUnder root (.group body) =
      .ok ({ state.fallBack with anchor := none, chained := false }, operations) := by
    rw [State.stepWith, compiled]
    rfl
  have ran := State.runWith_cons_of_ok stepped []
  have shape : Token.openBracket :: body ++ .closeBracket :: tokens =
      .openBracket :: body ++ [.closeBracket] ++ tokens := by simp
  rw [shape, compileFrom_append cut (ran.trans rfl), List.append_nil]

theorem compileFrom_congr {front second second' : List Token}
    (closed : Token.openAfter 0 front = 0)
    (same : ∀ state, compileFrom state root second = compileFrom state root second')
    (state : State) :
    compileFrom state root (front ++ second) = compileFrom state root (front ++ second') := by
  obtain ⟨found, cut⟩ := Item.exists_cut_iff.mpr closed
  obtain ⟨last, operations, ran⟩ := exists_run_of_cut cut (List.Subset.refl found) root state
  rw [compileFrom_append cut ran, compileFrom_append cut ran, same last]

theorem compileFrom_of_free_connector (connects : connector.isConnector) {state : State}
    (free : state.anchor = none) (root : List String) (tokens : List Token) :
    compileFrom state root (connector :: tokens) = compileFrom state root tokens :=
  (compileFrom_connector connects state root tokens).trans (compileFrom_of_free free root tokens)

theorem compileFrom_insert {pre post : List Token} (connects : connector.isConnector)
    (slack : Token.Slack pre post) (closed : Token.openAfter 0 pre = 0) (root : List String) :
    compileFrom {} root (pre ++ connector :: post) = compileFrom {} root (pre ++ post) := by
  cases slack with
  | start => exact compileFrom_of_free_connector connects rfl root post
  | afterOpen front =>
    rw [Token.openAfter_append] at closed
    cases closed
  | afterSemicolon front =>
    rw [Token.openAfter_append] at closed
    rw [List.append_assoc, List.append_assoc]
    apply compileFrom_congr closed
    intro state
    have fresh : compileFrom {} root (connector :: post) = compileFrom {} root post :=
      compileFrom_of_free_connector connects rfl root post
    rw [compileFrom_start, compileFrom_start] at fresh
    simpa [compileFrom_semicolon] using fresh
  | afterGroup front _ closes =>
    obtain ⟨before, body, rfl, above, balanced⟩ := Item.exists_group closes closed
    have shape : ∀ rest, before ++ Token.openBracket :: body ++ [.closeBracket] ++ rest =
        before ++ (.openBracket :: body ++ .closeBracket :: rest) := by simp
    rw [shape, shape]
    apply compileFrom_congr above
    intro state
    obtain ⟨operations, -, after⟩ := compileFrom_group balanced state root
    rw [after, after, compileFrom_of_free_connector connects rfl]
  | afterConnector front _ connectsToo =>
    have step := Token.openAfter_connector connectsToo (Token.openAfter 0 front) []
    rw [Token.openAfter_append, step] at closed
    rw [List.append_assoc, List.append_assoc]
    apply compileFrom_congr closed
    intro state
    simp [compileFrom_connector connects, compileFrom_connector connectsToo]
  | finish =>
    apply compileFrom_congr closed
    intro state
    rw [compileFrom_connector connects, compileFrom_of_cut .nil, compileFrom_of_cut .nil]
    rfl
  | beforeSemicolon =>
    apply compileFrom_congr closed
    intro state
    rw [compileFrom_connector connects, compileFrom_semicolon, compileFrom_semicolon]
  | beforeClose _ _ closes => omega
  | beforeConnector _ _ connectsToo =>
    apply compileFrom_congr closed
    intro state
    simp [compileFrom_connector connects, compileFrom_connector connectsToo]

theorem compileUnder_insert {pre post : List Token} (around : Item.Around pre post)
    (connects : connector.isConnector) (slack : Token.Slack pre post) (root : List String) :
    compileUnder root (pre ++ connector :: post) = compileUnder root (pre ++ post) := by
  induction around generalizing root with
  | top before after =>
    rw [← compileFrom_start, ← compileFrom_start]
    exact compileFrom_insert connects slack before.openAfter_eq root
  | @inside front back inner outer found more before after closes deeper ih =>
    have whole : Token.Balanced 0 (inner ++ ([.openBracket, .closeBracket] ++ outer)) := by
      simpa using closes [] (by simp [Token.Balanced])
    have left : Token.Balanced (Token.openAfter 0 inner) outer := by
      simpa [Token.Balanced] using (whole.append_iff _).mp whole
    have balanced : Token.Balanced 0 (inner ++ outer) := (whole.append_iff _).mpr left
    have balancedToo : Token.Balanced 0 (inner ++ connector :: outer) :=
      (whole.append_iff _).mpr ((Token.balanced_connector connects _ _).mpr left)
    have shape : ∀ rest, front ++ Token.openBracket :: inner ++ rest =
        front ++ (.openBracket :: inner ++ rest) := by simp
    rw [← compileFrom_start, ← compileFrom_start, shape, shape]
    apply compileFrom_congr before.openAfter_eq
    intro state
    obtain ⟨operations, compiled, rest⟩ := compileFrom_group balanced state root
    obtain ⟨operations', compiledToo, restToo⟩ := compileFrom_group balancedToo state root
    rw [ih (slack.inside balanced) _, compiled] at compiledToo
    cases compiledToo
    simpa using (restToo back).trans (rest back).symm

theorem compileTokens_insert {pre post : List Token} (connects : connector.isConnector)
    (slack : Token.Slack pre post) :
    compileTokens (pre ++ connector :: post) = compileTokens (pre ++ post) := by
  rcases Nat.eq_zero_or_pos (Token.openAfter (Token.openAfter 0 pre) post) with closed | opened
  · exact compileUnder_insert (Item.exists_around closed) connects slack []
  · have before : Item.items (pre ++ connector :: post) = .error .unmatchedGroup := by
      apply Item.items_eq_error_iff.mpr
      rw [Token.openAfter_append, Token.openAfter_connector connects]
      exact ⟨rfl, opened⟩
    have after : Item.items (pre ++ post) = .error .unmatchedGroup := by
      apply Item.items_eq_error_iff.mpr
      rw [Token.openAfter_append]
      exact ⟨rfl, opened⟩
    rw [compileTokens, compileTokens, compileUnder_eq_error_iff.mpr before,
      compileUnder_eq_error_iff.mpr after]

end Laws

theorem Token.Edit.compileTokens_eq {tokens tokens' : List Token} (edit : Edit tokens tokens') :
    compileTokens tokens = compileTokens tokens' := by
  cases edit with
  | @exchange pre post connector other connects connectsToo =>
    -- The other connector is put in behind the first, which then is taken out.
    have doubled := compileTokens_insert connectsToo (.afterConnector pre post connects)
    have merged := compileTokens_insert connects (.beforeConnector pre post connectsToo)
    rw [List.append_assoc, List.append_assoc] at doubled
    exact doubled.symm.trans merged
  | insert pre post connects slack => exact (compileTokens_insert connects slack).symm
  | dropStray pre post stray =>
    have same : ∀ state, compileFrom state [] (closeBracket :: post) = compileFrom state [] post :=
      fun state => compileFrom_closeBracket state [] post
    rw [compileTokens, compileTokens, ← compileFrom_start, ← compileFrom_start]
    exact compileFrom_congr stray same {}

/-- The operations of a script stay the same, and so does its failure, after any number of edits at
any depth: exchanging connectors, doubling or merging them, putting them in or taking them out where
they are slack, and dropping a `]` that closes no group. -/
theorem compileTokens_of_edits {tokens tokens' : List Token}
    (edited : Relation.EqvGen Token.Edit tokens tokens') :
    compileTokens tokens = compileTokens tokens' := by
  induction edited with
  | rel _ _ edit => exact edit.compileTokens_eq
  | refl => rfl
  | symm _ _ _ same => exact same.symm
  | trans _ _ _ _ _ first second => exact first.trans second

/-- From `/a/ < [ x & ] b ]` to `/a/ & [ x ] < b` it takes four edits: one connector is exchanged, one
taken out at the end of the group, one put in behind it, and a stray bracket goes. -/
theorem compileTokens_of_edits_around_group :
    let tokens : List Token := [.path ["a"] false, .less, .openBracket, .name "x", .ampersand,
      .closeBracket, .name "b", .closeBracket]
    let tokens' : List Token := [.path ["a"] false, .ampersand, .openBracket, .name "x",
      .closeBracket, .less, .name "b"]
    Relation.EqvGen Token.Edit tokens tokens' ∧ compileTokens tokens = compileTokens tokens' ∧
      compileTokens tokens' =
        .ok [Operation.mkdir "a", Operation.write "a/x", Operation.write "a/b"] := by
  intro tokens tokens'
  have exchanged := Token.Edit.exchange [.path ["a"] false]
    [.openBracket, .name "x", .ampersand, .closeBracket, .name "b", .closeBracket]
    (show Token.less.isConnector from rfl) (show Token.ampersand.isConnector from rfl)
  have takenOut := Token.Edit.insert [.path ["a"] false, .ampersand, .openBracket, .name "x"]
    [.closeBracket, .name "b", .closeBracket] (show Token.ampersand.isConnector from rfl)
    (.beforeClose _ _ (by decide))
  have putIn := Token.Edit.insert
    [.path ["a"] false, .ampersand, .openBracket, .name "x", .closeBracket]
    [.name "b", .closeBracket] (show Token.less.isConnector from rfl)
    (.afterGroup [.path ["a"] false, .ampersand, .openBracket, .name "x"] _ (by decide))
  have dropped := Token.Edit.dropStray
    [.path ["a"] false, .ampersand, .openBracket, .name "x", .closeBracket, .less, .name "b"] []
    (by decide)
  have edited : Relation.EqvGen Token.Edit tokens tokens' :=
    .trans _ _ _ (.trans _ _ _ (.rel _ _ exchanged) (.symm _ _ (.rel _ _ takenOut)))
      (.trans _ _ _ (.rel _ _ putIn) (.rel _ _ dropped))
  have computed : compileTokens tokens' =
      .ok [Operation.mkdir "a", Operation.write "a/x", Operation.write "a/b"] := by cbv
  exact ⟨edited, compileTokens_of_edits edited, computed⟩

end Scaffold
