import Scaffold.Proofs.Shorthand.Brackets

namespace Scaffold.State

variable {expand : Expander} {root : List String}

theorem stepWith_eq_ok {state next : State} {item : Item} {operations : List Operation}
    (stepped : state.stepWith expand root item = .ok (next, operations)) :
    (∃ token, item = .plain token ∧ state.stepToken root token = (next, operations)) ∨
      ∃ body, item = .group body ∧ expand (root ++ state.fallBack.stack) body = .ok operations ∧
        next = { state.fallBack with anchor := none, chained := false } := by
  cases item with
  | plain token => exact .inl ⟨token, rfl, Except.ok.inj stepped⟩
  | group body =>
    obtain ⟨found, expanded, same⟩ := map_eq_ok_iff.mp stepped
    cases same
    exact .inr ⟨body, rfl, expanded, rfl⟩

theorem runWith_cons_of_ok {state next : State} {item : Item} {operations : List Operation}
    (stepped : state.stepWith expand root item = .ok (next, operations)) (items : List Item) :
    runWith expand root state (item :: items) =
      (runWith expand root next items).map fun result => (result.1, operations ++ result.2) := by
  rw [runWith, stepped]
  exact bind_ok_eq_map fun result : State × List Operation => (result.1, operations ++ result.2)

theorem runWith_cons_eq_ok {state last : State} {item : Item} {items : List Item}
    {operations : List Operation}
    (ran : runWith expand root state (item :: items) = .ok (last, operations)) :
    ∃ next first more, state.stepWith expand root item = .ok (next, first) ∧
      runWith expand root next items = .ok (last, more) ∧ operations = first ++ more := by
  obtain ⟨⟨next, first⟩, stepped, -⟩ := bind_eq_ok_iff.mp ran
  rw [runWith_cons_of_ok stepped] at ran
  obtain ⟨⟨final, more⟩, rest, same⟩ := map_eq_ok_iff.mp ran
  cases same
  exact ⟨next, first, more, stepped, rest, rfl⟩

theorem runWith_append_of_ok {state middle : State} {first : List Item}
    {operations : List Operation}
    (ran : runWith expand root state first = .ok (middle, operations)) (second : List Item) :
    runWith expand root state (first ++ second) =
      (runWith expand root middle second).map
        fun result => (result.1, operations ++ result.2) := by
  induction first generalizing state operations with
  | nil =>
    cases ran
    rw [List.nil_append]
    cases runWith expand root middle second with
    | error e => rfl
    | ok result => rfl
  | cons item items ih =>
    obtain ⟨next, here, more, stepped, rest, rfl⟩ := runWith_cons_eq_ok ran
    rw [List.cons_append, runWith_cons_of_ok stepped, ih rest, map_map]
    simp only [List.append_assoc]

theorem runWith_preserves {motive : List Operation → State → Prop} {items : List Item}
    (keeps : ∀ item ∈ items, ∀ done state next operations, motive done state →
      state.stepWith expand root item = .ok (next, operations) → motive (done ++ operations) next)
    (done : List Operation) {operations : List Operation} {state last : State}
    (start : motive done state)
    (ran : runWith expand root state items = .ok (last, operations)) :
    motive (done ++ operations) last := by
  induction items generalizing done state operations with
  | nil =>
    cases ran
    rwa [List.append_nil]
  | cons item items ih =>
    obtain ⟨next, first, more, stepped, rest, rfl⟩ := runWith_cons_eq_ok ran
    have here := keeps item (by simp) done state next first start stepped
    rw [← List.append_assoc]
    exact ih (fun other member => keeps other (by simp [member])) _ here rest

theorem exists_stepWith {item : Item}
    (compiles : ∀ body, item = .group body → ∀ root, ∃ operations, expand root body = .ok operations)
    (root : List String) (state : State) :
    ∃ next operations, state.stepWith expand root item = .ok (next, operations) := by
  cases item with
  | plain token => exact ⟨_, _, rfl⟩
  | group body =>
    obtain ⟨operations, expanded⟩ := compiles body rfl (root ++ state.fallBack.stack)
    refine ⟨{ state.fallBack with anchor := none, chained := false }, operations, ?_⟩
    rw [stepWith, expanded]
    rfl

theorem exists_runWith {items : List Item}
    (compiles : ∀ body, .group body ∈ items → ∀ root, ∃ operations, expand root body = .ok operations)
    (root : List String) (state : State) :
    ∃ last operations, runWith expand root state items = .ok (last, operations) := by
  induction items generalizing state with
  | nil => exact ⟨state, [], rfl⟩
  | cons item items ih =>
    have here : ∀ body, item = .group body → ∀ root, ∃ operations, expand root body = .ok operations :=
      fun body same => compiles body (by simp [same])
    obtain ⟨next, first, stepped⟩ := exists_stepWith here root state
    obtain ⟨last, more, rest⟩ := ih (fun body member => compiles body (by simp [member])) next
    refine ⟨last, first ++ more, ?_⟩
    rw [runWith_cons_of_ok stepped, rest]
    rfl

end Scaffold.State

namespace Scaffold

/-- The operations of tokens whose groups are left to `expand`. -/
def compileWith (expand : State.Expander) (root : List String) (tokens : List Token) :
    Except Error (List Operation) := do
  let found ← Item.items tokens
  let (_, operations) ← State.runWith expand root {} found
  return operations

theorem compileUnder_eq_compileWith (root : List String) (tokens : List Token) :
    compileUnder root tokens = compileWith compileUnder root tokens :=
  compileUnder_eq root tokens

theorem compileWith_of_cut {tokens : List Token} {found : List Item} (cut : Item.Cut tokens found)
    (expand : State.Expander) (root : List String) :
    compileWith expand root tokens = (State.runWith expand root {} found).map (·.2) := by
  rw [compileWith, Item.items_of_cut cut]
  exact bind_ok_eq_map fun result : State × List Operation => result.2

theorem compileUnder_of_cut {tokens : List Token} {found : List Item} (cut : Item.Cut tokens found)
    (root : List String) :
    compileUnder root tokens = (State.runWith compileUnder root {} found).map (·.2) := by
  rw [compileUnder_eq_compileWith, compileWith_of_cut cut]

theorem compileUnder_eq_ok_iff {root : List String} {tokens : List Token}
    {operations : List Operation} :
    compileUnder root tokens = .ok operations ↔
      ∃ found last, Item.Cut tokens found ∧
        State.runWith compileUnder root {} found = .ok (last, operations) := by
  constructor
  · intro compiled
    rw [compileUnder_eq_compileWith] at compiled
    obtain ⟨found, cut, -⟩ := bind_eq_ok_iff.mp compiled
    have cut := Item.cut_of_items cut
    rw [compileWith_of_cut cut] at compiled
    obtain ⟨⟨last, operations⟩, ran, rfl⟩ := map_eq_ok_iff.mp compiled
    exact ⟨found, last, cut, ran⟩
  · rintro ⟨found, last, cut, ran⟩
    rw [compileUnder_of_cut cut, ran]
    rfl

theorem exists_compileUnder {tokens : List Token} (closed : Token.openAfter 0 tokens = 0)
    (root : List String) : ∃ operations, compileUnder root tokens = .ok operations := by
  induction tokens using Item.wellFounded_isGroupOf.induction generalizing root with
  | _ tokens ih =>
    obtain ⟨found, cut⟩ := Item.exists_cut_iff.mpr closed
    have compiles : ∀ body, .group body ∈ found → ∀ root,
        ∃ operations, compileUnder root body = .ok operations := by
      intro body present
      have inside : Item.IsGroupOf body tokens := ⟨found, Item.items_of_cut cut, present⟩
      exact ih body inside (Token.openAfter_of_balanced inside.balanced 0)
    obtain ⟨last, operations, ran⟩ := State.exists_runWith compiles root {}
    exact ⟨operations, compileUnder_eq_ok_iff.mpr ⟨found, last, cut, ran⟩⟩

theorem exists_run_of_cut {tokens : List Token} {found items : List Item}
    (cut : Item.Cut tokens found) (among : items ⊆ found) (root : List String) (state : State) :
    ∃ last operations, State.runWith compileUnder root state items = .ok (last, operations) := by
  apply State.exists_runWith
  intro body present
  exact exists_compileUnder (Token.openAfter_of_balanced (cut.group_spec (among present)).1 0)

theorem compileUnder_eq_error_iff {root : List String} {tokens : List Token} {error : Error} :
    compileUnder root tokens = .error error ↔ Item.items tokens = .error error := by
  constructor
  · intro failed
    cases cut : Item.items tokens with
    | error e =>
      rw [compileUnder_eq, cut] at failed
      cases failed
      rfl
    | ok found =>
      obtain ⟨operations, compiled⟩ :=
        exists_compileUnder (Item.cut_of_items cut).openAfter_eq root
      rw [compiled] at failed
      cases failed
  · intro failed
    rw [compileUnder_eq, failed]
    rfl

/-- A script is refused for a group left open at its end and for nothing else, with no operations
then; whatever groups it holds, at any depth, compile below any directory. The recursion into groups
ends, and it needs no test on lengths. -/
theorem compileTokens_fails_iff_unclosed (tokens : List Token) :
    (∀ error, compileTokens tokens = .error error ↔
        error = .unmatchedGroup ∧ 0 < Token.openAfter 0 tokens) ∧
      ((∃ operations, compileTokens tokens = .ok operations) ↔ Token.openAfter 0 tokens = 0) ∧
      (∀ error, compileTokens tokens = .error error ↔ Item.items tokens = .error error) ∧
      (∀ body, Relation.TransGen Item.IsGroupOf body tokens → ∀ root,
        ∃ operations, compileUnder root body = .ok operations) ∧
      WellFounded Item.IsGroupOf ∧
      ∀ root, compileUnder root tokens = compileWith compileUnder root tokens := by
  refine ⟨?_, ?_, ?_, ?_, Item.wellFounded_isGroupOf, ?_⟩
  · intro error
    exact compileUnder_eq_error_iff.trans Item.items_eq_error_iff
  · constructor
    · rintro ⟨operations, compiled⟩
      obtain ⟨found, last, cut, ran⟩ := compileUnder_eq_ok_iff.mp compiled
      exact cut.openAfter_eq
    · intro closed
      exact exists_compileUnder closed []
  · intro error
    exact compileUnder_eq_error_iff
  · intro body nested root
    exact exists_compileUnder (Item.openAfter_of_nested nested) root
  · intro root
    exact compileUnder_eq_compileWith root tokens

end Scaffold
