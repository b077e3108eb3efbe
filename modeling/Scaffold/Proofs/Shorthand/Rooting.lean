import Scaffold.Proofs.Shorthand.Run

namespace Scaffold

def Operation.under (above : List String) (operation : Operation) : Operation :=
  { operation with path := "/".intercalate (above ++ [operation.path]) }

def Operation.IsBelow (above : List String) (operation : Operation) : Prop :=
  ∃ rest, rest ≠ [] ∧ operation.path = "/".intercalate (above ++ rest)

theorem Operation.IsBelow.of_within {root above more : List String} {operation : Operation}
    (below : operation.IsBelow (root ++ more)) (within : above <+: more) :
    operation.IsBelow (root ++ above) := by
  obtain ⟨rest, filled, same⟩ := below
  obtain ⟨between, rfl⟩ := within
  refine ⟨between ++ rest, List.append_ne_nil_of_right_ne_nil _ filled, ?_⟩
  rw [same]
  simp only [List.append_assoc]

theorem intercalate_append_join {segments : List String} (filled : segments ≠ [])
    (above : List String) : "/".intercalate (above ++ ["/".intercalate segments]) =
      "/".intercalate (above ++ segments) := by
  by_cases none : above = []
  · rw [none, List.nil_append, List.nil_append, String.intercalate_singleton]
  · rw [String.intercalate_append_of_ne_nil none (List.cons_ne_nil _ _),
      String.intercalate_append_of_ne_nil none filled, String.intercalate_singleton]

theorem Operation.under_append (above below : List String) (operation : Operation) :
    operation.under (above ++ below) = (operation.under below).under above := by
  have filled : below ++ [operation.path] ≠ [] := by simp
  rw [under, under, under, intercalate_append_join filled, List.append_assoc]

namespace State

theorem pathText_append (above root : List String) {stack : List String} (filled : stack ≠ []) :
    pathText (above ++ root) stack = "/".intercalate (above ++ [pathText root stack]) := by
  have segments : root ++ stack ≠ [] := List.append_ne_nil_of_right_ne_nil _ filled
  rw [pathText, pathText, intercalate_append_join segments, List.append_assoc]

theorem mkdir_under (above root stack : List String) (dir : String) :
    Operation.mkdir (pathText (above ++ root) (stack ++ [dir])) =
      (Operation.mkdir (pathText root (stack ++ [dir]))).under above := by
  rw [pathText_append above root (by simp)]
  rfl

theorem write_under (above root stack : List String) (file : String) :
    Operation.write (pathText (above ++ root) (stack ++ [file])) =
      (Operation.write (pathText root (stack ++ [file]))).under above := by
  rw [pathText_append above root (by simp)]
  rfl

theorem descend_append (above root stack dirs : List String) :
    descend (above ++ root) stack dirs =
      (descend root stack dirs).map (Operation.under above) := by
  induction dirs generalizing stack with
  | nil => rfl
  | cons dir dirs ih => rw [descend, descend, List.map_cons, ih, mkdir_under]

theorem stepPath_append (state : State) (above root parts : List String) (isFile : Bool) :
    state.stepPath (above ++ root) parts isFile =
      ((state.stepPath root parts isFile).1,
        (state.stepPath root parts isFile).2.map (Operation.under above)) := by
  simp only [stepPath, descend_append, write_under, List.map_append, List.map_map,
    Function.comp_def]

theorem stepToken_append (state : State) (above root : List String) (token : Token) :
    state.stepToken (above ++ root) token =
      ((state.stepToken root token).1,
        (state.stepToken root token).2.map (Operation.under above)) := by
  cases token with
  | path parts isFile => exact stepPath_append _ above root parts isFile
  | name file => simp only [stepToken, write_under, List.map_cons, List.map_nil]
  | openBracket | closeBracket | less | ampersand | semicolon => rfl

theorem stepWith_append {expand : Expander} {above : List String} {item : Item}
    (groups : ∀ body, item = .group body → ∀ root, expand (above ++ root) body =
      (expand root body).map (List.map (Operation.under above)))
    (root : List String) (state : State) :
    state.stepWith expand (above ++ root) item = (state.stepWith expand root item).map
      fun result => (result.1, result.2.map (Operation.under above)) := by
  cases item with
  | plain token =>
    rw [stepWith, stepWith, stepToken_append]
    rfl
  | group body =>
    simp only [stepWith]
    rw [List.append_assoc, groups body rfl, map_map, map_map]

theorem runWith_append_root {expand : Expander} {above : List String} {items : List Item}
    (groups : ∀ body, .group body ∈ items → ∀ root, expand (above ++ root) body =
      (expand root body).map (List.map (Operation.under above)))
    (root : List String) (state : State) :
    runWith expand (above ++ root) state items = (runWith expand root state items).map
      fun result => (result.1, result.2.map (Operation.under above)) := by
  induction items generalizing state with
  | nil => rfl
  | cons item items ih =>
    have first : ∀ body, item = .group body → ∀ root, expand (above ++ root) body =
        (expand root body).map (List.map (Operation.under above)) :=
      fun body same => groups body (by simp [same])
    have here := stepWith_append first root state
    have rest := ih fun body member => groups body (by simp [member])
    cases stepped : state.stepWith expand root item with
    | error e =>
      rw [stepped] at here
      rw [runWith, runWith, here, stepped]
      rfl
    | ok result =>
      rw [stepped] at here
      rw [runWith_cons_of_ok here, runWith_cons_of_ok stepped, rest, map_map, map_map]
      simp only [List.map_append]

end State

theorem compileUnder_append (above root : List String) (tokens : List Token) :
    compileUnder (above ++ root) tokens =
      (compileUnder root tokens).map (List.map (Operation.under above)) := by
  induction tokens using Item.wellFounded_isGroupOf.induction generalizing root with
  | _ tokens ih =>
    cases cut : Item.items tokens with
    | error e =>
      rw [compileUnder_eq_error_iff.mpr cut, compileUnder_eq_error_iff.mpr cut]
      rfl
    | ok found =>
      have groups : ∀ body, .group body ∈ found → ∀ root, compileUnder (above ++ root) body =
          (compileUnder root body).map (List.map (Operation.under above)) :=
        fun body present root => ih body ⟨found, cut, present⟩ root
      rw [compileUnder_of_cut (Item.cut_of_items cut), compileUnder_of_cut (Item.cut_of_items cut),
        State.runWith_append_root groups, map_map, map_map]

theorem compileUnder_eq_map (root : List String) (tokens : List Token) :
    compileUnder root tokens =
      (compileTokens tokens).map (List.map (Operation.under root)) := by
  have below := compileUnder_append root [] tokens
  rwa [List.append_nil] at below

theorem isBelow_of_compileUnder {root : List String} {tokens : List Token}
    {operations : List Operation} (compiled : compileUnder root tokens = .ok operations)
    {operation : Operation} (present : operation ∈ operations) : operation.IsBelow root := by
  rw [compileUnder_eq_map] at compiled
  obtain ⟨alone, -, rfl⟩ := map_eq_ok_iff.mp compiled
  obtain ⟨original, -, rfl⟩ := List.mem_map.mp present
  exact ⟨[original.path], List.cons_ne_nil _ _, rfl⟩

end Scaffold
