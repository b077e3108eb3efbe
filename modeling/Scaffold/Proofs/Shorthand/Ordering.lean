import Scaffold.Proofs.Shorthand.Run
import Scaffold.Proofs.Shorthand.Written

/-! Directories come before what they hold. `Grounded` is the invariant of a run: each operation so
far had the directories above it made earlier, and so has the current directory. A group begins in
a grounded directory, so `Grounded.compileUnder` carries the invariant through any nesting. -/

namespace Scaffold

/-- The path is a join of segments, and every directory above it is among the operations done. -/
def Supported (done : List Operation) (operation : Operation) : Prop :=
  ∃ segments, segments ≠ [] ∧ (∀ segment ∈ segments, Token.IsSegment segment) ∧
    operation.path = "/".intercalate segments ∧
    ∀ above, above ≠ [] → above <+: segments → above ≠ segments →
      Operation.mkdir ("/".intercalate above) ∈ done

/-- The operations done, and the current directory. -/
structure Grounded (done : List Operation) (here : List String) : Prop where
  supported : ∀ before operation after, done = before ++ operation :: after →
    Supported before operation
  segments : ∀ segment ∈ here, Token.IsSegment segment
  made : ∀ above, above ≠ [] → above <+: here → Operation.mkdir ("/".intercalate above) ∈ done

namespace Grounded

variable {done : List Operation} {here : List String}

theorem nil : Grounded [] [] where
  supported := by
    intro before operation after split
    simp at split
  segments := by simp
  made := by
    intro above filled within
    exact absurd (List.prefix_nil.mp within) filled

theorem of_within (grounded : Grounded done here) {higher : List String} (within : higher <+: here) :
    Grounded done higher where
  supported := grounded.supported
  segments := fun segment present => grounded.segments segment (within.subset present)
  made := fun above filled inside => grounded.made above filled (inside.trans within)

theorem supported_join (grounded : Grounded done here) {segment : String}
    (isSegment : Token.IsSegment segment) {operation : Operation}
    (path : operation.path = "/".intercalate (here ++ [segment])) : Supported done operation := by
  refine ⟨here ++ [segment], by simp, ?_, path, ?_⟩
  · intro other present
    rcases List.mem_append.mp present with present | present
    · exact grounded.segments other present
    · rwa [List.mem_singleton.mp present]
  · intro above filled within proper
    rcases List.prefix_concat_iff.mp within with whole | inside
    · exact absurd whole proper
    · exact grounded.made above filled inside

-- The last operation is the new one, or the split lies within those before it.
theorem snoc (grounded : Grounded done here) {operation : Operation}
    (supports : Supported done operation) : Grounded (done ++ [operation]) here where
  supported := by
    intro before other after split
    rcases List.eq_nil_or_concat after with rfl | ⟨shorter, last, rfl⟩
    · obtain ⟨rfl, same⟩ := List.append_inj' split rfl
      rwa [← (List.cons.inj same).1]
    · have parts : done ++ [operation] = before ++ other :: shorter ++ [last] := by simpa using split
      obtain ⟨same, -⟩ := List.append_inj' parts rfl
      exact grounded.supported before other shorter same
  segments := grounded.segments
  made := fun above filled within => List.mem_append_left _ (grounded.made above filled within)

theorem write (grounded : Grounded done here) {file : String} (isSegment : Token.IsSegment file) :
    Grounded (done ++ [Operation.write ("/".intercalate (here ++ [file]))]) here :=
  grounded.snoc (grounded.supported_join isSegment rfl)

theorem mkdir (grounded : Grounded done here) {dir : String} (isSegment : Token.IsSegment dir) :
    Grounded (done ++ [Operation.mkdir ("/".intercalate (here ++ [dir]))]) (here ++ [dir]) := by
  have stays : Grounded (done ++ [Operation.mkdir ("/".intercalate (here ++ [dir]))]) here :=
    grounded.snoc (grounded.supported_join isSegment rfl)
  refine ⟨stays.supported, ?_, ?_⟩
  · intro segment present
    rcases List.mem_append.mp present with present | present
    · exact grounded.segments segment present
    · rwa [List.mem_singleton.mp present]
  · intro above filled within
    rcases List.prefix_concat_iff.mp within with whole | inside
    · simp [whole]
    · exact stays.made above filled inside

theorem descend {root stack dirs : List String} (grounded : Grounded done (root ++ stack))
    (areSegments : ∀ dir ∈ dirs, Token.IsSegment dir) :
    Grounded (done ++ State.descend root stack dirs) (root ++ (stack ++ dirs)) := by
  induction dirs generalizing done stack with
  | nil => simpa [State.descend] using grounded
  | cons dir dirs ih =>
    have entered := grounded.mkdir (areSegments dir (by simp))
    rw [List.append_assoc] at entered
    have below := ih entered fun other member => areSegments other (by simp [member])
    simpa [State.descend, State.pathText] using below

end Grounded

theorem State.mem_of_splitLeaf (parts : List String) (isFile : Bool) :
    (∀ dir ∈ (splitLeaf parts isFile).1, dir ∈ parts) ∧
      ∀ file, (splitLeaf parts isFile).2 = some file → file ∈ parts := by
  cases isFile with
  | true =>
    refine ⟨fun dir present => (List.dropLast_prefix parts).subset present, ?_⟩
    intro file last
    exact List.mem_of_getLast? last
  | false => exact ⟨fun dir present => present, fun file last => by cases last⟩

theorem State.fallBack_within (state : State) : state.fallBack.stack <+: state.stack := by
  unfold fallBack
  split
  · exact List.prefix_rfl
  · cases state.anchor with
    | none => exact List.prefix_rfl
    | some depth => exact List.take_prefix depth state.stack

namespace Grounded

variable {done : List Operation}

theorem fallBack {root : List String} {state : State} (grounded : Grounded done (root ++ state.stack)) :
    Grounded done (root ++ state.fallBack.stack) :=
  grounded.of_within ((List.prefix_append_right_inj root).mpr state.fallBack_within)

theorem stepToken {root : List String} {state : State} {token : Token}
    (wellFormed : token.WellFormed) (grounded : Grounded done (root ++ state.stack)) :
    Grounded (done ++ (state.stepToken root token).2)
      (root ++ (state.stepToken root token).1.stack) := by
  have begun := grounded.fallBack
  cases token with
  | path parts isFile =>
    obtain ⟨dirsFrom, leafFrom⟩ := State.mem_of_splitLeaf parts isFile
    have made := begun.descend fun dir member => wellFormed.1 dir (dirsFrom dir member)
    cases leaf : (State.splitLeaf parts isFile).2 with
    | none => simpa [State.stepToken, State.stepPath, Token.opensStatement, leaf] using made
    | some file =>
      have written := made.write (wellFormed.1 file (leafFrom file leaf))
      simpa [State.stepToken, State.stepPath, Token.opensStatement, leaf, State.pathText]
        using written
  | name file =>
    have written := begun.write wellFormed
    simpa [State.stepToken, Token.opensStatement, State.pathText] using written
  | semicolon =>
    have top := grounded.of_within (List.prefix_append root state.stack)
    simpa [State.stepToken] using top
  | openBracket => simpa [State.stepToken, Token.opensStatement] using begun
  | less | ampersand | closeBracket =>
    simpa [State.stepToken, Token.opensStatement] using grounded

theorem compileUnder {tokens : List Token} (wellFormed : ∀ token ∈ tokens, token.WellFormed)
    {root : List String} {operations : List Operation} (grounded : Grounded done root)
    (compiled : compileUnder root tokens = .ok operations) :
    Grounded (done ++ operations) root := by
  induction tokens using Item.wellFounded_isGroupOf.induction generalizing root done operations with
  | _ tokens ih =>
    obtain ⟨found, last, cut, ran⟩ := compileUnder_eq_ok_iff.mp compiled
    have start : Grounded done (root ++ State.stack {}) := by simpa using grounded
    have ended : Grounded (done ++ operations) (root ++ last.stack) := by
      refine State.runWith_preserves (motive := fun done state => Grounded done (root ++ state.stack))
        ?_ done start ran
      intro item present done state next operations grounded stepped
      -- A group runs from the directory that its statement begins in, which is grounded too.
      obtain ⟨token, rfl, same⟩ | ⟨body, rfl, expanded, rfl⟩ := State.stepWith_eq_ok stepped
      · have kept := grounded.stepToken (wellFormed token (cut.mem_of_mem_plain present))
        rwa [same] at kept
      · have inside : Item.IsGroupOf body tokens := ⟨found, Item.items_of_cut cut, present⟩
        have fromTokens : ∀ token ∈ body, token.WellFormed := fun token member =>
          wellFormed token (inside.subset member)
        exact ih body inside fromTokens grounded.fallBack expanded
    exact ended.of_within (List.prefix_append root last.stack)

end Grounded

theorem supported_of_compile {source : String} {operations done rest : List Operation}
    {operation : Operation} (compiled : compile source = .ok operations)
    (split : operations = done ++ operation :: rest) : Supported done operation := by
  have wellFormed : ∀ token ∈ Token.listOfText source, token.WellFormed :=
    fun token present => Token.wellFormed_of_mem_scan present
  exact (Grounded.nil.compileUnder wellFormed compiled).supported _ _ _ split

/-- Whatever the script, the path of each operation is a join of one segment or more, and the
directories above it are made by operations before it. -/
theorem compile_parents_first {source : String} {operations : List Operation}
    (compiled : compile source = .ok operations) (i : Nat) (inside : i < operations.length) :
    let segments := Path.pieces operations[i].path
    segments ≠ [] ∧ (∀ segment ∈ segments, Token.IsSegment segment) ∧
      operations[i].path = "/".intercalate segments ∧
      ∀ above, above ≠ [] → above <+: segments → above ≠ segments →
        ∃ j, j < i ∧ operations[j]? = some (Operation.mkdir ("/".intercalate above)) := by
  have wellFormed : ∀ token ∈ Token.listOfText source, token.WellFormed :=
    fun token present => Token.wellFormed_of_mem_scan present
  have grounded : Grounded operations [] := Grounded.nil.compileUnder wellFormed compiled
  have split : operations = operations.take i ++ operations[i] :: operations.drop (i + 1) := by
    simp
  obtain ⟨segments, filled, areSegments, path, earlier⟩ := grounded.supported _ _ _ split
  have cut : Path.pieces operations[i].path = segments := by
    rw [path]
    apply Path.pieces_intercalate
    intro segment present
    exact ⟨(areSegments segment present).1, (areSegments segment present).noSlash⟩
  simp only [cut]
  refine ⟨filled, areSegments, path, ?_⟩
  intro above nonempty within proper
  obtain ⟨j, found⟩ := List.mem_iff_getElem?.mp (earlier above nonempty within proper)
  rw [List.getElem?_take] at found
  split at found
  next before => exact ⟨j, before, found⟩
  next => cases found

theorem compile_parents_first_in_group :
    let operations := [Operation.mkdir "src", Operation.mkdir "src/css",
      Operation.write "src/css/style.css"]
    compile "/src/ < [ /css/ < style.css ]" = .ok operations ∧
      Path.pieces "src/css/style.css" = ["src", "css", "style.css"] ∧
      ∃ j, j < 2 ∧ operations[j]? = some (Operation.mkdir ("/".intercalate ["src", "css"])) := by
  have scanned : Token.listOfText "/src/ < [ /css/ < style.css ]" = [.path ["src"] false, .less,
      .openBracket, .path ["css"] false, .less, .name "style.css", .closeBracket] := by
    decide +kernel
  have compiled : compile "/src/ < [ /css/ < style.css ]" = .ok [Operation.mkdir "src",
      Operation.mkdir "src/css", Operation.write "src/css/style.css"] := by
    rw [compile, scanned]
    cbv
  have cut : Path.pieces "src/css/style.css" = ["src", "css", "style.css"] := by decide +kernel
  obtain ⟨-, -, -, earlier⟩ := compile_parents_first compiled 2 (by decide)
  have within : ["src", "css"] <+: Path.pieces "src/css/style.css" := by
    rw [cut]
    exact ⟨["style.css"], rfl⟩
  have proper : ["src", "css"] ≠ Path.pieces "src/css/style.css" := by
    rw [cut]
    decide
  exact ⟨compiled, cut, earlier ["src", "css"] (by decide) within proper⟩

end Scaffold
