import Scaffold.Proofs.Shorthand.Ordering

namespace Scaffold

def Path.lastSegment (text : String) : String :=
  String.ofList ((text.toList.splitOn '/').getLastD [])

def Operation.entry (operation : Operation) : Kind × String :=
  (operation.kind, Path.lastSegment operation.path)

namespace Token

/-- What a token asks for: each part of a path, the last one as a file or a directory, and each
name as a file. -/
def entries : Token → List (Kind × String)
  | path parts isFile =>
    parts.dropLast.map (Kind.mkdir, ·) ++
      parts.getLast?.toList.map ((if isFile then Kind.write else Kind.mkdir), ·)
  | name text => [(Kind.write, text)]
  | _ => []

def asks : Token → Bool
  | path _ _ => true
  | name _ => true
  | _ => false

theorem entries_of_not_asks {token : Token} (silent : token.asks = false) : token.entries = [] := by
  cases token with
  | path | name => cases silent
  | openBracket | closeBracket | less | ampersand | semicolon => rfl

theorem flatMap_entries_filter (tokens : List Token) :
    (tokens.filter asks).flatMap entries = tokens.flatMap entries := by
  induction tokens with
  | nil => rfl
  | cons token rest ih =>
    cases kept : token.asks with
    | true => rw [List.filter_cons_of_pos kept, List.flatMap_cons, List.flatMap_cons, ih]
    | false =>
      rw [List.filter_cons_of_neg (by simp [kept]), List.flatMap_cons, entries_of_not_asks kept, ih,
        List.nil_append]

end Token

theorem Path.lastSegment_intercalate (above : List String) {segment : String}
    (noSlash : '/' ∉ segment.toList) :
    lastSegment ("/".intercalate (above ++ [segment])) = segment := by
  have alone : segment.toList.splitOn '/' = [segment.toList] := List.splitOn_eq_singleton noSlash
  by_cases none : above = []
  · rw [none, List.nil_append, String.intercalate_singleton, lastSegment, alone]
    simp
  · have split : ("/".intercalate (above ++ [segment])).toList =
        ("/".intercalate above).toList ++ '/' :: segment.toList := by
      rw [String.intercalate_append_of_ne_nil none (List.cons_ne_nil _ _),
        String.intercalate_singleton]
      simp
    rw [lastSegment, split, List.splitOn_append_cons_self, alone]
    simp

namespace State

theorem entry_pathText (kind : Kind) (root stack : List String) {segment : String}
    (noSlash : '/' ∉ segment.toList) :
    Operation.entry ⟨kind, pathText root (stack ++ [segment])⟩ = (kind, segment) := by
  rw [Operation.entry, pathText, ← List.append_assoc, Path.lastSegment_intercalate _ noSlash]

theorem entries_descend (root stack : List String) {dirs : List String}
    (segments : ∀ dir ∈ dirs, Token.IsSegment dir) :
    (descend root stack dirs).map Operation.entry = dirs.map (Kind.mkdir, ·) := by
  induction dirs generalizing stack with
  | nil => rfl
  | cons dir dirs ih =>
    have first := entry_pathText Kind.mkdir root stack (segments dir (by simp)).noSlash
    have others := ih (stack ++ [dir]) fun other member => segments other (by simp [member])
    rw [descend, List.map_cons, List.map_cons, others]
    exact congrArg (· :: _) first

theorem entries_splitLeaf (parts : List String) (isFile : Bool) :
    (splitLeaf parts isFile).1.map (Kind.mkdir, ·) ++
        (splitLeaf parts isFile).2.toList.map (Kind.write, ·) =
      (Token.path parts isFile).entries := by
  cases isFile with
  | true => rfl
  | false =>
    rcases List.eq_nil_or_concat parts with none | ⟨before, last, split⟩
    · rw [none]
      rfl
    · simp [splitLeaf, Token.entries, split]

theorem entries_stepToken {token : Token} (wellFormed : token.WellFormed) (root : List String)
    (state : State) : (state.stepToken root token).2.map Operation.entry = token.entries := by
  cases token with
  | path parts isFile =>
    obtain ⟨dirsFrom, leafFrom⟩ := State.mem_of_splitLeaf parts isFile
    have made := entries_descend root state.fallBack.stack
      fun dir member => wellFormed.1 dir (dirsFrom dir member)
    have written : ((splitLeaf parts isFile).2.toList.map fun file => Operation.write
          (pathText root (state.fallBack.stack ++ (splitLeaf parts isFile).1 ++ [file]))).map
        Operation.entry = (splitLeaf parts isFile).2.toList.map (Kind.write, ·) := by
      rw [List.map_map]
      apply List.map_congr_left
      intro file present
      have last : (splitLeaf parts isFile).2 = some file := by simpa using present
      exact entry_pathText Kind.write root _ (wellFormed.1 file (leafFrom file last)).noSlash
    rw [← entries_splitLeaf, ← made, ← written, ← List.map_append]
    rfl
  | name file =>
    exact congrArg ([·]) (entry_pathText Kind.write root state.fallBack.stack wellFormed.noSlash)
  | openBracket | closeBracket | less | ampersand | semicolon => rfl

end State

namespace Item

def entries : Item → List (Kind × String)
  | plain token => token.entries
  | group body => body.flatMap Token.entries

theorem Cut.flatMap_entries {tokens : List Token} {found : List Item} (cut : Cut tokens found) :
    found.flatMap entries = tokens.flatMap Token.entries := by
  induction cut with
  | nil => rfl
  | plain _ _ ih =>
    rw [List.flatMap_cons, List.flatMap_cons, ih]
    rfl
  | group _ _ ih => simp [ih, entries, Token.entries]

end Item

theorem State.entries_runWith {expand : Expander} {root : List String} {items : List Item}
    {state last : State} {operations : List Operation}
    (wellFormed : ∀ token, .plain token ∈ items → token.WellFormed)
    (groups : ∀ body, .group body ∈ items → ∀ root operations,
      expand root body = .ok operations →
        operations.map Operation.entry = body.flatMap Token.entries)
    (ran : runWith expand root state items = .ok (last, operations)) :
    operations.map Operation.entry = items.flatMap Item.entries := by
  induction items generalizing state operations with
  | nil =>
    cases ran
    rfl
  | cons item items ih =>
    obtain ⟨next, first, more, stepped, rest, rfl⟩ := runWith_cons_eq_ok ran
    have later : more.map Operation.entry = items.flatMap Item.entries :=
      ih (fun token member => wellFormed token (by simp [member]))
        (fun body member => groups body (by simp [member])) rest
    have here : first.map Operation.entry = item.entries := by
      obtain ⟨token, rfl, same⟩ | ⟨body, rfl, expanded, -⟩ := stepWith_eq_ok stepped
      · have made := entries_stepToken (wellFormed token (by simp)) root state
        rwa [same] at made
      · exact groups body (by simp) _ first expanded
    rw [List.map_append, List.flatMap_cons, here, later]

theorem entries_run {tokens : List Token} (wellFormed : ∀ token ∈ tokens, token.WellFormed)
    {found : List Item} (cut : Item.Cut tokens found) {root : List String} {state last : State}
    {operations : List Operation}
    (ran : State.runWith compileUnder root state found = .ok (last, operations)) :
    operations.map Operation.entry = tokens.flatMap Token.entries := by
  induction tokens using Item.wellFounded_isGroupOf.induction
    generalizing found root state last operations with
  | _ tokens ih =>
    rw [← cut.flatMap_entries]
    refine State.entries_runWith ?_ ?_ ran
    · intro token present
      exact wellFormed token (cut.mem_of_mem_plain present)
    · intro body present root made compiled
      have inside : Item.IsGroupOf body tokens := ⟨found, Item.items_of_cut cut, present⟩
      obtain ⟨inner, final, within, ranWithin⟩ := compileUnder_eq_ok_iff.mp compiled
      exact ih body inside (fun token member => wellFormed token (inside.subset member)) within
        ranWithin

theorem entries_compile {source : String} {operations : List Operation}
    (compiled : compile source = .ok operations) :
    operations.map Operation.entry = (Token.listOfText source).flatMap Token.entries := by
  obtain ⟨found, last, cut, ran⟩ := compileUnder_eq_ok_iff.mp compiled
  exact entries_run (fun token present => Token.wellFormed_of_mem_scan present) cut ran

/-- A script makes what its tokens ask for, at whatever depth they stand: one operation for each
entry, of its kind and name, in their order. So scripts that differ in connectors, brackets and
semicolons alone make as many operations. -/
theorem compile_makes_each_entry {source : String} {operations : List Operation}
    (compiled : compile source = .ok operations) :
    operations.map Operation.entry = (Token.listOfText source).flatMap Token.entries ∧
      ∀ other more, compile other = .ok more →
        (Token.listOfText other).filter Token.asks = (Token.listOfText source).filter Token.asks →
        more.length = operations.length := by
  have made := entries_compile compiled
  refine ⟨made, ?_⟩
  intro other more compiledToo alike
  have same : more.map Operation.entry = operations.map Operation.entry := by
    calc more.map Operation.entry
        = (Token.listOfText other).flatMap Token.entries := entries_compile compiledToo
      _ = ((Token.listOfText other).filter Token.asks).flatMap Token.entries :=
          (Token.flatMap_entries_filter _).symm
      _ = ((Token.listOfText source).filter Token.asks).flatMap Token.entries := by rw [alike]
      _ = (Token.listOfText source).flatMap Token.entries := Token.flatMap_entries_filter _
      _ = operations.map Operation.entry := made.symm
  simpa using congrArg List.length same

theorem compile_makes_each_entry_again :
    let operations := [Operation.mkdir "a", Operation.mkdir "a/a", Operation.write "a/a/x.y",
      Operation.mkdir "a"]
    compile "/a/ < [ /a/x.y ] ] ; /a" = .ok operations ∧
      operations.map Operation.entry =
        [(.mkdir, "a"), (.mkdir, "a"), (.write, "x.y"), (.mkdir, "a")] ∧
      ∃ more, compile "/a/ /a/x.y & /a" = .ok more ∧ more.length = operations.length := by
  intro operations
  have scanned : Token.listOfText "/a/ < [ /a/x.y ] ] ; /a" = [.path ["a"] false, .less,
      .openBracket, .path ["a", "x.y"] true, .closeBracket, .closeBracket, .semicolon,
      .path ["a"] false] := by
    decide +kernel
  have scannedToo : Token.listOfText "/a/ /a/x.y & /a" = [.path ["a"] false,
      .path ["a", "x.y"] true, .ampersand, .path ["a"] false] := by
    decide +kernel
  have compiled : compile "/a/ < [ /a/x.y ] ] ; /a" = .ok operations := by
    rw [compile, scanned]
    cbv
  have compiledToo : compile "/a/ /a/x.y & /a" = .ok [Operation.mkdir "a", Operation.mkdir "a",
      Operation.write "a/x.y", Operation.mkdir "a/a"] := by
    rw [compile, scannedToo]
    cbv
  obtain ⟨made, counts⟩ := compile_makes_each_entry compiled
  refine ⟨compiled, ?_, _, compiledToo, counts _ _ compiledToo ?_⟩
  · rw [made, scanned]
    rfl
  · rw [scanned, scannedToo]
    rfl

end Scaffold
