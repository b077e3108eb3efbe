import Scaffold.Proofs.Shorthand.Entries
import Scaffold.Proofs.Shorthand.Seam

namespace Scaffold

def compileFrom (state : State) (root : List String) (tokens : List Token) :
    Except Error (List Operation) := do
  let found ← Item.items tokens
  let (_, operations) ← State.runWith compileUnder root state found
  return operations

section From
variable {state next : State} {root : List String} {tokens first second : List Token}
  {found : List Item} {operations : List Operation}

theorem compileFrom_start (root : List String) (tokens : List Token) :
    compileFrom {} root tokens = compileUnder root tokens :=
  (compileUnder_eq root tokens).symm

theorem compileFrom_of_cut (cut : Item.Cut tokens found) (state : State) (root : List String) :
    compileFrom state root tokens = (State.runWith compileUnder root state found).map (·.2) := by
  rw [compileFrom, Item.items_of_cut cut]
  exact bind_ok_eq_map fun result : State × List Operation => result.2

theorem compileFrom_eq_error_iff {error : Error} :
    compileFrom state root tokens = .error error ↔ Item.items tokens = .error error := by
  cases cut : Item.items tokens with
  | error e => simp [compileFrom, cut, bind, Except.bind]
  | ok found =>
    have cut := Item.cut_of_items cut
    obtain ⟨last, operations, ran⟩ := exists_run_of_cut cut (List.Subset.refl found) root state
    simp [compileFrom_of_cut cut, ran, Except.map]

theorem compileFrom_append (cut : Item.Cut first found)
    (ran : State.runWith compileUnder root state found = .ok (next, operations))
    (second : List Token) :
    compileFrom state root (first ++ second) =
      (compileFrom next root second).map (operations ++ ·) := by
  cases cutMore : Item.items second with
  | error e =>
    have failed : Item.items (first ++ second) = .error e := by rw [cut.items_append, cutMore]; rfl
    rw [compileFrom_eq_error_iff.mpr failed, compileFrom_eq_error_iff.mpr cutMore]
    rfl
  | ok more =>
    have more' := Item.cut_of_items cutMore
    rw [compileFrom_of_cut (cut.append more'), compileFrom_of_cut more',
      State.runWith_append_of_ok ran, map_map, map_map]

theorem State.stepToken_of_not_asks {token : Token} (silent : token.asks = false) (state : State)
    (root : List String) : (state.stepToken root token).2 = [] := by
  cases token with
  | path | name => cases silent
  | openBracket | closeBracket | less | ampersand | semicolon => rfl

theorem compileFrom_cons {token : Token} (notOpen : token ≠ .openBracket) (state : State)
    (root : List String) (tokens : List Token) :
    compileFrom state root (token :: tokens) =
      (compileFrom (state.stepToken root token).1 root tokens).map
        ((state.stepToken root token).2 ++ ·) := by
  apply compileFrom_append (.plain notOpen .nil)
  simp [State.runWith, State.stepWith, bind, Except.bind, pure, Except.pure]

theorem compileFrom_silent {token : Token} (notOpen : token ≠ .openBracket)
    (silent : token.asks = false) (state : State) (root : List String) (tokens : List Token) :
    compileFrom state root (token :: tokens) =
      compileFrom (state.stepToken root token).1 root tokens := by
  rw [compileFrom_cons notOpen, State.stepToken_of_not_asks silent]
  cases compileFrom (state.stepToken root token).1 root tokens with
  | error e => rfl
  | ok operations => rfl

theorem compileFrom_semicolon (state : State) (root : List String) (tokens : List Token) :
    compileFrom state root (.semicolon :: tokens) = compileUnder root tokens := by
  rw [compileFrom_silent (by decide) rfl, ← compileFrom_start]
  rfl

theorem entries_compileFrom (wellFormed : ∀ token ∈ tokens, token.WellFormed)
    (compiled : compileFrom state root tokens = .ok operations) :
    operations.map Operation.entry = tokens.flatMap Token.entries := by
  obtain ⟨found, cut, -⟩ := bind_eq_ok_iff.mp compiled
  have cut := Item.cut_of_items cut
  rw [compileFrom_of_cut cut] at compiled
  obtain ⟨⟨last, made⟩, ran, rfl⟩ := map_eq_ok_iff.mp compiled
  exact entries_run wellFormed cut ran

end From

theorem Token.listOfText_append_semicolon (a b : String) :
    listOfText (a ++ ";" ++ b) = listOfText a ++ semicolon :: listOfText b :=
  listOfText_marked (by decide : ";".toList = [';']) rfl a b

theorem Token.listOfText_append_space (a b : String) :
    listOfText (a ++ " " ++ b) = listOfText a ++ listOfText b :=
  listOfText_spaced (by decide : " ".toList = [' ']) (by decide) a b

/-- After a script that compiles, another one behind a `;` gives what it gives alone. Behind a space
it may land elsewhere, but it fails just when it fails alone, and it asks for the same entries; what
came before stays as it was. -/
theorem compile_sequence {a : String} {x : List Operation} (compiled : compile a = .ok x)
    (b : String) :
    compile (a ++ ";" ++ b) = (compile b).map (x ++ ·) ∧
      (∀ error, compile (a ++ " " ++ b) = .error error ↔ compile b = .error error) ∧
      ∀ y, compile b = .ok y → ∃ z, compile (a ++ " " ++ b) = .ok (x ++ z) ∧
        z.map Operation.entry = y.map Operation.entry ∧ z.length = y.length := by
  obtain ⟨found, last, cut, ran⟩ := compileUnder_eq_ok_iff.mp compiled
  have spaced : compile (a ++ " " ++ b) =
      (compileFrom last [] (Token.listOfText b)).map (x ++ ·) := by
    rw [compile, Token.listOfText_append_space, compileTokens, ← compileFrom_start,
      compileFrom_append cut ran]
  refine ⟨?_, ?_, ?_⟩
  · rw [compile, Token.listOfText_append_semicolon, compileTokens, ← compileFrom_start,
      compileFrom_append cut ran, compileFrom_semicolon]
    rfl
  · intro error
    rw [spaced, map_eq_error_iff, compileFrom_eq_error_iff]
    exact compileUnder_eq_error_iff.symm
  · intro y alone
    cases after : compileFrom last [] (Token.listOfText b) with
    | error e =>
      have failed : compile b = .error e :=
        compileUnder_eq_error_iff.mpr (compileFrom_eq_error_iff.mp after)
      rw [alone] at failed
      cases failed
    | ok z =>
      have scanned : ∀ token ∈ Token.listOfText b, token.WellFormed :=
        fun token present => Token.wellFormed_of_mem_scan present
      have same : z.map Operation.entry = y.map Operation.entry :=
        (entries_compileFrom scanned after).trans (entries_compile alone).symm
      refine ⟨z, ?_, same, by simpa using congrArg List.length same⟩
      rw [spaced, after]
      rfl

/-- A script may end in a connector: behind a space the other one then stands below its directory,
behind a `;` it does not. -/
theorem compile_sequence_after_connector :
    compile "/a/ <" = .ok [Operation.mkdir "a"] ∧ compile "b" = .ok [Operation.write "b"] ∧
      compile ("/a/ <" ++ ";" ++ "b") = .ok ([Operation.mkdir "a"] ++ [Operation.write "b"]) ∧
      ∃ z, compile ("/a/ <" ++ " " ++ "b") = .ok ([Operation.mkdir "a"] ++ z) ∧ z.length = 1 := by
  have scanned : Token.listOfText "/a/ <" = [.path ["a"] false, .less] := by decide +kernel
  have scannedToo : Token.listOfText "b" = [.name "b"] := by decide +kernel
  have compiled : compile "/a/ <" = .ok [Operation.mkdir "a"] := by
    rw [compile, scanned]
    cbv
  have alone : compile "b" = .ok [Operation.write "b"] := by
    rw [compile, scannedToo]
    cbv
  obtain ⟨apart, -, behind⟩ := compile_sequence compiled "b"
  obtain ⟨z, after, -, count⟩ := behind _ alone
  rw [alone] at apart
  exact ⟨compiled, alone, apart, z, after, count⟩

end Scaffold
