import Scaffold.CommandLine
import Scaffold.Proofs.Json.RoundTrip
import Scaffold.Proofs.Outcome
import Scaffold.Proofs.Shorthand.Ordering
import Scaffold.Proofs.Text.Search

/-! What the command prints for a script is read back as the script's operations. As JSON that is so
for all operations (`whole_listToJson`). Lines have no escapes; they are read back because a compiled
path has no blank of any kind in it (`not_isSpace_of_compile`), so neither has it a line feed. -/

namespace Scaffold

theorem Json.escapedChar_eq_self_iff (c : Char) :
    escapedChar c = [c] ↔ c ≠ '\x22' ∧ c ≠ '\\' ∧ ¬ c.toNat < 0x20 := by
  unfold escapedChar
  split
  case h_8 quote slash _ _ _ _ _ =>
    have apart : c ≠ '\x22' ∧ c ≠ '\\' := ⟨quote, slash⟩
    by_cases control : c.toNat < 0x20
    · simp [control]
    · simp [control, apart]
  all_goals decide

def Kind.ofText? : String → Option Kind
  | "mkdir" => some mkdir
  | "write" => some write
  | _ => none

theorem Kind.ofText?_text (kind : Kind) : ofText? kind.text = some kind := by
  cases kind <;> rfl

namespace Operation

section AsJson

def ofJson? : Json → Option Operation
  | .object [(some "op", .string (some kind)), (some "relPath", .string (some path))] =>
    (Kind.ofText? kind).map (⟨·, path⟩)
  | _ => none

def listOfJson? : Json → Option (List Operation)
  | .array items => items.mapM ofJson?
  | _ => none

theorem ofJson?_toJson (operation : Operation) : ofJson? operation.toJson = some operation := by
  simp only [toJson, ofJson?, Kind.ofText?_text, Option.map_some]

theorem listOfJson?_listToJson (operations : List Operation) :
    listOfJson? (listToJson operations) = some operations :=
  mapM_map_eq_some ofJson?_toJson operations

theorem whole_listToJson (operations : List Operation) : (listToJson operations).Whole := by
  refine .array _ fun item present => ?_
  obtain ⟨operation, -, rfl⟩ := List.mem_map.mp present
  refine .object _ (by simp) fun field inside => ?_
  simp only [List.mem_cons, List.not_mem_nil, or_false] at inside
  rcases inside with rfl | rfl
  · exact .string _
  · exact .string _

end AsJson

section AsLines

def ofLine? (line : List Char) : Option Operation := do
  let (word, path) ← Text.splitOnce ' ' line
  let kind ← Kind.ofText? (String.ofList word)
  return ⟨kind, String.ofList path⟩

def listOfLines? (text : String) : Option (List Operation) :=
  (text.toList.splitOn '\n').dropLast.mapM ofLine?

theorem ofLine?_line (operation : Operation) : ofLine? operation.line.toList = some operation := by
  have oneWord : ' ' ∉ operation.kind.text.toList := by
    cases operation.kind <;> decide
  have cut : Text.splitOnce ' ' operation.line.toList =
      some (operation.kind.text.toList, operation.path.toList) :=
    Text.splitOnce_eq_some_iff.mpr ⟨by simp [line], oneWord⟩
  simp only [ofLine?, cut, Option.bind_eq_bind, Option.bind_some, String.ofList_toList,
    Kind.ofText?_text]
  rfl

end AsLines

end Operation

def Text.ofLines (lines : List String) : String := String.join (lines.map (· ++ "\n"))

theorem Text.splitOn_ofLines {lines : List String} (clear : ∀ line ∈ lines, '\n' ∉ line.toList) :
    (ofLines lines).toList.splitOn '\n' = lines.map String.toList ++ [[]] := by
  induction lines with
  | nil => rfl
  | cons line lines ih =>
    have split : (ofLines (line :: lines)).toList = line.toList ++ '\n' :: (ofLines lines).toList := by
      simp [ofLines]
    rw [split, List.splitOn_append_cons_self_of_not_mem (clear line List.mem_cons_self),
      ih fun other member => clear other (List.mem_cons_of_mem _ member)]
    rfl

namespace Operation

theorem newLine_not_mem_line {operation : Operation} (clear : '\n' ∉ operation.path.toList) :
    '\n' ∉ operation.line.toList := by
  have oneWord : '\n' ∉ operation.kind.text.toList := by
    cases operation.kind <;> decide
  simp [line, oneWord, clear]

theorem listOfLines?_ofLines {operations : List Operation}
    (clear : ∀ operation ∈ operations, '\n' ∉ operation.path.toList) :
    listOfLines? (Text.ofLines (operations.map line)) = some operations := by
  have oneEach : ∀ text ∈ operations.map line, '\n' ∉ text.toList := by
    intro text member
    obtain ⟨operation, present, rfl⟩ := List.mem_map.mp member
    exact newLine_not_mem_line (clear operation present)
  rw [listOfLines?, Text.splitOn_ofLines oneEach, List.dropLast_concat, List.map_map]
  exact mapM_map_eq_some ofLine?_line operations

end Operation

theorem not_isSpace_of_compile {source : String} {operations : List Operation}
    {operation : Operation} (compiled : compile source = .ok operations)
    (present : operation ∈ operations) : ∀ c ∈ operation.path.toList, Token.isSpace c = false := by
  obtain ⟨before, after, split⟩ := List.append_of_mem present
  obtain ⟨segments, -, areSegments, path, -⟩ := supported_of_compile compiled split
  intro c inside
  rw [path] at inside
  rcases Path.mem_intercalate inside with rfl | ⟨segment, member, within⟩
  · decide
  · have plain := Token.not_isDelimiter ((areSegments segment member).2 c within)
    simp only [Token.isDelimiter, Bool.or_eq_false_iff] at plain
    exact plain.1

namespace CommandLine

theorem printLines_apply (lines : List String) (world : World) :
    (printLines lines : StateM World Unit) world =
      ((), { world with output := world.output ++ Text.ofLines lines }) := by
  induction lines generalizing world with
  | nil => simp [printLines, Text.ofLines, pure_apply]
  | cons line lines ih =>
    rw [printLines, bind_apply, ih]
    simp [printLine, Terminal.print, Text.ofLines, String.append_assoc]

def shownText (json : Bool) (operations : List Operation) : String :=
  Text.ofLines (showOperations json operations)

def readShown (json : Bool) (shown : String) : Option (List Operation) :=
  if json then (Json.parse shown).bind Operation.listOfJson? else Operation.listOfLines? shown

variable {source : String} {operations : List Operation}

theorem showCompiled_apply (compiled : compile source = .ok operations) (json : Bool)
    (world : World) : (showCompiled source json : StateM World _) world =
      (.ok (), { world with output := world.output ++ shownText json operations }) := by
  rw [showCompiled, compiled]
  dsimp only
  rw [bind_apply, printLines_apply]
  rfl

theorem readShown_shownText (compiled : compile source = .ok operations) (json : Bool) :
    readShown json (shownText json operations) = some operations := by
  cases json with
  | false =>
    refine Operation.listOfLines?_ofLines fun operation present feed => ?_
    cases not_isSpace_of_compile compiled present '\n' feed
  | true =>
    have shown : shownText true operations = (Operation.listToJson operations).pretty ++ "\n" := by
      simp [shownText, showOperations, Text.ofLines]
    have blank : Json.Blank "\n".toList := by simp [Json.Blank, Json.isSpace]
    rw [readShown, if_pos rfl, shown,
      Json.parse_pretty_append (Operation.whole_listToJson operations) blank, Option.bind_some,
      Operation.listOfJson?_listToJson]

/-- On one line or with indents, the JSON of any operations is read as an array of objects with just
the two fields, and these are the operations; only quotes, backslashes and controls are escaped.
What the command prints for a script, as lines or as JSON, is read back as what the script compiles
to, so two scripts that are printed alike compile to the same operations. -/
theorem printed_read_back :
    (∀ operations : List Operation,
      let json := Json.array (operations.map fun operation => .object
        [(some "op", .string (some operation.kind.text)),
          (some "relPath", .string (some operation.path))])
      Json.parse (Operation.listToJson operations).compact = some json ∧
        Json.parse (Operation.listToJson operations).pretty = some json ∧
        Operation.listOfJson? json = some operations) ∧
    (∀ c, Json.escapedChar c = [c] ↔ c ≠ '\x22' ∧ c ≠ '\\' ∧ ¬ c.toNat < 0x20) ∧
    (∀ source operations, compile source = .ok operations → ∀ json (world : World), ∃ shown,
      (showCompiled source json : StateM World _) world =
        (.ok (), { world with output := world.output ++ shown }) ∧
      readShown json shown = some operations) ∧
    ∀ source other operations others, compile source = .ok operations →
      compile other = .ok others → ∀ json (world : World),
        ((showCompiled source json : StateM World _) world).2.output =
          ((showCompiled other json : StateM World _) world).2.output → operations = others := by
  refine ⟨fun operations => ?_, Json.escapedChar_eq_self_iff, ?_, ?_⟩
  · have whole := Operation.whole_listToJson operations
    exact ⟨Json.parse_compact whole, Json.parse_pretty whole,
      Operation.listOfJson?_listToJson operations⟩
  · intro source operations compiled json world
    exact ⟨shownText json operations, showCompiled_apply compiled json world,
      readShown_shownText compiled json⟩
  · intro source other operations others compiled compiledOther json world same
    rw [showCompiled_apply compiled, showCompiled_apply compiledOther] at same
    have alike : shownText json operations = shownText json others :=
      (String.append_right_inj _).mp same
    have read := readShown_shownText compiled json
    rw [alike, readShown_shownText compiledOther json] at read
    exact (Option.some.inj read).symm

-- The names hold a quote, a backslash and a character beyond ASCII.
theorem printed_read_back_with_quotes :
    let operations := [Operation.mkdir "d\"x", Operation.write "d\"x/\\é.txt"]
    let others := [Operation.mkdir "d\"x", Operation.write ("d\"x/" ++ "\\é.txt")]
    let world : World := { disk := Disk.blank }
    let json := "[\n  \x7b\n    \"op\": \"mkdir\",\n    \"relPath\": \"d\\\"x\"\n  \x7d,\n" ++
      "  \x7b\n    \"op\": \"write\",\n    \"relPath\": \"d\\\"x/\\\\é.txt\"\n  \x7d\n]\n"
    compile "/d\"x/ < \\é.txt" = .ok operations ∧ compile "/d\"x/\\é.txt" = .ok others ∧
      (∃ shown, (showCompiled "/d\"x/ < \\é.txt" true : StateM World _) world =
          (.ok (), { world with output := world.output ++ shown }) ∧
        readShown true shown = some operations) ∧
      ((showCompiled "/d\"x/ < \\é.txt" true : StateM World _) world).2.output = json ∧
      ((showCompiled "/d\"x/ < \\é.txt" false : StateM World _) world).2.output =
        ((showCompiled "/d\"x/\\é.txt" false : StateM World _) world).2.output ∧
      operations = others := by
  intro operations others world json
  have scanned : Token.listOfText "/d\"x/ < \\é.txt" =
      [.path ["d\"x"] false, .less, .name "\\é.txt"] := by decide +kernel
  have scannedOther : Token.listOfText "/d\"x/\\é.txt" = [.path ["d\"x", "\\é.txt"] true] := by
    decide +kernel
  have compiled : compile "/d\"x/ < \\é.txt" = .ok operations := by
    rw [compile, scanned]
    cbv
  have compiledOther : compile "/d\"x/\\é.txt" = .ok others := by
    rw [compile, scannedOther]
    cbv
  have written :
      ((showCompiled "/d\"x/ < \\é.txt" true : StateM World _) world).2.output = json := by
    rw [showCompiled_apply compiled]
    decide +kernel
  have alike : ((showCompiled "/d\"x/ < \\é.txt" false : StateM World _) world).2.output =
      ((showCompiled "/d\"x/\\é.txt" false : StateM World _) world).2.output := by
    rw [showCompiled_apply compiled, showCompiled_apply compiledOther]
    decide +kernel
  obtain ⟨-, -, shows, differ⟩ := printed_read_back
  exact ⟨compiled, compiledOther, shows _ _ compiled true world, written, alike,
    differ _ _ _ _ compiled compiledOther false world alike⟩

end CommandLine

end Scaffold
