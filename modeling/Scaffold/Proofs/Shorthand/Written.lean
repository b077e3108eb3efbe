import Scaffold.Proofs.Path.Pieces
import Scaffold.Shorthand.Compile

namespace Scaffold.Token

/-- What the name of a file or directory may hold. -/
def IsPlain (c : Char) : Prop :=
  Text.isBlank c = false ∧ c ∉ ['\ufeff', '/', '&', '<', ';', '[', ']']

def IsSegment (text : String) : Prop := text ≠ "" ∧ ∀ c ∈ text.toList, IsPlain c

theorem IsSegment.noSlash {text : String} (isSegment : IsSegment text) : '/' ∉ text.toList :=
  fun slash => (isSegment.2 '/' slash).2 (by simp)

def WellFormed : Token → Prop
  | path parts isFile =>
    (∀ part ∈ parts, IsSegment part) ∧
      ∃ last, parts.getLast? = some last ∧ isFile = last.toList.contains '.'
  | name text => IsSegment text
  | _ => True

theorem marker?_eq_none_iff {c : Char} : marker? c = none ↔ c ∉ ['&', '<', ';', '[', ']'] := by
  unfold marker?
  split <;> simp_all

theorem isPlain_iff {c : Char} : IsPlain c ↔ endsName c = false := by
  simp only [IsPlain, endsName, isDelimiter, isSpace, Bool.or_eq_false_iff, decide_eq_false_iff_not,
    Option.isSome_eq_false_iff, Option.isNone_iff_eq_none, marker?_eq_none_iff, List.mem_cons]
  grind

theorem isSpace_of_marker? {c : Char} {token : Token} (marks : marker? c = some token) :
    isSpace c = false := by
  unfold marker? at marks
  split at marks <;> first | decide | cases marks

theorem scan_nil : scan [] = [] := by rw [scan]

theorem scan_space {c : Char} (space : isSpace c = true) (cs : List Char) :
    scan (c :: cs) = scan cs := by
  rw [scan, if_pos space]

theorem scan_marker {c : Char} {token : Token} (marks : marker? c = some token) (cs : List Char) :
    scan (c :: cs) = token :: scan cs := by
  have apart : ¬ isSpace c = true := by simp [isSpace_of_marker? marks]
  rw [scan, if_neg apart, marks]

theorem scan_slash (cs : List Char) : scan ('/' :: cs) =
    ofRun (cs.takeWhile (!isDelimiter ·)) ++ scan (cs.dropWhile (!isDelimiter ·)) := by
  have apart : ¬ isSpace '/' = true := by decide
  have unmarked : marker? '/' = none := rfl
  rw [scan, if_neg apart, unmarked]
  exact if_pos rfl

theorem scan_name {c : Char} (plain : endsName c = false) (cs : List Char) : scan (c :: cs) =
    name (String.ofList (c :: cs.takeWhile (!endsName ·))) ::
      scan (cs.dropWhile (!endsName ·)) := by
  simp only [endsName, isDelimiter, Bool.or_eq_false_iff, decide_eq_false_iff_not,
    Option.isSome_eq_false_iff, Option.isNone_iff_eq_none] at plain
  obtain ⟨⟨apart, unmarked⟩, noSlash⟩ := plain
  rw [scan, if_neg (by simp [apart]), unmarked]
  exact if_neg noSlash

theorem takeWhile_append_cons {stays : Char → Bool} {d : Char} (ends : stays d = false)
    (first rest : List Char) :
    (first ++ d :: rest).takeWhile stays = first.takeWhile stays := by
  induction first with
  | nil => simp [ends]
  | cons c cs ih => cases h : stays c <;> simp [h, ih]

theorem dropWhile_append_cons {stays : Char → Bool} {d : Char} (ends : stays d = false)
    (first rest : List Char) :
    (first ++ d :: rest).dropWhile stays = first.dropWhile stays ++ d :: rest := by
  induction first with
  | nil => simp [ends]
  | cons c cs ih => cases h : stays c <;> simp [h, ih]

theorem takeWhile_of_all {stays : Char → Bool} {run : List Char}
    (all : ∀ c ∈ run, stays c = true) : run.takeWhile stays = run ∧ run.dropWhile stays = [] := by
  induction run with
  | nil => exact ⟨rfl, rfl⟩
  | cons c cs ih =>
    have first := all c (by simp)
    have others := ih fun d member => all d (by simp [member])
    simpa [first] using others

theorem scan_append {d : Char} (delimits : isDelimiter d = true) (first rest : List Char) :
    scan (first ++ d :: rest) = scan first ++ scan (d :: rest) := by
  have endsRun : (!isDelimiter d) = false := by simp [delimits]
  have endsBare : (!endsName d) = false := by simp [endsName, delimits]
  -- A run in `first` stops at its own end or at `d`, so what is left of it ends in `d :: rest`.
  fun_induction scan first with
  | case1 => rfl
  | case2 c cs space ih => rw [List.cons_append, scan_space space, ih]
  | case3 c cs apart token marks ih =>
    rw [List.cons_append, scan_marker marks, ih, List.cons_append]
  | case4 cs apart unmarked ih =>
    rw [List.cons_append, scan_slash, takeWhile_append_cons endsRun,
      dropWhile_append_cons endsRun, ih, List.append_assoc]
  | case5 c cs apart unmarked noSlash ih =>
    have plain : endsName c = false := by
      simp [endsName, isDelimiter, apart, unmarked, noSlash]
    rw [List.cons_append, scan_name plain, takeWhile_append_cons endsBare,
      dropWhile_append_cons endsBare, ih, List.cons_append]

theorem not_isDelimiter {c : Char} (plain : IsPlain c) : isDelimiter c = false := by
  have bare := isPlain_iff.mp plain
  simp only [endsName, Bool.or_eq_false_iff] at bare
  exact bare.1

theorem wellFormed_of_mem_ofRun {run : List Char} (plain : ∀ c ∈ run, isDelimiter c = false)
    {token : Token} (present : token ∈ ofRun run) : token.WellFormed := by
  cases ends : (Path.pieces (String.ofList run)).getLast? with
  | none => simp [ofRun, ends] at present
  | some last =>
    have same : token = path (Path.pieces (String.ofList run)) (last.toList.contains '.') := by
      simpa [ofRun, ends] using present
    rw [same]
    refine ⟨?_, last, ends, rfl⟩
    intro part member
    obtain ⟨filled, noSlash, inside⟩ := Path.mem_pieces member
    refine ⟨filled, ?_⟩
    intro c inPart
    have bare : isDelimiter c = false := plain c (by simpa using inside c inPart)
    have apart : c ≠ '/' := fun slash => noSlash (slash ▸ inPart)
    exact isPlain_iff.mpr (by simp [endsName, bare, apart])

theorem wellFormed_of_mem_scan {cs : List Char} {token : Token} (present : token ∈ scan cs) :
    token.WellFormed := by
  fun_induction scan cs with
  | case1 => cases present
  | case2 c cs space ih => exact ih present
  | case3 c cs apart marker marks ih =>
    rcases List.mem_cons.mp present with rfl | present
    · unfold marker? at marks
      split at marks <;> cases marks <;> trivial
    · exact ih present
  | case4 cs apart unmarked ih =>
    rcases List.mem_append.mp present with present | present
    · refine wellFormed_of_mem_ofRun ?_ present
      intro c member
      simpa using List.all_eq_true.mp List.all_takeWhile c member
    · exact ih present
  | case5 c cs apart unmarked noSlash ih =>
    rcases List.mem_cons.mp present with rfl | present
    · refine ⟨by simp, ?_⟩
      intro d member
      rw [String.toList_ofList] at member
      rcases List.mem_cons.mp member with rfl | member
      · exact isPlain_iff.mpr (by simp [endsName, isDelimiter, apart, unmarked, noSlash])
      · exact isPlain_iff.mpr (by simpa using List.all_eq_true.mp List.all_takeWhile d member)
    · exact ih present

theorem scan_slash_run {run : List Char} (plain : ∀ c ∈ run, isDelimiter c = false) :
    scan ('/' :: run) = ofRun run := by
  have stays : ∀ c ∈ run, (!isDelimiter c) = true := by
    intro c member
    simp [plain c member]
  obtain ⟨taken, dropped⟩ := takeWhile_of_all stays
  rw [scan_slash, taken, dropped, scan_nil, List.append_nil]

theorem scan_name_run {cs : List Char} (filled : cs ≠ []) (plain : ∀ c ∈ cs, IsPlain c) :
    scan cs = [name (String.ofList cs)] := by
  obtain ⟨c, rest, rfl⟩ := List.exists_cons_of_ne_nil filled
  have stays : ∀ d ∈ rest, (!endsName d) = true := by
    intro d member
    simp [isPlain_iff.mp (plain d (by simp [member]))]
  obtain ⟨taken, dropped⟩ := takeWhile_of_all stays
  rw [scan_name (isPlain_iff.mp (plain c (by simp))), taken, dropped, scan_nil]

theorem scan_path_text {parts : List String} {isFile : Bool}
    (wellFormed : (path parts isFile).WellFormed) :
    scan (path parts isFile).text.toList = [path parts isFile] := by
  obtain ⟨segments, last, ends, dotted⟩ := wellFormed
  have proper : ∀ part ∈ parts, part ≠ "" ∧ '/' ∉ part.toList := fun part member =>
    ⟨(segments part member).1, (segments part member).noSlash⟩
  let run := "/".intercalate parts ++ (if isFile then "" else "/")
  have written : (path parts isFile).text.toList = '/' :: run.toList := by
    simp [text, run, String.append_assoc]
  have cut : Path.pieces run = parts := by
    have joined := Path.pieces_intercalate proper
    cases isFile with
    | true => simpa [run] using joined
    | false => simpa [run, Path.pieces_append_slash] using joined
  have plain : ∀ c ∈ run.toList, isDelimiter c = false := by
    intro c member
    have origin : c = '/' ∨ ∃ part ∈ parts, c ∈ part.toList := by
      rw [String.toList_append] at member
      rcases List.mem_append.mp member with member | member
      · exact Path.mem_intercalate member
      · cases isFile with
        | true => simp at member
        | false => exact .inl (by simpa using member)
    rcases origin with rfl | ⟨part, inParts, inside⟩
    · decide
    · exact not_isDelimiter ((segments part inParts).2 c inside)
  rw [written, scan_slash_run plain, ofRun, String.ofList_toList, cut, ends, dotted]

theorem scan_text {token : Token} (wellFormed : token.WellFormed) :
    scan token.text.toList = [token] := by
  cases token with
  | openBracket | closeBracket | less | ampersand | semicolon =>
    exact (scan_marker rfl []).trans (by rw [scan_nil])
  | path parts isFile => exact scan_path_text wellFormed
  | name text =>
    have filled : text.toList ≠ [] := by simpa using wellFormed.1
    have scanned := scan_name_run filled wellFormed.2
    rwa [String.ofList_toList] at scanned

theorem listOfText_listText {tokens : List Token}
    (wellFormed : ∀ token ∈ tokens, token.WellFormed) : listOfText (listText tokens) = tokens := by
  induction tokens with
  | nil => rw [listText, List.map_nil, String.intercalate_nil, listOfText, String.toList_empty,
      scan_nil]
  | cons token rest ih =>
    have first := scan_text (wellFormed token (by simp))
    by_cases none : rest = []
    · rw [none, listText, List.map_singleton, String.intercalate_singleton]
      exact first
    · have others := ih fun other member => wellFormed other (by simp [member])
      have written : (listText (token :: rest)).toList =
          token.text.toList ++ ' ' :: (listText rest).toList := by
        rw [listText, List.map_cons, String.intercalate_cons_of_ne_nil (by simpa using none)]
        simp [listText]
      rw [listOfText, written, scan_append (by decide), first, scan_space (by decide)]
      exact congrArg (token :: ·) others

/-- Scanning yields well-formed tokens only and each list of them, which comes back from its written
form as it was; so a script that is written anew from its tokens asks for the same. -/
theorem rewriting_keeps_script :
    (∀ source, ∀ token ∈ listOfText source, token.WellFormed) ∧
      (∀ tokens : List Token, (∀ token ∈ tokens, token.WellFormed) →
        listOfText (listText tokens) = tokens) ∧
      (∀ tokens, (∃ source, listOfText source = tokens) ↔ ∀ token ∈ tokens, token.WellFormed) ∧
      ∀ source, compile (listText (listOfText source)) = compile source := by
  have scanned : ∀ source, ∀ token ∈ listOfText source, token.WellFormed :=
    fun source token present => wellFormed_of_mem_scan present
  refine ⟨scanned, fun tokens => listOfText_listText, ?_, ?_⟩
  · intro tokens
    constructor
    · rintro ⟨source, rfl⟩
      exact scanned source
    · intro wellFormed
      exact ⟨listText tokens, listOfText_listText wellFormed⟩
  · intro source
    rw [compile, compile, listOfText_listText (scanned source)]

end Scaffold.Token
