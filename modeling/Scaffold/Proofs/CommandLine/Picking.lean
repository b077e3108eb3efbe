import Scaffold.CommandLine
import Scaffold.Proofs.Store.Recall
import Scaffold.Proofs.Text.Trim
import Scaffold.Proofs.Text.Utf8

namespace Scaffold

namespace World

/-- The input begins with a line that holds the answer, and `rest` comes after it. Only the last line
may lack its line feed, and then it is not empty. -/
structure Offers (world : World) (answer : String) (rest : List UInt8) : Prop where
  oneLine : '\n' ∉ answer.toList
  input : world.input = Text.bytes answer ++ 10 :: rest ∨
    world.input = Text.bytes answer ∧ rest = [] ∧ answer ≠ ""

variable {world : World} {answer : String} {line rest : List UInt8}

theorem stays_of_clear (clear : 10 ∉ line) : ∀ byte ∈ line, decide (byte ≠ 10) = true :=
  fun _ member => decide_eq_true (ne_of_mem_of_not_mem member clear)

theorem cutLine_of_feed (clear : 10 ∉ line) : cutLine (line ++ 10 :: rest) = (line ++ [10], rest) := by
  rw [cutLine, List.takeWhile_append_of_pos (stays_of_clear clear),
    List.dropWhile_append_of_pos (stays_of_clear clear)]
  simp

theorem cutLine_of_last (clear : 10 ∉ line) : cutLine line = (line, []) := by
  rw [cutLine, List.takeWhile_eq_self_iff.mpr (stays_of_clear clear),
    List.dropWhile_eq_nil_iff.mpr (stays_of_clear clear)]

theorem readLine_apply {text : String} (filled : world.input ≠ [])
    (cut : cutLine world.input = (Text.bytes text, rest)) :
    (Terminal.readLine : StateM World _) world = (some text, { world with input := rest }) := by
  obtain ⟨byte, more, split⟩ := List.exists_cons_of_ne_nil filled
  rw [split] at cut
  simp only [Terminal.readLine, split, cut, Text.toByteArray_bytes, Text.fromUTF8?_toUTF8]

theorem readLine_of_offers (offers : world.Offers answer rest) :
    ∃ ending, Text.Blanks ending ∧ (Terminal.readLine : StateM World _) world =
      (some (answer ++ ending), { world with input := rest }) := by
  have clear : 10 ∉ Text.bytes answer := fun feed => offers.oneLine (Text.newLine_mem_of_mem_bytes feed)
  rcases offers.input with feed | ⟨last, rfl, filled⟩
  · refine ⟨"\n", by decide, readLine_apply (by simp [feed]) ?_⟩
    rw [feed, cutLine_of_feed clear, Text.bytes_append, Text.bytes_newLine]
  · refine ⟨"", Text.blanks_empty, readLine_apply (by simpa [last] using Text.bytes_ne_nil filled) ?_⟩
    rw [last, cutLine_of_last clear, String.append_empty]

end World

namespace CommandLine

section Numbers

def IsNumeral (text : String) (n : Nat) : Prop :=
  ∃ digits : List Char, digits ≠ [] ∧ (∀ digit ∈ digits, digit.isDigit = true) ∧
    (text.toList = digits ∨ text.toList = '+' :: digits) ∧ Nat.ofDigitChars 10 digits 0 = n

variable {text : String} {n : Nat}

theorem isNumeral_toString (n : Nat) : IsNumeral (toString n) n := by
  refine ⟨Nat.toDigits 10 n, Nat.toDigits_ne_nil, ?_, .inl ?_, Nat.ofDigitChars_ten_toDigits⟩
  · intro digit member
    exact Nat.isDigit_of_mem_toDigits (by decide) (by decide) member
  · rw [Nat.toString_eq_ofList_toDigits, String.toList_ofList]

theorem decimalNumber?_eq_some_iff {digits : List Char} :
    Text.decimalNumber? digits = some n ↔ digits ≠ [] ∧
      (∀ digit ∈ digits, digit.isDigit = true) ∧ Nat.ofDigitChars 10 digits 0 = n := by
  have number : Text.ofDigits 10 (digits.map fun digit => digit.toNat - '0'.toNat) =
      Nat.ofDigitChars 10 digits 0 := by
    rw [Text.ofDigits, List.foldl_map, Nat.ofDigitChars_eq_foldl]
  rw [Text.decimalNumber?, number, ← List.all_eq_true]
  cases digits.all Char.isDigit <;> by_cases empty : digits = [] <;> simp [empty]

theorem readNumber_eq_some_iff : readNumber text = some n ↔ IsNumeral text n ∧ n < wordLimit := by
  simp only [readNumber, Option.filter_eq_some_iff, decide_eq_true_eq]
  refine and_congr_left fun _ => ?_
  constructor
  · intro read
    split at read
    next digits signed =>
      obtain ⟨filled, all, value⟩ := decimalNumber?_eq_some_iff.mp read
      exact ⟨digits, filled, all, .inr signed, value⟩
    next =>
      obtain ⟨filled, all, value⟩ := decimalNumber?_eq_some_iff.mp read
      exact ⟨text.toList, filled, all, .inl rfl, value⟩
  · rintro ⟨digits, filled, all, bare | signed, value⟩
    · have read := decimalNumber?_eq_some_iff.mpr ⟨filled, all, value⟩
      split
      next others signed =>
        have sign : '+'.isDigit = true := all '+' (by simp [← bare, signed])
        cases sign
      next => rwa [bare]
    · rw [signed]
      exact decimalNumber?_eq_some_iff.mpr ⟨filled, all, value⟩

theorem readNumber_eq_none_iff : readNumber text = none ↔ ∀ n < wordLimit, ¬ IsNumeral text n := by
  simp only [Option.eq_none_iff_forall_ne_some, ne_eq, readNumber_eq_some_iff, not_and, imp_not_comm]

theorem isBlank_of_isDigit {c : Char} (digit : c.isDigit = true) : Text.isBlank c = false := by
  have bounds : 48 ≤ c.toNat ∧ c.toNat ≤ 57 := by
    simpa [Char.isDigit, UInt32.le_iff_toNat_le] using digit
  have apart : ∀ range ∈ Text.blankRanges, range.2 < 48 ∨ 57 < range.1 := by decide
  apply List.any_eq_false.mpr
  intro range member
  have side := apart range member
  simp only [Bool.and_eq_true, decide_eq_true_eq]
  omega

theorem IsNumeral.trimmed (numeral : IsNumeral text n) : Text.Trimmed text := by
  obtain ⟨digits, -, all, shape, -⟩ := numeral
  have visible : ∀ c ∈ digits, Text.isBlank c = false := fun c member =>
    isBlank_of_isDigit (all c member)
  apply Text.trimmed_of_visible
  intro c member
  rcases shape with bare | signed
  · exact visible c (bare ▸ member)
  · rw [signed] at member
    rcases List.mem_cons.mp member with rfl | member
    · decide
    · exact visible c member

end Numbers

def IsSavedName (name : String) : Prop := ∃ line script, parseSaveLine line = .ok (name, script)

theorem isSavedName_iff {name : String} :
    IsSavedName name ↔ Text.Trimmed name ∧ '@' ∉ name.toList ∧ name ≠ "" := by
  constructor
  · rintro ⟨line, script, parsed⟩
    have saves : IsSaveLine line name script := parseSaveLine_eq_ok_iff.mp parsed
    have apart := saves.not_mem_name
    obtain ⟨-, -, -, -, ⟨trimmed, -⟩, -, filled, -⟩ := saves
    exact ⟨trimmed, apart, filled⟩
  · rintro ⟨trimmed, apart, filled⟩
    refine ⟨name ++ "@" ++ "x", "x", parseSaveLine_eq_ok_iff.mpr ?_⟩
    have script : Text.Trimmed "x" := by decide
    exact ⟨name, "x", rfl, apart, trimmed.trimsTo, script.trimsTo, filled, by decide⟩

section Answers

variable {names : List String} {answer name numeral : String} {n : Nat}

theorem pickName_of_number (reads : IsNumeral (Text.trim answer) n) (fits : n < wordLimit) :
    pickName names answer = if n = 0 then none else names[n - 1]? := by
  rw [pickName, readNumber_eq_some_iff.mpr ⟨reads, fits⟩]
  cases n with
  | zero => rfl
  | succ n => simp

theorem pickName_of_name (other : ∀ n < wordLimit, ¬ IsNumeral (Text.trim answer) n) :
    pickName names answer = if Text.trim answer ∈ names then some (Text.trim answer) else none := by
  rw [pickName, readNumber_eq_none_iff.mpr other]
  simp

def IsPlace (answer : String) (n : Nat) : Prop :=
  ∃ numeral, IsNumeral numeral n ∧ Text.Padded answer numeral

theorem isPlace_iff : IsPlace answer n ↔ IsNumeral (Text.trim answer) n := by
  constructor
  · rintro ⟨numeral, reads, padded⟩
    rwa [Text.trim_of_padded padded reads.trimmed]
  · exact fun reads => ⟨Text.trim answer, reads, Text.padded_trim answer⟩

theorem pickName_of_isPlace {i : Nat} (place : IsPlace answer (i + 1)) (inside : i < names.length)
    (countable : names.length < wordLimit) : pickName names answer = some names[i] := by
  rw [pickName_of_number (isPlace_iff.mp place) (by omega)]
  simp [inside]

theorem pickName_eq_none (unnamed : ∀ name ∈ names, ¬ Text.Padded answer name)
    (unplaced : ∀ i < names.length, ¬ IsPlace answer (i + 1)) : pickName names answer = none := by
  cases read : readNumber (Text.trim answer) with
  | none =>
    rw [pickName_of_name (readNumber_eq_none_iff.mp read), if_neg]
    intro member
    exact unnamed _ member (Text.padded_trim answer)
  | some n =>
    obtain ⟨reads, fits⟩ := readNumber_eq_some_iff.mp read
    rw [pickName_of_number reads fits]
    cases n with
    | zero => rfl
    | succ i =>
      have outside : names.length ≤ i := by
        by_contra inside
        exact unplaced i (by omega) (isPlace_iff.mpr reads)
      simp [outside]

def numbered (number : Nat) : List String → String
  | [] => ""
  | name :: names =>
    padLeft 3 (toString number) ++ ") " ++ name ++ "\n" ++ numbered (number + 1) names

theorem showNumbered_apply (number : Nat) (names : List String) (world : World) :
    (showNumbered number names : StateM World Unit) world =
      ((), { world with errors := world.errors ++ numbered number names }) := by
  induction names generalizing number world with
  | nil => simp [showNumbered, numbered, pure_apply]
  | cons name names ih =>
    rw [showNumbered, bind_apply, ih]
    simp [Terminal.printError, numbered, String.append_assoc]

theorem pickName_congr {given : String} (same : Text.trim given = Text.trim answer) :
    pickName names given = pickName names answer := by
  rw [pickName, pickName, same]

theorem askName_of_offers {world : World} {rest : List UInt8} (offers : world.Offers answer rest) :
    (askName names : StateM World _) world = (pickName names answer,
      { world with
        input := rest
        errors := world.errors ++ numbered 1 names ++ "Pick saved script: " }) := by
  let asked : World :=
    { world with errors := world.errors ++ numbered 1 names ++ "Pick saved script: " }
  obtain ⟨ending, blank, read⟩ : ∃ ending, Text.Blanks ending ∧
      (Terminal.readLine : StateM World _) asked =
        (some (answer ++ ending), { asked with input := rest }) :=
    World.readLine_of_offers ⟨offers.oneLine, offers.input⟩
  have same : pickName names (Text.withoutLineEnd (answer ++ ending)) = pickName names answer :=
    pickName_congr (by rw [Text.trim_withoutLineEnd, Text.trim_append blank])
  have question : (Terminal.printError "Pick saved script: " : StateM World _)
      { world with errors := world.errors ++ numbered 1 names } = ((), asked) := rfl
  simp only [askName, askUser, bind_apply, pure_apply, showNumbered_apply, question, read,
    Option.map_some, Option.bind_some, same, asked]

/-- A line that is a number from one to the length of the list picks by the place, and one that is no
number picks the name it is. A line that is neither a name nor such a number picks nothing. -/
theorem answer_picks {names : List String} {answer : String} {world : World} {rest : List UInt8}
    (saved : ∀ name ∈ names, IsSavedName name) (countable : names.length < wordLimit)
    (offers : world.Offers answer rest) :
    let picked := ((askName names : StateM World _) world).1
    (∀ i (inside : i < names.length),
      (Text.Padded answer names[i] → (∀ n < wordLimit, ¬ IsNumeral names[i] n) →
        picked = some names[i]) ∧
      (IsPlace answer (i + 1) → picked = some names[i]) ∧
      IsNumeral (toString (i + 1)) (i + 1)) ∧
    ((∀ name ∈ names, ¬ Text.Padded answer name) →
      (∀ i < names.length, ¬ IsPlace answer (i + 1)) → picked = none) := by
  intro picked
  have answered : picked = pickName names answer := by
    simp only [picked, askName_of_offers offers]
  rw [answered]
  refine ⟨fun i inside => ⟨?_, fun place => pickName_of_isPlace place inside countable,
    isNumeral_toString (i + 1)⟩, pickName_eq_none⟩
  intro padded other
  have trimmed : Text.Trimmed names[i] := (isSavedName_iff.mp (saved _ (List.getElem_mem inside))).1
  have same : Text.trim answer = names[i] := Text.trim_of_padded padded trimmed
  rw [pickName_of_name (same.symm ▸ other), same, if_pos (List.getElem_mem inside)]

theorem answer_picks_among_three :
    let names := ["2", "alpha", "é b"]
    let world (input : String) : World := { disk := Disk.blank, input := Text.bytes input }
    (∀ name ∈ names, IsSavedName name) ∧ names.length < wordLimit ∧
      ((askName names : StateM World _) (world "  é b\t\r\nyes")).1 = some "é b" ∧
      ((askName names : StateM World _) (world " +03")).1 = some "é b" ∧
      ((askName names : StateM World _) (world "4\n")).1 = none := by
  intro names world
  have inForm : ∀ name ∈ names, Text.Trimmed name ∧ '@' ∉ name.toList ∧ name ≠ "" := by
    decide +kernel
  have saved : ∀ name ∈ names, IsSavedName name := fun name member =>
    isSavedName_iff.mpr (inForm name member)
  have countable : names.length < wordLimit := by decide
  have feed (answer rest : String) (oneLine : '\n' ∉ answer.toList) :
      (world (answer ++ "\n" ++ rest)).Offers answer (Text.bytes rest) := by
    refine ⟨oneLine, .inl ?_⟩
    simp [world, Text.bytes_append, Text.bytes_newLine]
  have other : ∀ n < wordLimit, ¬ IsNumeral "é b" n := readNumber_eq_none_iff.mp (by decide +kernel)
  refine ⟨saved, countable, ?_, ?_, ?_⟩
  · have offers := feed "  é b\t\r" "yes" (by decide)
    obtain ⟨named, -, -⟩ := (answer_picks saved countable offers).1 2 (by decide)
    exact named ⟨"  ", "\t\r", by decide, by decide, rfl⟩ other
  · have offers : (world " +03").Offers " +03" [] :=
      ⟨by decide, .inr ⟨rfl, rfl, by decide⟩⟩
    obtain ⟨-, placed, -⟩ := (answer_picks saved countable offers).1 2 (by decide)
    have numeral : IsNumeral "+03" 3 := ⟨['0', '3'], by decide, by simp, .inr rfl, rfl⟩
    exact placed ⟨"+03", numeral, " ", "", by decide, by decide, rfl⟩
  · have offers := feed "4" "" (by decide)
    have apart : ∀ name ∈ names, Text.Trimmed name ∧ Text.trim "4" ≠ name := by decide +kernel
    have four : readNumber (Text.trim "4") = some 4 := by decide +kernel
    refine (answer_picks saved countable offers).2 ?_ ?_
    · intro name member padded
      exact (apart name member).2 (Text.trim_of_padded padded (apart name member).1)
    · intro i inside place
      have read := readNumber_eq_some_iff.mpr ⟨isPlace_iff.mp place, by omega⟩
      have same : 4 = i + 1 := Option.some.inj (four.symm.trans read)
      have three : i < 3 := inside
      omega

-- A name that is a number gives way to the place, and a name of two lines is no answer.
theorem name_gives_way_to_place :
    let names := ["2", "alpha"]
    let world : World := { disk := Disk.blank, input := Text.bytes "2\n" }
    let split : World := { disk := Disk.blank, input := Text.bytes "a\nb\n" }
    "2" < "alpha" ∧ (∀ name ∈ "a\nb" :: names, IsSavedName name) ∧
      ((askName names : StateM World _) world).1 = some "alpha" ∧
      ((askName ["a\nb"] : StateM World _) split).1 = none := by
  have inForm : ∀ name ∈ ["a\nb", "2", "alpha"],
      Text.Trimmed name ∧ '@' ∉ name.toList ∧ name ≠ "" := by
    decide +kernel
  refine ⟨by decide, fun name member => isSavedName_iff.mpr (inForm name member), ?_, ?_⟩
  · have offers : World.Offers { disk := Disk.blank, input := Text.bytes "2\n" } "2" [] :=
      ⟨by decide, .inl (by decide +kernel)⟩
    rw [askName_of_offers offers]
    decide +kernel
  · have offers : World.Offers { disk := Disk.blank, input := Text.bytes "a\nb\n" } "a"
        (Text.bytes "b\n") := ⟨by decide, .inl (by decide +kernel)⟩
    rw [askName_of_offers offers]
    decide +kernel

end Answers

end CommandLine

end Scaffold
