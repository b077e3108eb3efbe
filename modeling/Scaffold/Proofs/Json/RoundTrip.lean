import Scaffold.Json.Reader

/-! What is written for a JSON value is read back as that value. `Written` says which texts stand
for a value, with blanks between their parts; each is read as that value (`parse_of_written`), and
the text on one line and that with indents are among them (`parse_compact`, `parse_pretty`). -/

namespace Scaffold.Json

section Quoted

def pieceOf (c : Char) : Piece :=
  if c.toNat < 0x20 ∧ c ∉ ['\x08', '\x0c', '\n', '\r', '\t'] then .unit c.toNat else .char c

theorem hexNumber?_control {n : Nat} (small : n < 0x20) :
    Text.hexNumber? ['0', '0', (n / 16).digitChar, (n % 16).digitChar] = some n := by
  revert n
  decide

theorem scanText_plain {c : Char} (quote : c ≠ '\x22') (slash : c ≠ '\\') (shown : ¬ c.toNat < 0x20)
    (rest : List Char) : scanText (c :: rest) =
      (scanText rest).map fun found => (.char c :: found.1, found.2) := by
  rw [scanText]
  · simp only [slash, shown, decide_false, Bool.or_false, Bool.false_eq_true, ↓reduceIte]
    cases scanText rest <;> rfl
  all_goals simp_all

theorem scanText_short {letter plain : Char} (known : escape? letter = some plain)
    (rest : List Char) : scanText ('\\' :: letter :: rest) =
      (scanText rest).map fun found => (.char plain :: found.1, found.2) := by
  have apart : letter ≠ 'u' := by
    rintro rfl
    cases known
  rw [scanText]
  · rw [known]
    cases scanText rest <;> rfl
  · exact fun _ _ _ _ _ same _ => apart same

theorem scanText_escaped (c : Char) (rest : List Char) :
    scanText (escapedChar c ++ rest) =
      (scanText rest).map fun found => (pieceOf c :: found.1, found.2) := by
  unfold escapedChar
  split
  case h_8 quote slash backspace feed line back tab =>
    split
    next control =>
      have number := hexNumber?_control control
      have named : pieceOf c = .unit c.toNat := by
        have others : c ∉ ['\x08', '\x0c', '\n', '\r', '\t'] := by
          simpa using ⟨backspace, feed, line, back, tab⟩
        exact if_pos ⟨control, others⟩
      simp only [List.cons_append, List.nil_append, scanText, number, named]
      cases scanText rest <;> rfl
    next shown =>
      have named : pieceOf c = .char c := if_neg fun both => shown both.1
      rw [named]
      exact scanText_plain quote slash shown rest
  all_goals exact scanText_short rfl rest

theorem scanText_quoted (cs rest : List Char) :
    scanText (cs.flatMap escapedChar ++ '\x22' :: rest) = some (cs.map pieceOf, rest) := by
  induction cs with
  | nil => rfl
  | cons c cs ih => rw [List.flatMap_cons, List.append_assoc, scanText_escaped, ih]; rfl

theorem joinHalves_pieces (cs : List Char) : joinHalves (cs.map pieceOf) = some cs := by
  induction cs with
  | nil => rfl
  | cons c cs ih =>
    rw [List.map_cons, pieceOf]
    split
    next control =>
      have whole : c.toNat < 0xd800 := Nat.lt_trans control.1 (by decide)
      rw [joinHalves.eq_def]
      simp only [whole, true_or, ↓reduceIte, ih, Char.ofNat_toNat, Option.map_some]
    next => rw [joinHalves, ih]; rfl

theorem textOf_pieces (text : String) : textOf (text.toList.map pieceOf) = some text := by
  rw [textOf, joinHalves_pieces, Option.map_some, String.ofList_toList]

end Quoted

inductive Part
  | value (json : Json)
  | items (items : List Json)
  | fields (fields : List (Option String × Json))

def Blank (cs : List Char) : Prop := ∀ c ∈ cs, isSpace c = true

/-- The texts for a part. Blanks may stand behind an opening bracket, a comma or a colon and before
a closing bracket; numbers and texts with half a character are left out. -/
inductive Written : Part → List Char → Prop
  | null : Written (.value .null) ['n', 'u', 'l', 'l']
  | yes : Written (.value (.bool true)) ['t', 'r', 'u', 'e']
  | no : Written (.value (.bool false)) ['f', 'a', 'l', 's', 'e']
  | string (text : String) : Written (.value (.string (some text))) (quotedChars text.toList)
  | emptyArray : Written (.value (.array [])) ['[', ']']
  | array {items : List Json} {cs first last : List Char} (inside : Written (.items items) cs)
      (opened : Blank first) (closed : Blank last) :
      Written (.value (.array items)) ('[' :: first ++ cs ++ last ++ [']'])
  | emptyObject : Written (.value (.object [])) ['{', '}']
  | object {fields : List (Option String × Json)} {cs first last : List Char}
      (inside : Written (.fields fields) cs) (opened : Blank first) (closed : Blank last) :
      Written (.value (.object fields)) ('{' :: first ++ cs ++ last ++ ['}'])
  | item {json : Json} {cs : List Char} (value : Written (.value json) cs) :
      Written (.items [json]) cs
  | moreItems {json : Json} {items : List Json} {cs rest blank : List Char}
      (value : Written (.value json) cs) (between : Blank blank)
      (more : Written (.items items) rest) :
      Written (.items (json :: items)) (cs ++ ',' :: blank ++ rest)
  | field (key : String) {json : Json} {cs blank : List Char} (between : Blank blank)
      (value : Written (.value json) cs) :
      Written (.fields [(some key, json)]) (quotedChars key.toList ++ ':' :: blank ++ cs)
  | moreFields (key : String) {json : Json} {fields : List (Option String × Json)}
      {cs rest inner blank : List Char} (after : Blank inner) (value : Written (.value json) cs)
      (between : Blank blank) (more : Written (.fields fields) rest) :
      Written (.fields ((some key, json) :: fields))
        (quotedChars key.toList ++ ':' :: inner ++ cs ++ ',' :: blank ++ rest)

section Reading

theorem skipSpace_append {blank : List Char} (blanks : Blank blank) (rest : List Char) :
    skipSpace (blank ++ rest) = skipSpace rest := by
  rw [skipSpace, List.dropWhile_append_of_pos blanks, skipSpace]

theorem skipSpace_cons {c : Char} (visible : isSpace c = false) (rest : List Char) :
    skipSpace (c :: rest) = c :: rest := by
  rw [skipSpace, List.dropWhile_cons_of_neg (by simp [visible])]

theorem Written.head {part : Part} {cs : List Char} (written : Written part cs) :
    ∃ c rest, cs = c :: rest ∧ isSpace c = false ∧ c ≠ ']' ∧ c ≠ '}' := by
  induction written with
  | null | yes | no | string | emptyArray | array | emptyObject | object | field | moreFields =>
    exact ⟨_, _, rfl, by decide⟩
  | item _ ih => exact ih
  | moreItems _ _ _ ih =>
    obtain ⟨c, rest, rfl, visible⟩ := ih
    exact ⟨c, _, rfl, visible⟩

theorem value_blank {blank : List Char} (blanks : Blank blank) (fuel : Nat) (cs : List Char) :
    value fuel (blank ++ cs) = value fuel cs := by
  cases fuel with
  | zero => rfl
  | succ fuel => rw [value, value, skipSpace_append blanks]

theorem items_blank {blank : List Char} (blanks : Blank blank) (fuel : Nat) (cs : List Char) :
    items fuel (blank ++ cs) = items fuel cs := by
  cases fuel with
  | zero => rfl
  | succ fuel => rw [items, items, value_blank blanks]

theorem fields_blank {blank : List Char} (blanks : Blank blank) (fuel : Nat) (cs : List Char) :
    fields fuel (blank ++ cs) = fields fuel cs := by
  cases fuel with
  | zero => rfl
  | succ fuel => rw [fields, fields, skipSpace_append blanks]

theorem fields_key (fuel : Nat) (key : String) (cs : List Char) :
    fields (fuel + 1) (quotedChars key.toList ++ ':' :: cs) =
      match value fuel cs with
      | none => none
      | some (item, rest) =>
        match skipSpace rest with
        | ',' :: rest =>
          (fields fuel rest).map fun found => ((some key, item) :: found.1, found.2)
        | '}' :: rest => some ([(some key, item)], rest)
        | _ => none := by
  have split : quotedChars key.toList ++ ':' :: cs =
      '\x22' :: (key.toList.flatMap escapedChar ++ '\x22' :: ':' :: cs) := by
    simp [quotedChars]
  rw [split, fields, skipSpace_cons rfl]
  simp only [scanText_quoted, textOf_pieces]
  rfl

theorem value_text (fuel : Nat) (text : String) (rest : List Char) :
    value (fuel + 1) (quotedChars text.toList ++ rest) = some (.string (some text), rest) := by
  have split : quotedChars text.toList ++ rest =
      '\x22' :: (text.toList.flatMap escapedChar ++ '\x22' :: rest) := by
    simp [quotedChars]
  rw [split, value, skipSpace_cons rfl]
  simp only [scanText_quoted, Option.map_some, textOf_pieces]

def Part.IsReadFrom : Part → List Char → Prop
  | .value json, cs => ∀ fuel rest, 2 * cs.length ≤ fuel →
    Json.value fuel (cs ++ rest) = some (json, rest)
  | .items found, cs => ∀ fuel last rest, 2 * cs.length < fuel → Blank last →
    Json.items fuel (cs ++ last ++ ']' :: rest) = some (found, rest)
  | .fields found, cs => ∀ fuel last rest, 2 * cs.length < fuel → Blank last →
    Json.fields fuel (cs ++ last ++ '}' :: rest) = some (found, rest)

theorem isReadFrom_of_succ {json : Json} {cs : List Char} (filled : cs ≠ [])
    (reads : ∀ fuel rest, 2 * cs.length ≤ fuel + 1 →
      Json.value (fuel + 1) (cs ++ rest) = some (json, rest)) :
    (Part.value json).IsReadFrom cs := by
  intro fuel rest enough
  have some := List.length_pos_iff.mpr filled
  obtain ⟨more, rfl⟩ : ∃ more, fuel = more + 1 := ⟨fuel - 1, by omega⟩
  exact reads more rest enough

theorem value_array {c : Char} (visible : isSpace c = false) (unclosed : c ≠ ']')
    {blank : List Char} (blanks : Blank blank) (fuel : Nat) (cs : List Char) :
    value (fuel + 1) ('[' :: (blank ++ c :: cs)) =
      (items fuel (c :: cs)).map fun found => (.array found.1, found.2) := by
  rw [value, skipSpace_cons rfl]
  simp only [skipSpace_append blanks, skipSpace_cons visible]
  split
  next same => exact absurd (List.cons.inj same).1 unclosed
  next => rfl

theorem value_object {c : Char} (visible : isSpace c = false) (unclosed : c ≠ '}')
    {blank : List Char} (blanks : Blank blank) (fuel : Nat) (cs : List Char) :
    value (fuel + 1) ('{' :: (blank ++ c :: cs)) =
      (fields fuel (c :: cs)).map fun found => (.object found.1, found.2) := by
  rw [value, skipSpace_cons rfl]
  simp only [skipSpace_append blanks, skipSpace_cons visible]
  split
  next same => exact absurd (List.cons.inj same).1 unclosed
  next => rfl

theorem Written.isReadFrom {part : Part} {cs : List Char} (written : Written part cs) :
    part.IsReadFrom cs := by
  induction written with
  | null | yes | no | emptyArray | emptyObject =>
    exact isReadFrom_of_succ (by simp) fun _ _ _ => rfl
  | string text => exact isReadFrom_of_succ (by simp [quotedChars]) fun _ _ _ => value_text _ _ _
  | @array items cs first last inside opened closed ih =>
    refine isReadFrom_of_succ (by simp) fun fuel rest enough => ?_
    have shorter : 2 * cs.length < fuel := by
      simp only [List.length_append, List.length_cons] at enough
      omega
    have within := ih fuel last rest shorter closed
    obtain ⟨c, others, rfl, visible, unclosed, -⟩ := inside.head
    have split : '[' :: first ++ c :: others ++ last ++ [']'] ++ rest =
        '[' :: (first ++ c :: (others ++ last ++ ']' :: rest)) := by simp
    rw [split, value_array visible unclosed opened]
    simp only [List.cons_append] at within
    rw [within]
    rfl
  | @object fields cs first last inside opened closed ih =>
    refine isReadFrom_of_succ (by simp) fun fuel rest enough => ?_
    have shorter : 2 * cs.length < fuel := by
      simp only [List.length_append, List.length_cons] at enough
      omega
    have within := ih fuel last rest shorter closed
    obtain ⟨c, others, rfl, visible, -, unclosed⟩ := inside.head
    have split : '{' :: first ++ c :: others ++ last ++ ['}'] ++ rest =
        '{' :: (first ++ c :: (others ++ last ++ '}' :: rest)) := by simp
    rw [split, value_object visible unclosed opened]
    simp only [List.cons_append] at within
    rw [within]
    rfl
  | @item json cs value ih =>
    rintro (_ | fuel) last rest enough closed
    · cases enough
    rw [items, List.append_assoc, ih fuel _ (by omega)]
    simp only [skipSpace_append closed]
    rfl
  | @moreItems json found cs others blank value between more first later =>
    rintro (_ | fuel) last rest enough closed
    · cases enough
    simp only [List.length_append, List.length_cons] at enough
    have split : cs ++ ',' :: blank ++ others ++ last ++ ']' :: rest =
        cs ++ (',' :: (blank ++ (others ++ last ++ ']' :: rest))) := by simp
    rw [split, items, first fuel _ (by omega)]
    have onward : items fuel (blank ++ (others ++ last ++ ']' :: rest)) = some (found, rest) :=
      (items_blank between fuel _).trans (later fuel last rest (by omega) closed)
    simp only [skipSpace_cons (c := ',') rfl, onward, Option.map_some]
  | @field key json cs blank between value ih =>
    rintro (_ | fuel) last rest enough closed
    · cases enough
    simp only [List.length_append, List.length_cons] at enough
    have split : quotedChars key.toList ++ ':' :: blank ++ cs ++ last ++ '}' :: rest =
        quotedChars key.toList ++ ':' :: (blank ++ (cs ++ (last ++ '}' :: rest))) := by simp
    rw [split, fields_key, value_blank between, ih fuel _ (by omega)]
    simp only [skipSpace_append closed]
    rfl
  | @moreFields key json found cs others inner blank after value between more first later =>
    rintro (_ | fuel) last rest enough closed
    · cases enough
    simp only [List.length_append, List.length_cons] at enough
    have split : quotedChars key.toList ++ ':' :: inner ++ cs ++ ',' :: blank ++ others ++ last ++
        '}' :: rest = quotedChars key.toList ++
          ':' :: (inner ++ (cs ++ ',' :: (blank ++ (others ++ last ++ '}' :: rest)))) := by simp
    have onward : fields fuel (blank ++ (others ++ last ++ '}' :: rest)) = some (found, rest) :=
      (fields_blank between fuel _).trans (later fuel last rest (by omega) closed)
    rw [split, fields_key, value_blank after, first fuel _ (by omega)]
    simp only [skipSpace_cons (c := ',') rfl, onward, Option.map_some]

theorem parse_append_of_written {json : Json} {text blank : String}
    (written : Written (.value json) text.toList) (blanks : Blank blank.toList) :
    parse (text ++ blank) = some json := by
  have read := written.isReadFrom (2 * (text ++ blank).toList.length + 2) blank.toList (by
    rw [String.toList_append, List.length_append]
    omega)
  have skipped : skipSpace blank.toList = [] := by
    simpa [skipSpace] using skipSpace_append blanks []
  rw [← String.toList_append] at read
  simp only [parse, read, skipped, ↓reduceIte]

theorem parse_of_written {json : Json} {text : String}
    (written : Written (.value json) text.toList) : parse text = some json := by
  have none : Blank "".toList := by simp [Blank]
  simpa using parse_append_of_written written none

end Reading

section Writing

/-- No part of the value is a number or a text with half a character. -/
inductive Whole : Json → Prop
  | null : Whole .null
  | bool (value : Bool) : Whole (.bool value)
  | string (text : String) : Whole (.string (some text))
  | array (items : List Json) (each : ∀ item ∈ items, Whole item) : Whole (.array items)
  | object (fields : List (Option String × Json)) (keys : ∀ field ∈ fields, field.1.isSome)
      (each : ∀ field ∈ fields, Whole field.2) : Whole (.object fields)

theorem blank_newLine (level : Nat) : Blank (newLine level) := by
  intro c present
  rcases List.mem_cons.mp present with rfl | present
  · rfl
  · rw [List.eq_of_mem_replicate present]
    rfl

theorem prettyItems_written {level : Nat} {items : List Json} (filled : items ≠ [])
    (each : ∀ item ∈ items, Written (.value item) (prettyChars level item)) :
    ∃ cs, prettyItems level items = newLine level ++ cs ∧ Written (.items items) cs := by
  induction items with
  | nil => exact absurd rfl filled
  | cons item items ih =>
    have first := each item (by simp)
    cases items with
    | nil => exact ⟨_, rfl, .item first⟩
    | cons next items =>
      obtain ⟨cs, split, rest⟩ := ih (by simp) fun other member => each other (by simp [member])
      refine ⟨_, ?_, .moreItems first (blank_newLine level) rest⟩
      rw [prettyItems, split]
      · simp
      · simp

theorem prettyFields_written {level : Nat} {fields : List (Option String × Json)}
    (filled : fields ≠ []) (keys : ∀ field ∈ fields, field.1.isSome)
    (each : ∀ field ∈ fields, Written (.value field.2) (prettyChars level field.2)) :
    ∃ cs, prettyFields level fields = newLine level ++ cs ∧ Written (.fields fields) cs := by
  induction fields with
  | nil => exact absurd rfl filled
  | cons field fields ih =>
    obtain ⟨key, json⟩ := field
    have named : key.isSome := keys (key, json) (by simp)
    have first : Written (.value json) (prettyChars level json) := each (key, json) (by simp)
    obtain ⟨key, rfl⟩ := Option.isSome_iff_exists.mp named
    have space : Blank [' '] := by simp [Blank, isSpace]
    cases fields with
    | nil =>
      refine ⟨_, ?_, .field key space first⟩
      simp [prettyFields, quotedText]
    | cons next fields =>
      obtain ⟨cs, split, rest⟩ := ih (by simp) (fun other member => keys other (by simp [member]))
        fun other member => each other (by simp [member])
      refine ⟨_, ?_, .moreFields key space first (blank_newLine level) rest⟩
      rw [prettyFields, split]
      · simp [quotedText]
      · simp

theorem Whole.written_pretty {json : Json} (whole : Whole json) (level : Nat) :
    Written (.value json) (prettyChars level json) := by
  induction whole generalizing level with
  | null => exact .null
  | bool value =>
    cases value with
    | false => exact .no
    | true => exact .yes
  | string text => exact .string text
  | array items each ih =>
    cases items with
    | nil => exact .emptyArray
    | cons item items =>
      obtain ⟨cs, split, inside⟩ := prettyItems_written (List.cons_ne_nil item items)
        fun other present => ih other present (level + 1)
      rw [prettyChars, split]
      exact .array inside (blank_newLine _) (blank_newLine _)
  | object fields keys each ih =>
    cases fields with
    | nil => exact .emptyObject
    | cons field fields =>
      obtain ⟨cs, split, inside⟩ := prettyFields_written (List.cons_ne_nil field fields) keys
        fun other present => ih other present (level + 1)
      rw [prettyChars, split]
      exact .object inside (blank_newLine _) (blank_newLine _)

theorem compactItems_written {items : List Json} (filled : items ≠ [])
    (each : ∀ item ∈ items, Written (.value item) (compactChars item)) :
    Written (.items items) (compactItems items) := by
  induction items with
  | nil => exact absurd rfl filled
  | cons item items ih =>
    have first := each item (by simp)
    have none : Blank [] := by simp [Blank]
    cases items with
    | nil => exact .item first
    | cons next items =>
      have rest := ih (by simp) fun other member => each other (by simp [member])
      simpa [compactItems] using Written.moreItems first none rest

theorem compactFields_written {fields : List (Option String × Json)} (filled : fields ≠ [])
    (keys : ∀ field ∈ fields, field.1.isSome)
    (each : ∀ field ∈ fields, Written (.value field.2) (compactChars field.2)) :
    Written (.fields fields) (compactFields fields) := by
  induction fields with
  | nil => exact absurd rfl filled
  | cons field fields ih =>
    obtain ⟨key, json⟩ := field
    have named : key.isSome := keys (key, json) (by simp)
    have first : Written (.value json) (compactChars json) := each (key, json) (by simp)
    obtain ⟨key, rfl⟩ := Option.isSome_iff_exists.mp named
    have none : Blank [] := by simp [Blank]
    cases fields with
    | nil => simpa [compactFields, quotedText] using Written.field key none first
    | cons next fields =>
      have rest := ih (by simp) (fun other member => keys other (by simp [member]))
        fun other member => each other (by simp [member])
      simpa [compactFields, quotedText] using Written.moreFields key none first none rest

theorem Whole.written_compact {json : Json} (whole : Whole json) :
    Written (.value json) (compactChars json) := by
  have none : Blank [] := by simp [Blank]
  induction whole with
  | null => exact .null
  | bool value =>
    cases value with
    | false => exact .no
    | true => exact .yes
  | string text => exact .string text
  | array items each ih =>
    cases items with
    | nil => exact .emptyArray
    | cons item items =>
      have inside := compactItems_written (List.cons_ne_nil item items) ih
      simpa [compactChars] using Written.array inside none none
  | object fields keys each ih =>
    cases fields with
    | nil => exact .emptyObject
    | cons field fields =>
      have inside := compactFields_written (List.cons_ne_nil field fields) keys ih
      simpa [compactChars] using Written.object inside none none

theorem parse_compact {json : Json} (whole : Whole json) : parse json.compact = some json := by
  apply parse_of_written
  rw [compact, String.toList_ofList]
  exact whole.written_compact

theorem parse_pretty_append {json : Json} (whole : Whole json) {blank : String}
    (blanks : Blank blank.toList) : parse (json.pretty ++ blank) = some json := by
  refine parse_append_of_written ?_ blanks
  rw [pretty, String.toList_ofList]
  exact whole.written_pretty 0

theorem parse_pretty {json : Json} (whole : Whole json) : parse json.pretty = some json := by
  have none : Blank "".toList := by simp [Blank]
  simpa using parse_pretty_append whole none

end Writing

end Scaffold.Json
