import Scaffold.Toml.Moment

/-!
The part of TOML that settings are written in: tables, dotted keys, texts, dates and times, and
inline tables of them. A text with a value of any other kind has no reading here.
-/
namespace Scaffold.Toml

inductive Value
  | text (text : String)
  | moment (moment : Moment)
  | table (fields : List (List String × Value))
  deriving Repr

inductive Statement
  /-- The table that the lines after it belong to. -/
  | header (key : List String)
  | assign (key : List String) (value : Value)
  deriving Repr

def isBlank (c : Char) : Bool := c = ' ' || c = '\t'

def skipBlanks (cs : List Char) : List Char := cs.dropWhile isBlank

def isPrintable (c : Char) : Bool := c = '\t' || (0x20 ≤ c.toNat && c.toNat ≠ 0x7f)

def afterNewLine? : List Char → Option (List Char)
  | '\n' :: rest => some rest
  | '\r' :: '\n' :: rest => some rest
  | _ => none

def afterLineEnd? (cs : List Char) : Option (List Char) :=
  let rest := match skipBlanks cs with
    | '#' :: comment => comment.dropWhile isPrintable
    | rest => rest
  if rest = [] then some [] else afterNewLine? rest

def readNumbered (width : Nat) (cs : List Char) : Option (Char × List Char) := do
  if cs.length < width then none
  let n ← Text.hexNumber? (cs.take width)
  if n < 0xd800 ∨ (0xdfff < n ∧ n < 0x110000) then some (Char.ofNat n, cs.drop width) else none

def readEscape : List Char → Option (Char × List Char)
  | 'b' :: rest => some ('\x08', rest)
  | 't' :: rest => some ('\t', rest)
  | 'n' :: rest => some ('\n', rest)
  | 'f' :: rest => some ('\x0c', rest)
  | 'r' :: rest => some ('\r', rest)
  | '\x22' :: rest => some ('\x22', rest)
  | '\\' :: rest => some ('\\', rest)
  | 'u' :: rest => readNumbered 4 rest
  | 'U' :: rest => readNumbered 8 rest
  | _ => none

def readBasic (fuel : Nat) (cs : List Char) : Option (List Char × List Char) :=
  match fuel, cs with
  | _ + 1, '\x22' :: rest => some ([], rest)
  | fuel + 1, '\\' :: rest => do
    let (c, rest) ← readEscape rest
    let (text, rest) ← readBasic fuel rest
    return (c :: text, rest)
  | fuel + 1, c :: rest =>
    if isPrintable c then do
      let (text, rest) ← readBasic fuel rest
      return (c :: text, rest)
    else none
  | _, _ => none

def readLiteral : List Char → Option (List Char × List Char)
  | '\x27' :: rest => some ([], rest)
  | c :: rest =>
    if isPrintable c then (readLiteral rest).map fun (text, rest) => (c :: text, rest) else none
  | [] => none

/-- Up to two of the quotes that end a long text belong to it. -/
def closeLong (quote : Char) (cs : List Char) : Option (List Char × List Char) :=
  let count := (cs.takeWhile (· = quote)).length
  if 3 ≤ count ∧ count ≤ 5 then some (List.replicate (count - 3) quote, cs.drop count) else none

/-- After blanks, an end of line, and all blanks and ends of line that follow. -/
def afterBrokenLine? (cs : List Char) : Option (List Char) :=
  (afterNewLine? (skipBlanks cs)).map fun rest => skip rest.length rest
where
  skip : Nat → List Char → List Char
    | fuel + 1, cs => match afterNewLine? (skipBlanks cs) with
      | some rest => skip fuel rest
      | none => skipBlanks cs
    | 0, cs => cs

/-- The rest of a text between three quotes of a kind. It may run over lines, whose ends become
line feeds; between double quotes a backslash escapes, also the end of a line. -/
def readLong (quote : Char) (escapes : Bool) (fuel : Nat) (cs : List Char) :
    Option (List Char × List Char) :=
  match fuel, cs with
  | fuel + 1, c :: rest =>
    if c = quote then
      if (rest.takeWhile (· = quote)).length < 2 then do
        let (text, rest) ← readLong quote escapes fuel rest
        return (quote :: text, rest)
      else closeLong quote (c :: rest)
    else if escapes ∧ c = '\\' then
      match afterBrokenLine? rest with
      | some rest => readLong quote escapes fuel rest
      | none => do
        let (c, rest) ← readEscape rest
        let (text, rest) ← readLong quote escapes fuel rest
        return (c :: text, rest)
    else
      match afterNewLine? (c :: rest) with
      | some rest => (readLong quote escapes fuel rest).map fun (text, rest) => ('\n' :: text, rest)
      | none =>
        if isPrintable c then
          (readLong quote escapes fuel rest).map fun (text, rest) => (c :: text, rest)
        else none
  | _, _ => none

/-- A line end right after the opening quotes is not part of the text. -/
def readLongAfterQuotes (quote : Char) (escapes : Bool) (cs : List Char) :
    Option (List Char × List Char) :=
  let cs := (afterNewLine? cs).getD cs
  readLong quote escapes (cs.length + 1) cs

def readShortText : List Char → Option (String × List Char)
  | '\x22' :: rest => (readBasic (rest.length + 1) rest).map fun (text, rest) =>
      (String.ofList text, rest)
  | '\x27' :: rest => (readLiteral rest).map fun (text, rest) => (String.ofList text, rest)
  | _ => none

def readText : List Char → Option (String × List Char)
  | '\x22' :: '\x22' :: '\x22' :: rest =>
    (readLongAfterQuotes '\x22' true rest).map fun (text, rest) => (String.ofList text, rest)
  | '\x27' :: '\x27' :: '\x27' :: rest =>
    (readLongAfterQuotes '\x27' false rest).map fun (text, rest) => (String.ofList text, rest)
  | cs => readShortText cs

def isBare (c : Char) : Bool := c.isAlphanum || c = '-' || c = '_'

def readSimpleKey (cs : List Char) : Option (String × List Char) :=
  match cs.takeWhile isBare with
  | [] => readShortText cs
  | key => some (String.ofList key, cs.dropWhile isBare)

def readKey (fuel : Nat) (cs : List Char) : Option (List String × List Char) :=
  match fuel with
  | 0 => none
  | fuel + 1 => do
    let (key, rest) ← readSimpleKey (skipBlanks cs)
    match skipBlanks rest with
    | '.' :: rest => do
      let (keys, rest) ← readKey fuel rest
      return (key :: keys, rest)
    | rest => return ([key], rest)

mutual

def readValue (fuel : Nat) (cs : List Char) : Option (Value × List Char) :=
  match fuel with
  | 0 => none
  | fuel + 1 =>
    match cs with
    | '{' :: rest =>
      match skipBlanks rest with
      | '}' :: rest => some (.table [], rest)
      | _ => (readFields fuel rest).map fun (fields, rest) => (.table fields, rest)
    | cs =>
      match readText cs with
      | some (text, rest) => some (.text text, rest)
      | none => (readMoment cs).map fun (moment, rest) => (.moment moment, rest)

def readFields (fuel : Nat) (cs : List Char) :
    Option (List (List String × Value) × List Char) :=
  match fuel with
  | 0 => none
  | fuel + 1 =>
    match readKey (fuel + 1) cs with
    | some (key, '=' :: rest) =>
      match readValue fuel (skipBlanks rest) with
      | none => none
      | some (value, rest) =>
        match skipBlanks rest with
        | '}' :: rest => some ([(key, value)], rest)
        | ',' :: rest =>
          (readFields fuel rest).map fun (fields, rest) => ((key, value) :: fields, rest)
        | _ => none
    | _ => none

end

def readLine (cs : List Char) : Option (List Statement × List Char) := do
  let fuel := 2 * cs.length + 2
  match skipBlanks cs with
  | [] => return ([], [])
  | '#' :: rest => return ([], ← afterLineEnd? ('#' :: rest))
  | '[' :: rest => do
    match ← readKey fuel rest with
    | (key, ']' :: rest) => return ([.header key], ← afterLineEnd? rest)
    | _ => none
  | c :: rest =>
    match afterNewLine? (c :: rest) with
    | some rest => return ([], rest)
    | none =>
      match ← readKey fuel (c :: rest) with
      | (key, '=' :: rest) =>
        let (value, rest) ← readValue fuel (skipBlanks rest)
        return ([.assign key value], ← afterLineEnd? rest)
      | _ => none

def readLines (fuel : Nat) (cs : List Char) : Option (List Statement) :=
  match fuel, cs with
  | _, [] => some []
  | 0, _ => none
  | fuel + 1, cs => do
    let (found, rest) ← readLine cs
    return found ++ (← readLines fuel rest)

def parse (text : String) : Option (List Statement) :=
  let cs := match text.toList with
    | '\ufeff' :: rest => rest
    | cs => cs
  readLines (cs.length + 1) cs

end Scaffold.Toml
