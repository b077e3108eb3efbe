import Scaffold.Json
import Scaffold.Text.Numeral

namespace Scaffold.Json

def isSpace (c : Char) : Bool := c = ' ' || c = '\n' || c = '\t' || c = '\r'

def skipSpace (cs : List Char) : List Char := cs.dropWhile isSpace

/-- What a text between quotes is made of: characters, and numbered halves or wholes of them. -/
inductive Piece
  | char (c : Char)
  | unit (n : Nat)
  deriving Repr

def escape? : Char → Option Char
  | '\x22' => some '\x22'
  | '\\' => some '\\'
  | '/' => some '/'
  | 'b' => some '\x08'
  | 'f' => some '\x0c'
  | 'n' => some '\n'
  | 'r' => some '\r'
  | 't' => some '\t'
  | _ => none

def scanText : List Char → Option (List Piece × List Char)
  | [] => none
  | '\x22' :: rest => some ([], rest)
  | '\\' :: 'u' :: a :: b :: c :: d :: rest => do
    let n ← Text.hexNumber? [a, b, c, d]
    let (pieces, rest) ← scanText rest
    return (.unit n :: pieces, rest)
  | '\\' :: c :: rest => do
    let plain ← escape? c
    let (pieces, rest) ← scanText rest
    return (.char plain :: pieces, rest)
  | c :: rest =>
    if c.toNat < 0x20 || c = '\\' then none
    else do
      let (pieces, rest) ← scanText rest
      return (.char c :: pieces, rest)

def joined (high low : Nat) : Char :=
  Char.ofNat (0x10000 + (high - 0xd800) * 0x400 + (low - 0xdc00))

/-- A high half joins the low half right after it; a half that stands alone is no text. -/
def joinHalves : List Piece → Option (List Char)
  | [] => some []
  | .char c :: pieces => (joinHalves pieces).map (c :: ·)
  | .unit n :: pieces =>
    if n < 0xd800 ∨ 0xdfff < n then (joinHalves pieces).map (Char.ofNat n :: ·)
    else if 0xdc00 ≤ n then none
    else match pieces with
      | .unit low :: pieces =>
        if 0xdc00 ≤ low ∧ low ≤ 0xdfff then (joinHalves pieces).map (joined n low :: ·) else none
      | _ => none

def textOf (pieces : List Piece) : Option String := (joinHalves pieces).map String.ofList

def digits (cs : List Char) : List Char × List Char :=
  (cs.takeWhile Char.isDigit, cs.dropWhile Char.isDigit)

def scanWhole (cs : List Char) : Option (List Char × List Char) :=
  match cs with
  | '0' :: rest => if (rest.head?.any Char.isDigit) then none else some (['0'], rest)
  | cs => match digits cs with
    | ([], _) => none
    | found => some found

def scanFraction (cs : List Char) : Option (List Char × List Char) :=
  match cs with
  | '.' :: rest => match digits rest with
    | ([], _) => none
    | (found, rest) => some ('.' :: found, rest)
  | cs => some ([], cs)

def scanExponent (cs : List Char) : Option (List Char × List Char) :=
  match cs with
  | e :: rest =>
    if e = 'e' ∨ e = 'E' then
      let (sign, rest) := match rest with
        | s :: after => if s = '+' ∨ s = '-' then ([s], after) else ([], rest)
        | [] => ([], [])
      match digits rest with
      | ([], _) => none
      | (found, rest) => some (e :: sign ++ found, rest)
    else some ([], cs)
  | [] => some ([], [])

def scanNumber (cs : List Char) : Option (String × List Char) := do
  let (sign, rest) := match cs with
    | '-' :: rest => (['-'], rest)
    | cs => ([], cs)
  let (whole, rest) ← scanWhole rest
  let (fraction, rest) ← scanFraction rest
  let (exponent, rest) ← scanExponent rest
  return (String.ofList (sign ++ whole ++ fraction ++ exponent), rest)

mutual

/-- One value after blanks; `fuel` bounds the steps, of which a text of `n` characters takes at most
`2 * n`. -/
def value (fuel : Nat) (cs : List Char) : Option (Json × List Char) :=
  match fuel with
  | 0 => none
  | fuel + 1 =>
    match skipSpace cs with
    | 'n' :: 'u' :: 'l' :: 'l' :: rest => some (null, rest)
    | 't' :: 'r' :: 'u' :: 'e' :: rest => some (bool true, rest)
    | 'f' :: 'a' :: 'l' :: 's' :: 'e' :: rest => some (bool false, rest)
    | '\x22' :: rest => (scanText rest).map fun (pieces, rest) => (string (textOf pieces), rest)
    | '[' :: rest =>
      match skipSpace rest with
      | ']' :: rest => some (array [], rest)
      | rest => (items fuel rest).map fun (found, rest) => (array found, rest)
    | '{' :: rest =>
      match skipSpace rest with
      | '}' :: rest => some (object [], rest)
      | rest => (fields fuel rest).map fun (found, rest) => (object found, rest)
    | rest => (scanNumber rest).map fun (literal, rest) => (number literal, rest)

def items (fuel : Nat) (cs : List Char) : Option (List Json × List Char) :=
  match fuel with
  | 0 => none
  | fuel + 1 =>
    match value fuel cs with
    | none => none
    | some (item, rest) =>
      match skipSpace rest with
      | ',' :: rest => (items fuel rest).map fun (found, rest) => (item :: found, rest)
      | ']' :: rest => some ([item], rest)
      | _ => none

def fields (fuel : Nat) (cs : List Char) : Option (List (Option String × Json) × List Char) :=
  match fuel with
  | 0 => none
  | fuel + 1 =>
    match skipSpace cs with
    | '\x22' :: rest =>
      match scanText rest with
      | none => none
      | some (key, rest) =>
        match skipSpace rest with
        | ':' :: rest =>
          match value fuel rest with
          | none => none
          | some (item, rest) =>
            match skipSpace rest with
            | ',' :: rest =>
              (fields fuel rest).map fun (found, rest) => ((textOf key, item) :: found, rest)
            | '}' :: rest => some ([(textOf key, item)], rest)
            | _ => none
        | _ => none
    | _ => none

end

def parse (text : String) : Option Json :=
  let cs := text.toList
  match value (2 * cs.length + 2) cs with
  | some (found, rest) => if skipSpace rest = [] then some found else none
  | none => none

end Scaffold.Json
