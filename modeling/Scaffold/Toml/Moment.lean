import Scaffold.Text.Numeral

namespace Scaffold.Toml

structure Date where
  year : Nat
  month : Nat
  day : Nat
  deriving DecidableEq, Repr

structure Time where
  hour : Nat
  minute : Nat
  second : Nat
  nanosecond : Nat
  deriving DecidableEq, Repr

inductive Offset
  | universal
  | minutes (distance : Int)
  deriving DecidableEq, Repr

inductive Moment
  | date (day : Date)
  | time (clock : Time)
  | dateTime (day : Date) (clock : Time) (offset : Option Offset)
  deriving DecidableEq, Repr

def isLeapYear (year : Nat) : Bool :=
  year % 4 = 0 && (year % 100 ≠ 0 || year % 400 = 0)

def daysInMonth (year month : Nat) : Nat :=
  if month = 2 then if isLeapYear year then 29 else 28
  else if month ∈ [4, 6, 9, 11] then 30
  else 31

def skipChar (c : Char) : List Char → Option (List Char)
  | first :: rest => if first = c then some rest else none
  | [] => none

def readField (width least most : Nat) (cs : List Char) : Option (Nat × List Char) := do
  let digits := cs.take width
  let n ← Text.decimalNumber? digits
  if digits.length = width ∧ least ≤ n ∧ n ≤ most then some (n, cs.drop width) else none

def readDate (cs : List Char) : Option (Date × List Char) := do
  let (year, cs) ← readField 4 0 9999 cs
  let (month, cs) ← readField 2 1 12 (← skipChar '-' cs)
  let (day, cs) ← readField 2 1 (daysInMonth year month) (← skipChar '-' cs)
  return (⟨year, month, day⟩, cs)

/-- How many digits of a fraction of a second count. -/
def fractionDigits : Nat := 9

/-- A fraction of a second in nanoseconds; further digits are left out. -/
def readFraction (cs : List Char) : Option (Nat × List Char) := do
  let cs ← skipChar '.' cs
  match cs.takeWhile Char.isDigit with
  | [] => none
  | digits =>
    let n ← Text.decimalNumber? ((digits ++ List.replicate fractionDigits '0').take fractionDigits)
    return (n, cs.dropWhile Char.isDigit)

/-- The second 60 is one that is put in. -/
def readTime (cs : List Char) : Option (Time × List Char) := do
  let (hour, cs) ← readField 2 0 23 cs
  let (minute, cs) ← readField 2 0 59 (← skipChar ':' cs)
  let (second, cs) ← readField 2 0 60 (← skipChar ':' cs)
  let (nanosecond, cs) := (readFraction cs).getD (0, cs)
  return (⟨hour, minute, second, nanosecond⟩, cs)

def readOffset : List Char → Option (Offset × List Char)
  | [] => none
  | sign :: cs =>
    if sign = 'Z' ∨ sign = 'z' then some (.universal, cs)
    else if sign = '+' ∨ sign = '-' then do
      let (hours, cs) ← readField 2 0 23 cs
      let (minutes, cs) ← readField 2 0 59 (← skipChar ':' cs)
      let distance : Int := 60 * hours + minutes
      return (.minutes (if sign = '-' then -distance else distance), cs)
    else none

def readMoment (cs : List Char) : Option (Moment × List Char) :=
  match readDate cs with
  | none => (readTime cs).map fun (time, rest) => (.time time, rest)
  | some (date, []) => some (.date date, [])
  | some (date, between :: after) =>
    if between = 'T' ∨ between = 't' ∨ between = ' ' then
      match readTime after with
      | none => some (.date date, between :: after)
      | some (time, rest) =>
        match readOffset rest with
        | none => some (.dateTime date time none, rest)
        | some (offset, rest) => some (.dateTime date time (some offset), rest)
    else some (.date date, between :: after)

def Date.text (date : Date) : String :=
  Text.paddedNumber 4 date.year ++ "-" ++ Text.paddedNumber 2 date.month ++ "-" ++
    Text.paddedNumber 2 date.day

def Time.fractionText (time : Time) : String :=
  if time.nanosecond = 0 then ""
  else
    let digits := (Text.paddedNumber fractionDigits time.nanosecond).toList
    "." ++ String.ofList (digits.reverse.dropWhile (· = '0')).reverse

def Time.text (time : Time) : String :=
  Text.paddedNumber 2 time.hour ++ ":" ++ Text.paddedNumber 2 time.minute ++ ":" ++
    Text.paddedNumber 2 time.second ++ time.fractionText

def Offset.text : Offset → String
  | universal => "Z"
  | minutes distance =>
    (if distance < 0 then "-" else "+") ++ Text.paddedNumber 2 (distance.natAbs / 60) ++ ":" ++
      Text.paddedNumber 2 (distance.natAbs % 60)

def Moment.text : Moment → String
  | date day => day.text
  | time clock => clock.text
  | dateTime day clock offset =>
    day.text ++ "T" ++ clock.text ++ (offset.map Offset.text).getD ""

end Scaffold.Toml
