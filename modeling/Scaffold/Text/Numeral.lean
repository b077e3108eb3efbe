namespace Scaffold.Text

def ofDigits (base : Nat) (digits : List Nat) : Nat :=
  digits.foldl (fun n digit => base * n + digit) 0

def hexDigit? (c : Char) : Option Nat :=
  if '0' ≤ c ∧ c ≤ '9' then some (c.toNat - '0'.toNat)
  else if 'a' ≤ c ∧ c ≤ 'f' then some (c.toNat - 'a'.toNat + 10)
  else if 'A' ≤ c ∧ c ≤ 'F' then some (c.toNat - 'A'.toNat + 10)
  else none

def hexNumber? (digits : List Char) : Option Nat := (digits.mapM hexDigit?).map (ofDigits 16)

/-- A decimal number has at least one digit. -/
def decimalNumber? (digits : List Char) : Option Nat :=
  if digits = [] || !digits.all Char.isDigit then none
  else some (ofDigits 10 (digits.map fun digit => digit.toNat - '0'.toNat))

def paddedNumber (width n : Nat) : String :=
  let digits := Nat.toDigits 10 n
  String.ofList (List.replicate (width - digits.length) '0' ++ digits)

end Scaffold.Text
