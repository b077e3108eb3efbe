namespace Scaffold.Text

def after? : List Char → List Char → Option (List Char)
  | [], cs => some cs
  | _ :: _, [] => none
  | p :: start, c :: cs => if p = c then after? start cs else none

theorem after?_eq_some_iff {start cs rest : List Char} :
    after? start cs = some rest ↔ cs = start ++ rest := by
  induction start generalizing cs with
  | nil => simp [after?]
  | cons p start ih =>
    cases cs with
    | nil => simp [after?]
    | cons c cs =>
      by_cases same : p = c
      · simp [after?, same, ih]
      · simp [after?, same, Ne.symm same]

def splitOnce (separator : Char) : List Char → Option (List Char × List Char)
  | [] => none
  | c :: cs =>
    if c = separator then some ([], cs)
    else (splitOnce separator cs).map fun sides => (c :: sides.1, sides.2)

/-- Every occurrence of `pattern`, found from left to right without overlap, gives way to
`replacement`; what was put in is not searched. -/
def replaceAll (pattern replacement : List Char) (cs : List Char) : List Char :=
  match cs with
  | [] => []
  | c :: rest =>
    match _found : after? pattern (c :: rest) with
    | some remaining =>
      if pattern = [] then c :: replaceAll pattern replacement rest
      else replacement ++ replaceAll pattern replacement remaining
    | none => c :: replaceAll pattern replacement rest
termination_by cs.length
decreasing_by
  · simp
  · have lengths := congrArg List.length (after?_eq_some_iff.mp ‹_›)
    have : 0 < pattern.length := List.length_pos_iff.mpr (by assumption)
    simp only [List.length_cons, List.length_append] at lengths ⊢
    omega
  · simp

def withoutEnding? (ending : List Char) (cs : List Char) : Option (List Char) :=
  (after? ending.reverse cs.reverse).map List.reverse

def withoutLineEnd (line : String) : String :=
  String.ofList (line.toList.reverse.dropWhile fun c => c = '\r' || c = '\n').reverse

end Scaffold.Text
