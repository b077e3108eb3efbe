/-!
Paths as texts with `/` between their steps, their normal form, and the locations below a root that
they name. `Path.normalize` resolves `.` and `..` on the text alone; a `..` with nothing left to
take back does nothing.
-/
namespace Scaffold

structure Path where
  rooted : Bool
  segments : List String
  deriving DecidableEq, Repr

namespace Path

def isRooted (text : String) : Bool := text.toList.head? = some '/'

/-- The non-empty stretches of a text between its separators. -/
def pieces (text : String) : List String :=
  ((text.toList.splitOn '/').filter (· ≠ [])).map String.ofList

/-- The steps of a text as they stand, `..` included; `.` is no step. -/
def parse (text : String) : Path :=
  ⟨isRooted text, (pieces text).filter (· ≠ ".")⟩

def text (p : Path) : String :=
  (if p.rooted then "/" else "") ++ "/".intercalate p.segments

def climb (done : List String) (step : String) : List String :=
  if step = ".." then done.dropLast else done ++ [step]

def normalize (text : String) : Path :=
  let steps := parse text
  ⟨steps.rooted, steps.segments.foldl climb []⟩

/-- `next` as seen from `base`; a rooted `next` stands for itself. -/
def join (base next : String) : String :=
  if isRooted next || base = "" then next
  else if base.toList.getLast? = some '/' then base ++ next
  else base ++ "/" ++ next

/-- A path and those above it, from the stretches between its separators with the last in front. An
empty stretch is no step, nor is a `.` that something stands before. -/
def textsOfStretches : List String → List String
  | [] => []
  | last :: above =>
    if last = "" ∨ last = "." ∧ above ≠ [] then textsOfStretches above
    else "/".intercalate (last :: above).reverse :: textsOfStretches above

/-- A path in front of those above it, the root left out. Each is the text up to the end of a step,
as it is written. -/
def ancestors (text : String) : List String :=
  textsOfStretches ((text.toList.splitOn '/').map String.ofList).reverse

def parent? (p : Path) : Option Path :=
  if p.segments = [] then none else some { p with segments := p.segments.dropLast }

/-- The last step, unless it climbs. -/
def name? (p : Path) : Option String :=
  p.segments.getLast?.filter (· ≠ "..")

end Path

/-- The steps from a root down to an entry; the root itself is `[]`. -/
abbrev Location := List String

/-- The first step that differs decides, and a location comes before those below it. -/
instance (priority := 2000) : LE Location := List.instLE

instance (priority := 2000) : Std.LawfulOrderLT Location :=
  inferInstanceAs (Std.LawfulOrderLT (List String))

instance (priority := 2000) : Std.IsLinearOrder Location :=
  inferInstanceAs (Std.IsLinearOrder (List String))

namespace Location

def text (place : Location) : String := Path.text ⟨true, place⟩

def parent? (place : Location) : Option Location :=
  if place = [] then none else some place.dropLast

def ofText (path : String) : Location := (Path.normalize (Path.join "/" path)).segments

def ofSegments (path : String) : Location :=
  (Path.normalize ((Path.pieces path).foldl Path.join "/")).segments

end Location
end Scaffold
