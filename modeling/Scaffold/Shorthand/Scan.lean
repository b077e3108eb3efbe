import Scaffold.Path
import Scaffold.Shorthand.Token
import Scaffold.Text.Blank

namespace Scaffold.Token

def isSpace (c : Char) : Bool := Text.isBlank c || c = '\ufeff'

def marker? : Char → Option Token
  | '[' => some openBracket
  | ']' => some closeBracket
  | '<' => some less
  | '&' => some ampersand
  | ';' => some semicolon
  | _ => none

def isDelimiter (c : Char) : Bool := isSpace c || (marker? c).isSome

/-- A slash begins a path, so it ends a bare name too. -/
def endsName (c : Char) : Bool := isDelimiter c || c = '/'

/-- The token of a run that follows a slash; the last part is a file when it has a dot. -/
def ofRun (run : List Char) : List Token :=
  let parts := Path.pieces (String.ofList run)
  match parts.getLast? with
  | none => []
  | some last => [path parts (last.toList.contains '.')]

theorem length_dropWhile_le (stays : Char → Bool) (cs : List Char) :
    (cs.dropWhile stays).length ≤ cs.length :=
  (List.dropWhile_suffix stays).length_le

def scan : List Char → List Token
  | [] => []
  | c :: cs =>
    if isSpace c then scan cs
    else match marker? c with
      | some token => token :: scan cs
      | none =>
        if c = '/' then
          ofRun (cs.takeWhile (!isDelimiter ·)) ++ scan (cs.dropWhile (!isDelimiter ·))
        else
          name (String.ofList (c :: cs.takeWhile (!endsName ·))) ::
            scan (cs.dropWhile (!endsName ·))
termination_by cs => cs.length
decreasing_by
  all_goals simp only [List.length_cons]
  · omega
  · omega
  · have := length_dropWhile_le (!isDelimiter ·) cs; omega
  · have := length_dropWhile_le (!endsName ·) cs; omega

def listOfText (source : String) : List Token := scan source.toList

end Scaffold.Token
