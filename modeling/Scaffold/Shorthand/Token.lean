namespace Scaffold

inductive Token
  | openBracket
  | closeBracket
  | less
  | ampersand
  | semicolon
  /-- Directories one below the other; with `isFile` the last part is a file instead. -/
  | path (parts : List String) (isFile : Bool)
  | name (text : String)
  deriving DecidableEq, Repr

namespace Token

def isConnector : Token → Bool
  | less => true
  | ampersand => true
  | _ => false

/-- What begins a statement of its own unless it is chained. -/
def opensStatement : Token → Bool
  | path _ _ => true
  | name _ => true
  | openBracket => true
  | _ => false

def text : Token → String
  | openBracket => "["
  | closeBracket => "]"
  | less => "<"
  | ampersand => "&"
  | semicolon => ";"
  | path parts isFile => "/" ++ "/".intercalate parts ++ (if isFile then "" else "/")
  | name text => text

def listText (tokens : List Token) : String := " ".intercalate (tokens.map text)

end Token
end Scaffold
