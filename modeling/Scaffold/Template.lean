import Scaffold.Dict
import Scaffold.Path
import Scaffold.Text.Blank
import Scaffold.Text.Search

namespace Scaffold

/-- Template texts by extension; every extension starts with its dot. -/
structure Templates where
  texts : Dict String String
  deriving DecidableEq

namespace Templates

def dotted (extension : String) : String :=
  let extension := Text.trim extension
  if extension.toList.head? = some '.' then extension else "." ++ extension

/-- Of several templates for one extension the last wins. -/
def ofList (templates : List (String × String)) : Templates :=
  ⟨Dict.ofList (templates.map fun (extension, text) => (dotted extension, text))⟩

/-- The part of a file name from its last dot on, unless that dot comes first. -/
def extension? (name : String) : Option String :=
  match name.toList.reverse.dropWhile (· ≠ '.') with
  | _ :: _ :: _ => some (String.ofList ('.' :: (name.toList.reverse.takeWhile (· ≠ '.')).reverse))
  | _ => none

def nameMark : List Char := ['$', '{', 'n', 'a', 'm', 'e', '}']

def page (title : String) : String :=
  "<!doctype html>\n<html>\n<head>\n<meta charset=\"utf-8\">\n<title>" ++ title ++
    "</title>\n</head>\n<body>\n\n</body>\n</html>\n"

def script (path name : String) : String :=
  "// " ++ path ++ "\nconsole.log('Loaded " ++ name ++ "');\n"

def builtIn (path name : String) : Option String → String
  | some ".html" =>
    page (((Text.withoutEnding? ".html".toList name.toList).map String.ofList).getD name)
  | some ".js" => script path name
  | _ => ""

/-- An empty template counts as none. -/
def find? (templates : Templates) (extension : String) : Option String :=
  (templates.texts.get? extension).filter (· ≠ "")

def content (templates : Templates) (path : String) : String :=
  let name := (Path.parse path).name?.getD ""
  let extension := extension? name
  match extension.bind templates.find? with
  | some text => String.ofList (Text.replaceAll nameMark name.toList text.toList)
  | none => builtIn path name extension

end Templates
end Scaffold
