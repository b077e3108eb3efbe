import Scaffold.Text.Search

/-!
The arguments of a command: options and a subcommand with options and a value of its own. An option
is given once at most before the subcommand and once at most after it; a value of the second place
counts before one of the first.
-/
namespace Scaffold.CommandLine

inductive Subcommand
  | create
  | save
  | template
  | list
  | compile
  deriving DecidableEq, Repr

namespace Subcommand

def all : List Subcommand := [create, save, template, list, compile]

def name : Subcommand → String
  | create => "create"
  | save => "save"
  | template => "template"
  | list => "list"
  | compile => "compile"

def ofName? (name : String) : Option Subcommand := all.find? (·.name = name)

theorem ofName?_name (subcommand : Subcommand) : ofName? subcommand.name = some subcommand := by
  cases subcommand <;> rfl

def value? : Subcommand → Option String
  | create => some "<INPUT>"
  | save => some "<INPUT>"
  | template => some "[NAME]"
  | list => none
  | compile => some "<SCRIPT>"

end Subcommand

inductive Flag
  | config
  | store
  | verbose
  | help
  | version
  | root
  | json
  deriving DecidableEq, Repr

namespace Flag

def all : List Flag := [config, root, json, store, verbose, help, version]

def longName : Flag → String
  | config => "config"
  | store => "store"
  | verbose => "verbose"
  | help => "help"
  | version => "version"
  | root => "root"
  | json => "json"

def shortName? : Flag → Option Char
  | verbose => some 'v'
  | help => some 'h'
  | version => some 'V'
  | root => some 'r'
  | _ => none

def value? : Flag → Option String
  | config => some "<FILE>"
  | store => some "<FILE>"
  | root => some "<DIR>"
  | _ => none

def takesValue (flag : Flag) : Bool := flag.value?.isSome

/-- Whether a flag may stand there; `none` is the place before the subcommand. -/
def fits (place : Option Subcommand) : Flag → Bool
  | version => place.isNone
  | root => place = some .create || place = some .template
  | json => place = some .compile
  | _ => true

def ofLong? (name : String) : Option Flag := all.find? (·.longName = name)

def ofShort? (name : Char) : Option Flag := all.find? (·.shortName? = some name)

theorem ofLong?_longName (flag : Flag) : ofLong? flag.longName = some flag := by
  cases flag <;> rfl

theorem ofShort?_of_shortName? {flag : Flag} {name : Char} (named : flag.shortName? = some name) :
    ofShort? name = some flag := by
  cases flag <;> cases named <;> rfl

end Flag

inductive Topic
  | program
  | command (subcommand : Subcommand)
  | help
  deriving DecidableEq, Repr

def Topic.ofPlace : Option Subcommand → Topic
  | none => program
  | some place => command place

structure Given where
  config : Option String := none
  store : Option String := none
  root : Option String := none
  verbose : Bool := false
  json : Bool := false
  values : List String := []
  /-- A flag and the word after it, which is its value but has not been looked at. -/
  waiting : Option (Flag × String) := none
  deriving DecidableEq, Repr

inductive Stop
  | usage
  | help (topic : Topic)
  | version
  deriving DecidableEq, Repr

namespace Given

/-- An option has one value, and an empty one is none. -/
def setOnce (before : Option String) (value : String) : Except Stop (Option String) :=
  if before.isSome || value = "" then .error .usage else .ok (some value)

def giveValue (given : Given) (flag : Flag) (value : String) : Except Stop Given :=
  match flag with
  | .config => return { given with config := ← setOnce given.config value }
  | .store => return { given with store := ← setOnce given.store value }
  | .root => return { given with root := ← setOnce given.root value }
  | _ => .error .usage

def settle (given : Given) : Except Stop Given :=
  match given.waiting with
  | none => .ok given
  | some (flag, value) => { given with waiting := none }.giveValue flag value

def giveSwitch (place : Option Subcommand) (given : Given) : Flag → Except Stop Given
  | .verbose => if given.verbose then .error .usage else .ok { given with verbose := true }
  | .json => if given.json then .error .usage else .ok { given with json := true }
  | .help => .error (.help (.ofPlace place))
  | .version => .error .version
  | _ => .error .usage

end Given

/-- An option that stands in `word`, without its dashes, and a flag that waits for its value. -/
abbrev Taken := Except Stop (Given × Option Flag)

def takeLong (place : Option Subcommand) (given : Given) (word : List Char) : Taken :=
  let (name, value) := match Text.splitOnce '=' word with
    | some (name, value) => (name, some (String.ofList value))
    | none => (word, none)
  match (Flag.ofLong? (String.ofList name)).filter (Flag.fits place) with
  | none => .error .usage
  | some flag =>
    match flag.takesValue, value with
    | true, some value => return (← given.giveValue flag value, none)
    | true, none => .ok (given, some flag)
    | false, some _ => .error .usage
    | false, none => return (← given.giveSwitch place flag, none)

/-- Short flags in a row, the last of which may have its value after it. -/
def takeShort (place : Option Subcommand) (given : Given) : List Char → Taken
  | [] => .ok (given, none)
  | c :: rest =>
    match (Flag.ofShort? c).filter (Flag.fits place) with
    | none => .error .usage
    | some flag =>
      if flag.takesValue then
        match rest with
        | [] => .ok (given, some flag)
        | '=' :: value => return (← given.giveValue flag (String.ofList value), none)
        | value => return (← given.giveValue flag (String.ofList value), none)
      else do takeShort place (← given.giveSwitch place flag) rest

def looksLikeOption (word : String) : Bool :=
  match word.toList with
  | '-' :: _ :: _ => true
  | _ => false

/-- Reads what stands at a place, and stops at the first word that cannot stand there. Before the
subcommand it ends at the first word that is no option, and the words from there on are left over.
A word that is an option's value is looked at when the next option comes; that of the last option
still waits at the end. -/
def readPlace (place : Option Subcommand) (given : Given) :
    List String → Except Stop (Given × List String)
  | [] => .ok (given, [])
  | word :: words =>
    if word = "--" then
      if place.isNone then .error .usage
      else .ok ({ given with values := given.values ++ words }, [])
    else if looksLikeOption word then do
      let given ← given.settle
      let taken ← match word.toList with
        | '-' :: '-' :: name => takeLong place given name
        | _ :: flags => takeShort place given flags
        | [] => .error .usage
      match taken with
      | (given, none) => readPlace place given words
      | (given, some flag) =>
        match words with
        | [] => .error .usage
        | value :: words =>
          if looksLikeOption value then .error .usage
          else readPlace place { given with waiting := some (flag, value) } words
    else
      match place with
      | none => .ok (given, word :: words)
      | some subcommand =>
        if given.values = [] ∧ subcommand.value?.isSome then
          readPlace place { given with values := [word] } words
        else .error .usage

inductive Command
  | create (input : String) (root : Option String)
  | save (input : String)
  | template (name root : Option String)
  | list
  | compile (script : String) (json : Bool)
  deriving DecidableEq, Repr

structure Request where
  config : Option String
  store : Option String
  command : Command
  deriving DecidableEq, Repr

def Command.ofGiven (subcommand : Subcommand) (given : Given) : Except Stop Command :=
  match subcommand, given.values with
  | .create, [input] => .ok (create input given.root)
  | .save, [input] => .ok (save input)
  | .template, [] => .ok (template none given.root)
  | .template, [name] => .ok (template (some name) given.root)
  | .list, [] => .ok list
  | .compile, [script] => .ok (compile script given.json)
  | _, _ => .error .usage

/-- How arguments end that start with `help`: one word may follow, and it has to be a subcommand's
name or `help` again. -/
def stopAtHelp : List String → Stop
  | [] => .help .program
  | [name] =>
    if name = "help" then .help .help
    else match Subcommand.ofName? name with
      | none => .usage
      | some subcommand => .help (.command subcommand)
  | _ => .usage

/-- Reads all arguments. The value that waits in front of the subcommand is looked at last, so help
that is asked for after the subcommand comes before a fault in it. -/
def readArguments (words : List String) : Except Stop Request := do
  match ← readPlace none {} words with
  | (_, []) => .error .usage
  | (outer, name :: words) =>
    match Subcommand.ofName? name with
    | none => .error (if name = "help" then stopAtHelp words else .usage)
    | some subcommand =>
      let (inner, _) ← readPlace (some subcommand) {} words
      let inner ← inner.settle
      let command ← Command.ofGiven subcommand inner
      let outer ← outer.settle
      return ⟨inner.config <|> outer.config, inner.store <|> outer.store, command⟩

end Scaffold.CommandLine
