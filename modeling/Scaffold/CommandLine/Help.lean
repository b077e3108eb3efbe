import Scaffold.CommandLine.Arguments

namespace Scaffold.CommandLine

def Subcommand.description : Subcommand → String
  | create => "Run shorthand, or `!name` to run a saved script"
  | save => "Save a script: `name @ script`"
  | template => "Run a saved script, asking which one when NAME is omitted"
  | list => "List saved scripts"
  | compile => "Print the operations a script compiles to, without touching the disk"

namespace Flag

def description : Flag → String
  | config => "Config file (defaults to batch-kit.toml in the root directory)"
  | store => "Saved-script file (overrides the config)"
  | verbose => "Enable verbose output"
  | help => "Print help"
  | version => "Print version"
  | root => "Directory the tree is created in"
  | json => "Print operations as JSON"

def written (flag : Flag) : String :=
  let short := match flag.shortName? with
    | some c => String.ofList ['-', c, ',', ' ']
    | none => "    "
  let value := match flag.value? with
    | some value => " " ++ value
    | none => ""
  short ++ "--" ++ flag.longName ++ value

end Flag

namespace Topic

def description : Topic → String
  | program => "Create directory/file trees from a compact shorthand"
  | command subcommand => subcommand.description
  | help => "Print this message or the help of the given subcommand(s)"

def usage : Topic → String
  | program => "batch [OPTIONS] <COMMAND>"
  | command subcommand =>
    " ".intercalate (["batch", subcommand.name, "[OPTIONS]"] ++ subcommand.value?.toList)
  | help => "batch help [COMMAND]..."

def commands : Topic → List (String × String)
  | program =>
    Subcommand.all.map (fun subcommand => (subcommand.name, subcommand.description)) ++
      [("help", help.description)]
  | _ => []

def values : Topic → List (String × String)
  | program => []
  | command subcommand => subcommand.value?.toList.map fun value => (value, "")
  | help => [("[COMMAND]...", "Print help for the subcommand(s)")]

def flags : Topic → List Flag
  | program => Flag.all.filter (Flag.fits none)
  | command subcommand => Flag.all.filter (Flag.fits (some subcommand))
  | help => []

/-- Lines with two columns, the second of which starts two places after the widest entry of the
first. -/
def columns (entries : List (String × String)) : List String :=
  let width := (entries.map fun entry => entry.1.length).foldl max 0
  entries.map fun (left, right) =>
    "  " ++ left ++ String.ofList (List.replicate (width + 2 - left.length) ' ') ++ right

def part (heading : String) (entries : List (String × String)) : List String :=
  if entries = [] then [] else ["\n".intercalate ((heading ++ ":") :: columns entries)]

def text (topic : Topic) : String :=
  "\n\n".intercalate
    ([topic.description, "Usage: " ++ topic.usage] ++ part "Commands" topic.commands ++
      part "Arguments" topic.values ++
      part "Options" (topic.flags.map fun flag => (flag.written, flag.description))) ++ "\n"

end Topic
end Scaffold.CommandLine
