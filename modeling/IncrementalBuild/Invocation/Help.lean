import IncrementalBuild.Invocation
/-!
# Help

What the program prints about itself: how it is called, with its commands, arguments and switches
in columns.

## Main definitions

* `Topic.lines` — the help on a topic.
* `Invocation.versionLine` — the program's version.
-/

namespace IncrementalBuild

/-- What a switch does. -/
def Switch.purpose : Switch → String
  | .verbose => "Enable verbose logging"
  | .settings => "Settings file (default: kiln.json next to the executable)"
  | .owner => "Owning process id; overrides the owner define"
  | .inProcess => "Host the server on a thread of this process"
  | .help => "Print help"
  | .version => "Print version"

namespace Topic

/-- Rows of two columns, the second aligned. -/
def columns (rows : List (String × String)) : List String :=
  let width := rows.foldl (fun n row => max n row.1.length) 0
  rows.map fun (label, text) =>
    "  " ++ label ++ String.ofList (List.replicate (width - label.length + 2) ' ') ++ text

/-- A heading with its rows, after an empty line. -/
def paragraph (heading : String) (rows : List (String × String)) : List String :=
  "" :: (heading ++ ":") :: columns rows

/-- The rows of switches. -/
def switchRows (switches : List Switch) : List (String × String) :=
  switches.map fun s => ("    " ++ s.display, s.purpose)

/-- What the command `server` does. -/
def serverPurpose : String := "Run the build server for an owning process"

/-- What the command `help` does. -/
def helpPurpose : String := "Print this message or the help of the given subcommand(s)"

/-- The help on a topic. -/
def lines : Topic → List String
  | .program =>
    ["Incremental compilation server with a compiler-compatible command line", "",
      "Usage: kiln [OPTIONS] [ARGS]... [COMMAND]"]
    ++ paragraph "Commands" [("server", serverPurpose), ("help", helpPurpose)]
    ++ paragraph "Arguments"
        [("[ARGS]...", "Compiler arguments and response files (@file)")]
    ++ paragraph "Options" (switchRows Switch.all)
  | .server =>
    [serverPurpose, "", "Usage: kiln server [OPTIONS] <OWNER>"]
    ++ paragraph "Arguments"
        [("<OWNER>", "Process id of the owner; the server exits with it (0 = never)")]
    ++ paragraph "Options" (switchRows Switch.everywhere)
  | .help =>
    [helpPurpose, "", "Usage: kiln help [COMMAND]..."]
    ++ paragraph "Arguments" [("[COMMAND]...", "Print help for the subcommand(s)")]

end Topic

/-- The program's version. -/
def Invocation.versionLine : String := "kiln 0.1.0"

end IncrementalBuild
