import IncrementalBuild.Host.Files
import IncrementalBuild.Options
import IncrementalBuild.Text.Blank
/-!
# Compiler arguments

A request is written as the arguments of a compiler:

`-out:Library/Game.dll -r:Engine.dll -define:DEBUG;TRACE @more.rsp a.cs b.cs`

An argument that starts with `@` names a response file, which holds one argument a line and may
name further response files.

## Main definitions

* `Argument.of` — what one argument means.
* `Arguments` — everything that arguments ask for, and `Arguments.add`, which takes one in.
* `Arguments.take` — takes an argument in, opening response files up to a depth.
* `Arguments.parse` — reads a list of arguments.
* `Arguments.options` — the build options they make.
-/

namespace IncrementalBuild

/-- What one argument means. -/
inductive Argument
  /-- It is blank and means nothing. -/
  | blank
  /-- The arguments in a response file. -/
  | responseFile (file : String)
  | source (path : String)
  | references (paths : List String)
  | defines (names : List String)
  | output (path : String)
  | suppress (codes : List String)
  | allowUnsafe (allowed : Bool)
  /-- A flag for the compiler, as it stands. -/
  | flag (text : String)
  deriving DecidableEq, Repr

namespace Argument

/-- A text without the blanks at its ends and then without the quotes at its ends. -/
def unquote (cs : List Char) : List Char := Blank.trimWhere (· == '"') (Blank.trim cs)

/-- Whether a character separates the items of a list. -/
def isSeparator (c : Char) : Bool := c == ';' || c == ','

/-- The items of a list: the pieces between separators, unquoted, without empty ones. -/
def items (cs : List Char) : List String :=
  (((Blank.pieces isSeparator cs).map unquote).filter (· ≠ [])).map String.ofList

/-- The name of a flag, in lower case, and its value: what stands before and after the first
colon. -/
def nameAndValue (flag : List Char) : List Char × List Char :=
  ((flag.takeWhile (· != ':')).map Char.toLower, (flag.dropWhile (· != ':')).drop 1)

/-- What a flag means; `text` is the whole argument. -/
def ofFlag (text flag : List Char) : Argument :=
  let (name, value) := nameAndValue flag
  match String.ofList name with
  | "r" | "reference" => .references (items value)
  | "d" | "define" => .defines (items value)
  | "out" => .output (String.ofList (unquote value))
  | "nowarn" => .suppress (items value)
  | "unsafe" | "unsafe+" => .allowUnsafe true
  | "unsafe-" => .allowUnsafe false
  | _ => .flag (String.ofList text)

/-- What an argument means. -/
def of (cs : List Char) : Argument :=
  match Blank.trim cs with
  | [] => .blank
  | '@' :: file => .responseFile (String.ofList (unquote file))
  | '-' :: rest => ofFlag ('-' :: rest) rest
  | text => .source (String.ofList (unquote text))

end Argument

/-- Why arguments could not be read. -/
inductive ArgumentError
  /-- Response files name each other too deeply. -/
  | nestedTooDeeply (file : String)
  | unreadable (path : Path) (cause : FileError)
  /-- No argument names an output. -/
  | noOutput
  deriving DecidableEq, Repr

/-- The text of a cause, with what lies behind it. -/
def ArgumentError.message : ArgumentError → String
  | .nestedTooDeeply file => s!"Response files nested too deeply at @{file}"
  | .unreadable path cause => s!"Failed to read response file {path.text}: {cause.message}"
  | .noOutput => "No output given (expected -out:<file>)"

/-- Everything that arguments ask for. -/
structure Arguments where
  output : Option String := none
  /-- The file name of the output without its extension. -/
  assemblyName : String := ""
  defines : List String := []
  references : List String := []
  files : List String := []
  suppressed : List String := []
  allowUnsafe : Bool := false
  extraFlags : List String := []
  deriving DecidableEq, Repr

namespace Arguments

/-- Takes one argument in. Lists grow, and of outputs and switches the last one counts. -/
def add (a : Arguments) : Argument → Arguments
  | .blank | .responseFile _ => a
  | .source path => { a with files := a.files ++ [path] }
  | .references paths => { a with references := a.references ++ paths }
  | .defines names => { a with defines := a.defines ++ names }
  | .output path => { a with output := some path, assemblyName := (Path.stem? ⟨path⟩).getD "" }
  | .suppress codes => { a with suppressed := a.suppressed ++ codes }
  | .allowUnsafe allowed => { a with allowUnsafe := allowed }
  | .flag text => { a with extraFlags := a.extraFlags ++ [text] }

/-- How many response files may be open within each other. -/
def maxDepth : Nat := 16

/-- Takes one argument in; `depth` more response files may be opened within each other. -/
def take (fs : Files) (workDir : Path) :
    (depth : Nat) → Arguments → List Char → Except ArgumentError Arguments
  | 0, a, cs =>
    match Argument.of cs with
    | .responseFile file => .error (.nestedTooDeeply file)
    | argument => .ok (a.add argument)
  | depth + 1, a, cs =>
    match Argument.of cs with
    | .responseFile file =>
      let path := workDir.join ⟨file⟩
      match fs.readText path with
      | .error cause => .error (.unreadable path cause)
      | .ok text => (Blank.lines text.toList).foldlM (take fs workDir depth) a
    | argument => .ok (a.add argument)

/-- Texts without those that stand earlier. -/
def firstMentions : List String → List String
  | [] => []
  | s :: rest => s :: (firstMentions rest).filter (· != s)

/-- Arguments with each reference and source kept once, and with an output. -/
def finish (a : Arguments) : Except ArgumentError Arguments :=
  if a.output.isNone then .error .noOutput
  else
    .ok { a with
      references := firstMentions a.references
      files := firstMentions a.files }

/-- Reads arguments; response files are looked for in the work directory. -/
def parse (fs : Files) (workDir : Path) (args : List String) : Except ArgumentError Arguments :=
  match (args.map String.toList).foldlM (take fs workDir maxDepth) {} with
  | .error e => .error e
  | .ok a => a.finish

/-- The build options of a request made in the work directory. -/
def options (a : Arguments) (workDir : Path) (mode : SymbolMode) (policy : ReusePolicy) :
    BuildOptions where
  workDirectory := workDir.text
  assemblyName := a.assemblyName
  output := a.output.getD ""
  defines := a.defines
  references := a.references
  files := a.files
  debugSymbols := mode
  outputReuse := policy
  allowUnsafe := a.allowUnsafe
  extraFlags := a.extraFlags
  suppressed := a.suppressed

end Arguments
end IncrementalBuild
