import IncrementalBuild.Host.Files
import IncrementalBuild.Host.Shell.Text
/-!
# Executables

How the executable that a program's name stands for is found, and what the host's own tools look
like in the file tree.

## Main definitions

* `Program.find`, `Program.locate?` — the executable that a name stands for.
* `Program.tools`, `Program.image` — the host's own tools, and a tree that holds them.
* `Interpreter.ofScript` — the interpreter that a script's first line names.
-/

namespace IncrementalBuild

/-! ### Interpreters -/

/-- The interpreter that a script's first line names, with the one argument it may have. -/
structure Interpreter where
  program : Shell.Text
  argument : Option Shell.Text
  deriving DecidableEq, Repr

namespace Interpreter

/-- Whether a byte separates an interpreter from its argument. -/
def isBlank (b : UInt8) : Bool := b == 0x20 || b == 0x09

/-- Bytes without blanks at either end. -/
def trim (bs : Bytes) : Bytes :=
  ((bs.dropWhile isBlank).reverse.dropWhile isBlank).reverse

/-- The interpreter that a script's first line names; one that is a mark alone names none. -/
def ofScript (contents : Bytes) : Option Interpreter :=
  match contents with
  | 0x23 :: 0x21 :: rest =>
    let line := trim (rest.takeWhile (· != 0x0A))
    let program : Bytes := line.takeWhile fun b => !isBlank b
    let argument : Bytes := trim (line.drop program.length)
    if program.isEmpty then none
    else some ⟨.ofBytes program, if argument.isEmpty then none else some (.ofBytes argument)⟩
  | _ => none

end Interpreter

namespace Program

/-! ### Tools -/

/-- The contents of a tool's executable. -/
def toolBytes (name : String) : Bytes := [0x7F, 0x45, 0x4C, 0x46] ++ Bytes.ofString name

/-- The tools that have an executable. -/
def tools : List String :=
  ["sh", "dash", "true", "sync", "false", "echo", "printf", "yes", "test", "[", "basename",
   "dirname", "pwd", "which", "seq", "expr", "id", "whoami", "uname", "env", "printenv", "nice",
   "nohup", "timeout", "xargs", "sleep", "kill", "cat", "tee", "head", "tail", "wc", "tac", "rev",
   "nl", "paste", "fold", "cut", "tr", "sort", "uniq", "grep", "egrep", "fgrep", "sed", "mkdir",
   "rmdir", "rm", "touch", "chmod", "mktemp", "truncate", "cp", "mv", "ln", "ls", "realpath",
   "readlink", "cmp", "stat", "find"]

/-- The place of the file that swallows what is written. -/
def nullPlace : Location := ["dev", "null"]

/-- A tree that holds the host's tools and a directory for scratch files. -/
def image : Files where
  entries :=
    ([["bin"], ["usr"], ["usr", "bin"], ["tmp"], ["dev"]].map fun loc => (loc, Entry.directory))
      ++ (nullPlace, Entry.file [] .epoch false)
      :: tools.flatMap fun name =>
        [["bin", name], ["usr", "bin", name]].map fun loc =>
          (loc, Entry.file (toolBytes name) .epoch true)

/-- The tool whose executable has these contents. -/
def toolOf? (contents : Bytes) : Option String :=
  if contents.head? == (toolBytes "").head? then tools.find? fun name => toolBytes name == contents
  else none

/-! ### Finding -/

/-- Where programs are looked for by name. -/
def defaultSearchPath : List Path := [⟨"/usr/local/bin"⟩, ⟨"/usr/bin"⟩, ⟨"/bin"⟩]

/-- The contents of an executable file. -/
def executable (files : Files) (p : Path) : Except FileError Bytes :=
  match files.stat p with
  | .ok (.file contents _ true) => .ok contents
  | .ok _ => .error .permissionDenied
  | .error e => .error e

/-- The executable that a program's name stands for: a name with a separator is a path, any other
name is looked for in the directories of the search path. A file that may not be executed is only
reported when no later directory has one. -/
def find (files : Files) (searchPath : List Path) (name : String) : Except FileError Path :=
  if name.toList.contains '/' then (executable files ⟨name⟩).map fun _ => ⟨name⟩
  else if name = "" then .error .notFound
  else
    let candidates := searchPath.map fun dir => dir.join ⟨name⟩
    match candidates.find? fun p => (executable files p).toBool with
    | some p => .ok p
    | none =>
      if candidates.any fun p => files.exists? p then .error .permissionDenied
      else .error .notFound

/-- A path that starts at the root: a relative one is read from the work directory, component by
component and without the `.` at its front. -/
def absolute (files : Files) (p : Path) : Path :=
  if p.isAbsolute then p
  else
    p.components.foldl (fun dir component =>
      match component with
      | .name text => dir.join ⟨String.ofList text⟩
      | .up => dir.join ⟨".."⟩
      | _ => dir) files.currentDirectory

/-- Whether a path starts in a home directory, written `~`. -/
def startsAtHome (p : Path) : Bool := p.components.head? == some (.name ['~'])

/-- The first executable of a name in the directories of the search path, as a path from the root.
Home directories hold none. -/
def locate? (files : Files) (searchPath : List Path) (name : String) : Option Path :=
  let dirs := searchPath.filter fun dir => !startsAtHome dir
  (dirs.map fun dir => absolute files (dir.join ⟨name⟩)).find? fun p => (executable files p).toBool

/-! ### Starting -/

open Shell in
/-- What is started in the end for an executable: one of the host's tools, and its arguments from
the name on that it is started under. A script is an argument of its interpreter. -/
def resolve : Nat → Files → Path → (zero : Text) → List Text →
    Except FileError (String × List Text)
  | 0, _, _, _, _ => .error (.other "Too many levels of symbolic links")
  | fuel + 1, files, p, zero, args => do
    let contents ← executable files p
    match toolOf? contents with
    | some tool => return (tool, zero :: args)
    | none =>
      match Interpreter.ofScript contents with
      | none => .error .execFormat
      | some i =>
        resolve fuel files i.program.toPath i.program
          (i.argument.toList ++ Text.ofString p.text :: args)

/-- How many interpreters may stand behind each other. -/
def interpreterLimit : Nat := 5

end Program
end IncrementalBuild
