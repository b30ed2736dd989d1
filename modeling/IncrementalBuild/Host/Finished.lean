import IncrementalBuild.Host.ExitStatus
import IncrementalBuild.Host.FileError
import IncrementalBuild.Host.Names
/-!
# Finished runs

What running a program does to the files is not for the library to say: whoever runs programs says
it, for every tree, every name and all arguments.

## Main definitions

* `Finished` — what a finished program leaves behind.
* `Runner` — what running programs does.
-/

namespace IncrementalBuild

/-- What a finished program leaves behind. -/
structure Finished where
  status : ExitStatus
  output : Bytes
  errors : Bytes
  files : Files
  /-- Which names are those of one file by then. -/
  names : Names := []
  /-- How many milliseconds it ran. -/
  elapsed : Nat := 0
  deriving DecidableEq

/-- What running a program does: from a tree with the names of its files, the directories where
programs are looked for, a name and arguments to what the program leaves, or to why it could not be
started. -/
abbrev Runner :=
  Files → Names → List Path → String → List String → Except FileError Finished

end IncrementalBuild
