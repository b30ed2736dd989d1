import IncrementalBuild.CommandLine
/-!
# Inputs and outputs of an invocation

Which files an invocation reads, and which it has written. A program that runs invocations on a
copy of its files needs the first before and the second afterwards.

## Main definitions

* `Invocation.inputs` — the files that an invocation names. Response files name further files, so
  the answer grows with the files that are there already.
* `Files.writtenSince` — the files that came or changed.
-/

namespace IncrementalBuild

/-- The files that an argument of a compiler names, by way of at most `depth` response files. -/
def Argument.inputs (fs : Files) (dir : Path) : (depth : Nat) → List Char → List Path
  | 0, _ => []
  | depth + 1, cs =>
    match Argument.of cs with
    | .responseFile file =>
      let path := dir.join ⟨file⟩
      match fs.readText path with
      | .ok text => path :: (Blank.lines text.toList).flatMap (inputs fs dir depth)
      | .error _ => [path]
    | .source path => [dir.join ⟨path⟩]
    | .references paths => paths.map fun p => dir.join ⟨p⟩
    | _ => []

/-- The files that an invocation names. -/
def Invocation.inputs (fs : Files) : Invocation → List Path
  | .build demand =>
    demand.settings.toList ++ demand.args.flatMap fun word =>
      Argument.inputs fs fs.currentDirectory (Arguments.maxDepth + 1) word.toList
  | .serve demand => demand.settings.toList
  | .help _ | .version => []

/-- The process that an invocation gives as owner. -/
def Invocation.owner? : Invocation → Option Nat
  | .build demand => demand.owner
  | .serve demand => some demand.owner
  | .help _ | .version => none

/-- The files of a tree that were not in an earlier tree, or had other contents there. -/
def Files.writtenSince (before after : Files) : List (Path × Bytes) :=
  after.entries.filterMap fun (loc, entry) =>
    match entry, before.at? loc with
    | .file contents _ _, some (.file old _ _) =>
      if contents = old then none else some (⟨"/" ++ "/".intercalate loc⟩, contents)
    | .file contents _ _, _ => some (⟨"/" ++ "/".intercalate loc⟩, contents)
    | _, _ => none

end IncrementalBuild
