import IncrementalBuild.Host.Finished
import IncrementalBuild.Host.Shell.Evaluation
/-!
# Programs

What happens when a program is run: its executable is found, and it is either one of the host's
own tools or a script that names its interpreter. Compilers and symbol converters run this way.

## Main definitions

* `Program.run` — runs a program with arguments on a file tree.

A program reads nothing from its standard input.
-/

namespace IncrementalBuild

namespace Program

open Shell

/-- How deep the calls of a program may be nested. -/
def supply : Nat := 8000

/-- The state that a program is started in. -/
def environment (files : Files) (names : Names) (searchPath : List Path) : State :=
  let path := Text.joinWith [':'] (searchPath.map fun p => Text.ofString p.text)
  let st : State := {
    files
    names
    bindings := [(lit "PATH", { value := some path, exported := true }),
      (lit "HOME", { value := some (lit "/root"), exported := true })] }
  ((st.openAs 0 .null).openAs 1 (.sink [])).openAs 2 (.sink [])

/-- Runs a program, found by its name, with arguments: what it leaves behind, or why it could not
be started. -/
def run : Runner := fun files names searchPath name args =>
  if name.toList.contains '\x00' || args.any fun a => a.toList.contains '\x00' then
    .error .nulInArgument
  else do
    let p ← find files searchPath name
    let (tool, argv) ←
      resolve interpreterLimit files p (Text.ofString name) (args.map Text.ofString)
    let (r, st) := (runTool supply tool argv).run (environment files names searchPath)
    let status : ExitStatus := match r with
      | .error (.killed n) => .signal n
      | _ => .code (st.status % 256)
    return {
      status
      output := Text.toBytes (st.collected 1)
      errors := Text.toBytes (st.collected 2)
      files := { st.files with workDir := files.workDir }
      names := st.names
      elapsed := st.elapsed }

end Program
end IncrementalBuild
