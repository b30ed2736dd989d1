import IncrementalBuild.BuildError
import IncrementalBuild.Host
/-!
# Publishing a file

An output is written to a temporary file beside its path and then moved there, so that the path
never holds half of it.

## Main definitions

* `Publish.Step`, `Publish.steps` — the single steps, in their order.
* `publish` — runs them. When a step after the first fails, the temporary file is removed.
-/

namespace IncrementalBuild

namespace Publish

/-- The temporary file beside a path. -/
def temporary (p : Path) : Path := p.appendText ".kiln-tmp"

/-- One step of publishing a file. -/
inductive Step
  /-- The temporary file is created, empty. -/
  | create (temporary : Path)
  /-- The contents are written to it. -/
  | write (temporary : Path) (contents : Bytes)
  /-- What was written leaves the process. -/
  | flush
  /-- What was written reaches the disk. -/
  | sync
  /-- The temporary file takes the place of the file. -/
  | rename (temporary destination : Path)
  deriving DecidableEq, Repr

/-- Carries out one step. -/
def Step.run : Step → Access Unit
  | .create t => .fill t fun fs => fs.create t
  | .write t contents => .fill t fun fs => fs.append t contents
  | .flush => .change .ok
  | .sync => .change .ok
  | .rename t p => .rename t p

/-- The steps that bring `contents` to `p` once its directory exists. -/
def steps (p : Path) (contents : Bytes) : List Step :=
  let t := temporary p
  [.create t, .write t contents, .flush, .sync, .rename t p]

/-- Carries out steps up to the first failure. -/
def runAll : List Step → Access Unit
  | [] => fun h => (.ok (), h)
  | s :: rest => Access.andThen s.run (runAll rest)

/-- Creates the directory of a path, unless it is the one the process works in. -/
def makeParent (p : Path) : Access Unit :=
  match p.parent? with
  | none => fun h => (.ok (), h)
  | some dir => if dir.text = "" then fun h => (.ok (), h) else Access.createDirectories dir

end Publish

/-- Writes a file as a whole, creating its directory. -/
def publish (p : Path) (contents : Bytes) : Host → Except BuildError Unit × Host := fun h =>
  match Publish.makeParent p h with
  | (.error e, h) => (.error (.artifact p e), h)
  | (.ok (), h) =>
    match Publish.runAll (Publish.steps p contents) h with
    | (.ok (), h) => (.ok (), h)
    | (.error e, h) => (.error (.artifact p e), (Access.remove (Publish.temporary p) h).2)

end IncrementalBuild
