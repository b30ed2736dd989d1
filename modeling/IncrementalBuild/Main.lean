import IncrementalBuild.Inputs
/-!
# The program

The command line as a program. It reads the files that an invocation names, runs the invocation on
them, writes the files that came of it, and prints what is to be printed. A server that would go
on listening is told to shut down at once.
-/

namespace IncrementalBuild.Main

/-- The number under which the program knows itself. -/
def ownNumber : Nat := 1

/-- Adds a file to a tree, with the directories above it. -/
def addFile (fs : Files) (p : Path) (contents : Bytes) : Files :=
  let made := match p.parent? with
    | some dir => (fs.createDirectories dir).2
    | none => fs
  (made.write p contents).toOption.getD made

/-- Reads the files that an invocation names and that are not there yet. -/
def readInputs (invocation : Invocation) : Nat → Files → IO Files
  | 0, fs => return fs
  | rounds + 1, fs => do
    let missing := (invocation.inputs fs).filter fun p => !fs.exists? p
    let mut found := fs
    for p in missing do
      if let .ok contents ← (IO.FS.readBinFile p.text).toBaseIO then
        found := addFile found p contents.toList
    if found.entries.length = fs.entries.length then return fs
    else readInputs invocation rounds found

/-- The files of the host that matter for an invocation. -/
def filesFor (dir : String) (invocation : Invocation) : IO Files := do
  let workDir := (dir.splitOn "/").filter (· ≠ "")
  let fs := { Program.image with workDir }
  readInputs invocation (Arguments.maxDepth + 2) (fs.createDirectories fs.currentDirectory).2

/-- The processes that matter for an invocation: the program itself, and the owner if it runs. -/
def processesFor (invocation : Invocation) : IO (List (Nat × String)) := do
  let own := (ownNumber, "kiln")
  match invocation.owner? with
  | none => return [own]
  | some n =>
    match ← (IO.FS.readFile s!"/proc/{n}/stat").toBaseIO with
    | .ok _ => return [own, (n, "")]
    | .error _ => return [own]

/-- Runs an invocation: what it comes to, and the files it wrote. -/
def invoke (words : List String) : IO (CommandLine.Ending × List (Path × Bytes)) := do
  let invocation := (Invocation.parse words).toOption.getD .version
  let files ← filesFor (toString (← IO.currentDir)) invocation
  let processes ← processesFor invocation
  let (ending, site) :=
    CommandLine.run ownNumber words (CommandLine.siteOf { files, processes })
  return (ending, files.writtenSince site.host.files)

end IncrementalBuild.Main

/-- The program. -/
def main (words : List String) : IO UInt32 := do
  let (ending, written) ← IncrementalBuild.Main.invoke words
  for (path, contents) in written do
    if let some dir := path.parent? then IO.FS.createDirAll dir.text
    IO.FS.writeBinFile path.text ⟨contents.toArray⟩
  match ending with
  | .exited code output errors =>
    for line in output do IO.println line
    for line in errors do IO.eprintln line
    return UInt32.ofNat code
  | .serving _ => return 0
  | .waiting => return 1
