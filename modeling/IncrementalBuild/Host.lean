import IncrementalBuild.Host.Executable
import IncrementalBuild.Host.Finished
import IncrementalBuild.Snapshot
/-!
# The host

What a build works on: the files, the programs, and whatever else happens to them in the
meantime. The library reaches its surroundings only through the accesses of this module.

## Main definitions

* `Host`, `Access` — the surroundings, and one access to them, which may fail.
* `Interference` — what happens right before an access: files that others save, or a failure of
  the access itself that the files do not explain, such as a full disk.
* `Access.look`, `Access.change`, `Access.fill`, `Access.rename`, `Access.run` — reading, changing
  files, writing a file under all its names, moving a file, and running a program.
* `Schedule` — the order in which inputs are taken up that are worked on at the same time.
* `Host.goTo` — the host seen from another work directory.
* `Snapshot.capture` — the snapshot of a collection on the host.

## Interference

A host carries the interference that is still to come, in order; each access meets the next of
it. Without any the host is the process's own, and every access does what the file tree says.
-/

namespace IncrementalBuild

/-- A file saved by someone else. -/
structure Save where
  path : Path
  contents : Bytes
  modified : Timestamp
  deriving DecidableEq, Repr

/-- Writes a file with its modification time; a file that cannot be written stays away. -/
def Files.save (fs : Files) (s : Save) : Files :=
  match fs.write s.path s.contents with
  | .ok written => (written.setModified s.path s.modified).toOption.getD written
  | .error _ => fs

/-- What happens right before an access to the host. -/
structure Interference where
  /-- Files that others save. -/
  saves : List Save := []
  /-- A failure that the access meets for a reason of its own. -/
  failure : Option FileError := none
  deriving DecidableEq, Repr

/-- The order in which the items of a list are taken up that are worked on at the same time. -/
structure Schedule where
  /-- Which items are taken up first, each by its position among those that are left. The others
  follow as they are listed. -/
  order : List Nat := []
  /-- How many more items are taken up once one of them has failed. -/
  further : Nat := 0
  deriving DecidableEq, Repr

/-- The surroundings of a build. -/
structure Host where
  files : Files := {}
  /-- Which names are those of one file. -/
  names : Names := []
  /-- Where programs are looked for. -/
  searchPath : List Path := Program.defaultSearchPath
  /-- The running processes: their numbers and names. -/
  processes : List (Nat × String) := []
  /-- The ports that servers listen on, with the number of the server at each. -/
  ports : List (Nat × Nat) := []
  /-- How many servers have listened so far; it is the number of the next one. -/
  servers : Nat := 0
  /-- Whether connections to ports of the loopback interface are let through. -/
  loopbackOpen : Bool := true
  /-- How many scratch directories were made so far. -/
  scratches : Nat := 0
  /-- The time, in milliseconds. It passes while programs run. -/
  clock : Nat := 0
  /-- What happens before the accesses to come. -/
  interference : List Interference := []
  /-- The order in which the references of a build are taken up. -/
  resolving : Schedule := {}
  /-- The order in which its sources are taken up. -/
  parsing : Schedule := {}
  deriving DecidableEq, Repr

/-- One access to the host: its value, or why it failed, and the host afterwards. -/
abbrev Access (α : Type) := Host → Except FileError α × Host

namespace Host

/-- Lets happen what happens before an access. -/
def enter (h : Host) : Option FileError × Host :=
  match h.interference with
  | [] => (none, h)
  | i :: later =>
    (i.failure, { h with files := i.saves.foldl Files.save h.files, interference := later })

/-- Without interference nothing happens before an access. -/
theorem enter_of_interference_eq_nil {h : Host} (quiet : h.interference = []) :
    h.enter = (none, h) := by
  simp [enter, quiet]

/-- Whether something stands at a path. -/
def exists? (h : Host) (p : Path) : Bool := h.files.exists? p

/-- The host as a process sees it whose relative paths start from `dir`. -/
def goTo (dir : Location) (h : Host) : Host := { h with files := { h.files with workDir := dir } }

end Host

namespace Access

/-- An access that changes nothing. -/
def look {α : Type} (f : Files → Except FileError α) : Access α := fun h =>
  match h.enter with
  | (some e, h) => (.error e, h)
  | (none, h) => (f h.files, h)

/-- An access that changes files, or fails and leaves them. -/
def change (f : Files → Except FileError Files) : Access Unit := fun h =>
  match h.enter with
  | (some e, h) => (.error e, h)
  | (none, h) =>
    match f h.files with
    | .ok files => (.ok (), { h with files })
    | .error e => (.error e, h)

/-- Writes a file as `f` says; what it holds then is shown under all its names. -/
def fill (p : Path) (f : Files → Except FileError Files) : Access Unit := fun h =>
  change (fun fs => (f fs).map (fs.spread h.names p)) h

/-- Moves a file to another path, replacing a file there. Nothing happens if the two paths are names
of one file. -/
def rename (source destination : Path) : Access Unit := fun h =>
  match h.enter with
  | (some e, h) => (.error e, h)
  | (none, h) =>
    if h.files.oneFile h.names source destination then (.ok (), h)
    else
      match h.files.rename source destination with
      | .error e => (.error e, h)
      | .ok files =>
        match h.files.locate source, files.locate destination with
        | .ok old, .ok new => (.ok (), { h with files, names := h.names.move old new })
        | _, _ => (.ok (), { h with files })

/-- Two accesses one after the other; the second happens only if the first succeeded. -/
def andThen {α : Type} (first : Access Unit) (second : Access α) : Access α := fun h =>
  match first h with
  | (.ok (), h) => second h
  | (.error e, h) => (.error e, h)

/-- The modification time of what stands at a path. -/
def modified (p : Path) : Access Timestamp := look fun fs => fs.modified p

/-- The contents of a file. -/
def read (p : Path) : Access Bytes := look fun fs => fs.read p

/-- The contents of a file, as text. -/
def readText (p : Path) : Access String := look fun fs => fs.readText p

/-- What stands at a path. -/
def stat (p : Path) : Access Entry := look fun fs => fs.stat p

/-- Writes a whole file. -/
def write (p : Path) (contents : Bytes) : Access Unit := fill p fun fs => fs.write p contents

/-- Removes a file. -/
def remove (p : Path) : Access Unit := change fun fs => fs.remove p

/-- Creates a directory with those above it. -/
def createDirectories (p : Path) : Access Unit := fun h =>
  match h.enter with
  | (some e, h) => (.error e, h)
  | (none, h) =>
    match h.files.createDirectories p with
    | (some e, files) => (.error e, { h with files })
    | (none, files) => (.ok (), { h with files })

/-- Runs a program with arguments. -/
def run (runner : Runner) (name : String) (args : List String) : Access Finished := fun h =>
  match h.enter with
  | (some e, h) => (.error e, h)
  | (none, h) =>
    match runner h.files h.names h.searchPath name args with
    | .ok finished =>
      (.ok finished, { h with
        files := finished.files
        names := finished.names
        clock := h.clock + finished.elapsed })
    | .error e => (.error e, h)

/-- The path of the scratch directory with a number. -/
def scratchPath (n : Nat) : Path := ⟨s!"/tmp/kiln-emit-{n}"⟩

/-- Makes a new scratch directory. -/
def makeScratch : Access Path := fun h =>
  let p := scratchPath h.scratches
  match change (fun fs => fs.createDirectory p) { h with scratches := h.scratches + 1 } with
  | (.ok (), h) => (.ok p, h)
  | (.error e, h) => (.error e, h)

/-- Removes a scratch directory with all it holds. -/
def dropScratch (p : Path) : Access Unit := change fun fs => fs.removeTree p

end Access

/-! ### Capturing a collection -/

/-- The stamps of paths, relative to a base directory, in the order they are looked at. A file
that cannot be looked at has the time of the epoch. -/
def FileStamp.captureAll (base : Path) : List Path → Host → List FileStamp × Host
  | [], h => ([], h)
  | p :: rest, h =>
    let (time, h) := Access.modified (base.join p) h
    let (stamps, h) := captureAll base rest h
    (⟨p, time.toOption.getD .epoch⟩ :: stamps, h)

/-- The snapshot of a collection of paths. -/
def Snapshot.capture (base : Path) (paths : List Path) (h : Host) : Snapshot × Host :=
  let (stamps, h) := FileStamp.captureAll base paths h
  (.ofStamps stamps, h)

end IncrementalBuild
