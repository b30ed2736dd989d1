import IncrementalBuild.Host.FileError
import IncrementalBuild.Path.Basic
import IncrementalBuild.Text.Bytes
import IncrementalBuild.Timestamp
/-!
# The file tree

The files a process sees: a tree of directories, files and sockets, the directory that relative
paths start from, and the clock that stamps what is written. Symbolic links do not occur, so a path
that exists names exactly one location, and every location has an entry of its own. That two of them
are names of one file is kept beside the tree (`Names`).

## Main definitions

* `Location`, `Entry`, `Files` — places in the tree, what stands there, and the tree.
* `Files.walk`, `Files.locate`, `Files.target` — from a path to a location: every directory on
  the way has to exist, `..` goes to the parent, and names have at most 255 bytes. `locate` wants
  the last component to exist too, `target` only its directory.
* `Files.read`, `Files.readText`, `Files.create`, `Files.append`, `Files.createDirectory`,
  `Files.createDirectories`, `Files.rename`, `Files.remove`, `Files.modified` — the operations.

Every operation that can fail leaves the tree as it was when it fails, except that
`createDirectories` may have made some of the directories.
-/

namespace IncrementalBuild

/-- A place in the tree: the names on the way from the root. -/
abbrev Location := List String

/-- What stands at a location. -/
inductive Entry
  | directory
  | file (contents : Bytes) (modified : Timestamp) (executable : Bool)
  /-- A local socket, with the number of the server that accepts at it, if one still does. -/
  | socket (server : Option Nat)
  deriving DecidableEq, Repr

/-- A file tree as one process sees it. -/
structure Files where
  /-- What stands at each location but the root. -/
  entries : List (Location × Entry) := []
  /-- Where relative paths start. -/
  workDir : Location := []
  /-- The time that the next write is stamped with. -/
  clock : Timestamp := ⟨1700000000000000000⟩
  deriving DecidableEq, Repr

namespace Files

/-! ### Locations -/

/-- What stands at a location; the root is always a directory. -/
def at? (fs : Files) (loc : Location) : Option Entry :=
  if loc = [] then some .directory else fs.entries.lookup loc

/-- Whether a location is a directory. -/
def isDirectoryAt (fs : Files) (loc : Location) : Bool := fs.at? loc == some .directory

/-- Puts an entry at a location. -/
def put (fs : Files) (loc : Location) (e : Entry) : Files :=
  { fs with entries := (loc, e) :: fs.entries.filter fun x => x.1 != loc }

/-- Removes what stands at a location. -/
def drop (fs : Files) (loc : Location) : Files :=
  { fs with entries := fs.entries.filter fun x => x.1 != loc }

/-- Removes a location with everything below it. -/
def dropTree (fs : Files) (loc : Location) : Files :=
  { fs with entries := fs.entries.filter fun x => x.1.take loc.length != loc }

/-- Puts a file with new contents at a location, stamped by the clock. An executable file that
is written again stays executable. -/
def putFile (fs : Files) (loc : Location) (contents : Bytes) : Files :=
  let executable := match fs.at? loc with
    | some (.file _ _ executable) => executable
    | _ => false
  { fs.put loc (.file contents fs.clock executable) with clock := fs.clock.next }

/-! ### From paths to locations -/

/-- The longest name, in bytes. -/
def maxName : Nat := 255

/-- The length in bytes from which on a path is refused as a whole. -/
def maxPath : Nat := 4096

/-- A path that can be looked up at all: not empty, free of NUL and not too long. -/
def checkPath (p : Path) : Except FileError (List Char) :=
  let cs := p.text.toList
  if '\x00' ∈ cs then .error .nulInPath
  else if cs = [] then .error .notFound
  else if maxPath ≤ Path.byteLength cs then .error .nameTooLong
  else .ok cs

/-- One step from a directory; a name need not exist there. -/
def stepTo (fs : Files) (loc : Location) (segment : List Char) : Except FileError Location :=
  if !fs.isDirectoryAt loc then .error .notADirectory
  else if segment = ['.'] then .ok loc
  else if segment = ['.', '.'] then .ok loc.dropLast
  else if maxName < Path.byteLength segment then .error .nameTooLong
  else .ok (loc ++ [String.ofList segment])

/-- Follows segments, each of which has to exist. -/
def walk (fs : Files) : Location → List (List Char) → Except FileError Location
  | loc, [] => .ok loc
  | loc, segment :: rest =>
    match fs.stepTo loc segment with
    | .error e => .error e
    | .ok next => if (fs.at? next).isSome then fs.walk next rest else .error .notFound

/-- The work directory as a path. -/
def currentDirectory (fs : Files) : Path := ⟨"/" ++ "/".intercalate fs.workDir⟩

/-- Where a path text starts. -/
def start (fs : Files) (cs : List Char) : Location :=
  if cs.head? = some '/' then [] else fs.workDir

/-- The segments of a path text that are not empty. -/
def steps (cs : List Char) : List (List Char) := (Path.segments cs).filter (· != [])

/-- Whether a path text ends in a separator, so that it has to name a directory. -/
def endsInSeparator (cs : List Char) : Bool := cs.getLast? == some '/'

/-- The location of an existing file, directory or socket. -/
def locate (fs : Files) (p : Path) : Except FileError Location := do
  let cs ← checkPath p
  let loc ← fs.walk (fs.start cs) (steps cs)
  if endsInSeparator cs && !fs.isDirectoryAt loc then .error .notADirectory else .ok loc

/-- Where an operation on a directory's entry takes place. -/
structure Target where
  /-- The directory; it exists. -/
  directory : Location
  /-- The last segment of the path; `none` for the root. -/
  last : Option (List Char)
  /-- Whether the path ends in a separator. -/
  separated : Bool
  deriving Repr

/-- The directory of the last component, which itself need not exist. -/
def target (fs : Files) (p : Path) : Except FileError Target := do
  let cs ← checkPath p
  let parts := steps cs
  let directory ← fs.walk (fs.start cs) parts.dropLast
  if fs.isDirectoryAt directory then
    .ok ⟨directory, parts.getLast?, endsInSeparator cs⟩
  else .error .notADirectory

/-- The name a target ends in; `none` for the root, `.` and `..`. -/
def Target.name? (t : Target) : Option (List Char) :=
  match t.last with
  | some ['.'] | some ['.', '.'] | none => none
  | some name => some name

/-- The location of a target's name, and what stands there. -/
def entryOf (fs : Files) (t : Target) (name : List Char) :
    Except FileError (Location × Option Entry) := do
  let loc ← fs.stepTo t.directory name
  .ok (loc, fs.at? loc)

/-! ### Looking -/

/-- What stands at a path. -/
def stat (fs : Files) (p : Path) : Except FileError Entry := do
  let loc ← fs.locate p
  match fs.at? loc with
  | some e => .ok e
  | none => .error .notFound

/-- Whether something stands at a path. -/
def exists? (fs : Files) (p : Path) : Bool := (fs.stat p).toBool

/-- Whether a directory stands at a path. -/
def isDirectory (fs : Files) (p : Path) : Bool :=
  match fs.stat p with
  | .ok .directory => true
  | _ => false

/-- The modification time of what stands at a path. Directories and sockets carry the present. -/
def modified (fs : Files) (p : Path) : Except FileError Timestamp :=
  match fs.stat p with
  | .ok (.file _ time _) => .ok time
  | .ok _ => .ok fs.clock
  | .error e => .error e

/-- The contents of a file. -/
def read (fs : Files) (p : Path) : Except FileError Bytes :=
  match fs.stat p with
  | .ok (.file contents _ _) => .ok contents
  | .ok .directory => .error .isADirectory
  | .ok (.socket _) => .error .noSuchDevice
  | .error e => .error e

/-- The contents of a file, as text. -/
def readText (fs : Files) (p : Path) : Except FileError String :=
  match fs.read p with
  | .ok contents =>
    match contents.toString? with
    | some text => .ok text
    | none => .error .notText
  | .error e => .error e

/-! ### Changing -/

/-- Where a file can be opened for writing: the location of a file or of nothing. -/
def writable (fs : Files) (p : Path) : Except FileError Location := do
  let t ← fs.target p
  match t.name? with
  | none => .error .isADirectory
  | some name =>
    let (loc, entry) ← fs.entryOf t name
    if t.separated then .error .isADirectory
    else
      match entry with
      | some .directory => .error .isADirectory
      | some (.socket _) => .error .noSuchDevice
      | _ => .ok loc

/-- Opens a file for writing: creates it, or empties the one that is there. -/
def create (fs : Files) (p : Path) : Except FileError Files := do
  let loc ← fs.writable p
  .ok (fs.putFile loc [])

/-- Writes more bytes at the end of a file. -/
def append (fs : Files) (p : Path) (more : Bytes) : Except FileError Files := do
  let loc ← fs.writable p
  let old := match fs.at? loc with
    | some (.file contents _ _) => contents
    | _ => []
  .ok (fs.putFile loc (old ++ more))

/-- Writes a whole file. -/
def write (fs : Files) (p : Path) (contents : Bytes) : Except FileError Files := do
  let loc ← fs.writable p
  .ok (fs.putFile loc contents)

/-- Creates one directory. -/
def createDirectory (fs : Files) (p : Path) : Except FileError Files := do
  let t ← fs.target p
  match t.name? with
  | none => .error .alreadyExists
  | some name =>
    let (loc, entry) ← fs.entryOf t name
    if entry.isSome then .error .alreadyExists else .ok (fs.put loc .directory)

/-- Creates a directory and, where they are missing, those above it: the tree reached, and the
failure that stopped it. A path has fewer ancestors than characters, which bounds `fuel`. -/
def createDirectoriesWithin : Nat → Files → Path → Option FileError × Files
  | 0, fs, _ => (none, fs)
  | fuel + 1, fs, p =>
    if p.text = "" then (none, fs)
    else
      match fs.createDirectory p with
      | .ok made => (none, made)
      | .error .notFound =>
        match p.parent? with
        | none => (some (.other "failed to create whole tree"), fs)
        | some above =>
          match createDirectoriesWithin fuel fs above with
          | (some e, made) => (some e, made)
          | (none, made) =>
            match made.createDirectory p with
            | .ok done => (none, done)
            | .error e => if made.isDirectory p then (none, made) else (some e, made)
      | .error e => if fs.isDirectory p then (none, fs) else (some e, fs)

/-- Creates a directory and those above it. -/
def createDirectories (fs : Files) (p : Path) : Option FileError × Files :=
  createDirectoriesWithin (p.text.length + 1) fs p

/-- Moves a file to another path, replacing a file there. -/
def rename (fs : Files) (source destination : Path) : Except FileError Files := do
  let s ← fs.target source
  let d ← fs.target destination
  match s.name?, d.name? with
  | some sourceName, some destinationName =>
    let (sourceLoc, sourceEntry) ← fs.entryOf s sourceName
    let (destinationLoc, destinationEntry) ← fs.entryOf d destinationName
    match sourceEntry with
    | none => .error .notFound
    | some moved =>
      if moved ≠ .directory ∧ (s.separated ∨ d.separated) then .error .notADirectory
      else if sourceLoc = destinationLoc then .ok fs
      else if moved ≠ .directory ∧ destinationEntry = some .directory then .error .isADirectory
      else .ok ((fs.drop sourceLoc).put destinationLoc moved)
  | _, _ => .error .busy

/-- Removes a file or socket. -/
def remove (fs : Files) (p : Path) : Except FileError Files := do
  let t ← fs.target p
  match t.name? with
  | none => .error .isADirectory
  | some name =>
    let (loc, entry) ← fs.entryOf t name
    match entry with
    | none => .error .notFound
    | some .directory => .error .isADirectory
    | some _ => if t.separated then .error .notADirectory else .ok (fs.drop loc)

/-- Removes a file, or a directory with all it holds. -/
def removeTree (fs : Files) (p : Path) : Except FileError Files := do
  let loc ← fs.locate p
  .ok (fs.dropTree loc)

/-- Sets the modification time of a file. -/
def setModified (fs : Files) (p : Path) (time : Timestamp) : Except FileError Files := do
  let loc ← fs.locate p
  match fs.at? loc with
  | some (.file contents _ executable) => .ok (fs.put loc (.file contents time executable))
  | some _ => .ok fs
  | none => .error .notFound

/-- Marks a file as executable. -/
def markExecutable (fs : Files) (p : Path) : Except FileError Files := do
  let loc ← fs.locate p
  match fs.at? loc with
  | some (.file contents time _) => .ok (fs.put loc (.file contents time true))
  | some _ => .ok fs
  | none => .error .notFound

/-- Everything below a location, as texts relative to it; directories end in a separator. -/
def below (fs : Files) (loc : Location) : List String :=
  let inside := fs.entries.filter fun x =>
    loc.length < x.1.length && x.1.take loc.length == loc
  let named := inside.map fun x =>
    let text := "/".intercalate (x.1.drop loc.length)
    if x.2 == .directory then text ++ "/" else text
  named.mergeSort fun a b => decide (a ≤ b)

end Files
end IncrementalBuild
