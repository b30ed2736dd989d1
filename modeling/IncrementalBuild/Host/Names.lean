import IncrementalBuild.Host.Files
/-!
# Files with several names

A file can have several names. The tree has an entry for each of them, and which of them are names
of one file is kept beside the tree. What is written under one name is shown by all; a name that is
moved or removed leaves the file to the others.

## Main definitions

* `Names` — which locations are names of one file.
* `Names.others`, `Names.spread` — the other names of a file, and a tree after a file was written.
* `Names.link`, `Names.move` — a file gets another name.
* `Files.spread`, `Files.oneFile` — the same for paths.
-/

namespace IncrementalBuild

/-- Which locations are names of one file: a list of them for each file that got a second name. -/
abbrev Names := List (List Location)

namespace Names

/-- The names that files at a location were given. -/
def family (names : Names) (loc : Location) : List Location :=
  (names.filter fun group => group.contains loc).flatten

/-- The other names of the file at a location. Names of one file show the same; one that does not
was given to another file since. -/
def others (names : Names) (fs : Files) (loc : Location) : List Location :=
  match fs.at? loc with
  | some (.file _ _ _) =>
    (names.family loc).filter fun other => other != loc && fs.at? other == fs.at? loc
  | _ => []

/-- A tree after the file at a location was written: its other names show what it holds now. -/
def spread (names : Names) (fs : Files) (loc : Location) (written : Files) : Files :=
  match written.at? loc with
  | some e => (names.others fs loc).foldl (fun tree other => tree.put other e) written
  | none => written

/-- The file at a location gets another name. -/
def link (names : Names) (loc other : Location) : Names :=
  (other :: loc :: names.family loc) :: names

/-- The file at a location is moved to another one. -/
def move (names : Names) (loc other : Location) : Names :=
  names.map fun group => if group.contains loc then other :: group else group

end Names

namespace Files

/-- A tree after the file at a path was written: its other names show what it holds now. -/
def spread (names : Names) (p : Path) (fs written : Files) : Files :=
  match fs.locate p with
  | .ok loc => names.spread fs loc written
  | .error _ => written

/-- Whether two paths are names of one file. -/
def oneFile (names : Names) (p q : Path) (fs : Files) : Bool :=
  match fs.locate p, fs.locate q with
  | .ok loc, .ok other => (names.others fs loc).contains other
  | _, _ => false

end Files
end IncrementalBuild
