import IncrementalBuild.Host.Executable
import IncrementalBuild.Host.Shell.State
/-!
# Opening files

How the files of redirections and of the tools' arguments are opened.

## Main definitions

* `Shell.State.openInput`, `Shell.State.openOutput` — what a path leads to.
* `Shell.State.contents` — what a path holds.
* `Shell.Purpose`, `Shell.describe` — the words the shell has for a failure.

Some paths lead where a descriptor of the process leads.
-/

namespace IncrementalBuild.Shell

/-- The descriptor that a path stands for. -/
def descriptorAt? (p : Text) : Option Nat :=
  match String.ofList p with
  | "/dev/stdin" => some 0
  | "/dev/stdout" => some 1
  | "/dev/stderr" => some 2
  | s =>
    let digits := ["/dev/fd/", "/proc/self/fd/"].findSome? fun start =>
      if start.toList.isPrefixOf s.toList then some (p.drop start.length) else none
    match digits with
    | some ds => if isNatural ds then some (valueOf ds) else none
    | none => none

namespace State

/-- Whether a path leads to the file that swallows what is written. -/
def isNull (st : State) (p : Text) : Bool :=
  match st.files.locate (Text.toPath p) with
  | .ok place => place == Program.nullPlace
  | .error _ => false

/-- Opens a path for reading under a descriptor. -/
def openInput (st : State) (descriptor : Nat) (p : Text) : Except FileError State :=
  match descriptorAt? p with
  | some n =>
    if (st.target? n).isSome then .ok (st.duplicate descriptor n) else .error .notFound
  | none =>
    if st.isNull p then .ok (st.openAs descriptor .null)
    else
      match st.files.stat (Text.toPath p) with
      | .ok (.file contents _ _) =>
        .ok (st.openAs descriptor (.source (Text.ofBytes contents) true))
      | .ok .directory => .ok (st.openAs descriptor .directory)
      | .ok (.socket _) => .error .noSuchDevice
      | .error e => .error e

/-- How a file is opened for writing. -/
inductive Opening
  /-- It is emptied. -/
  | over
  /-- It must not be there yet, unless it is no ordinary file. -/
  | fresh
  /-- It is written at its end. -/
  | atEnd
  /-- It is kept. -/
  | kept
  deriving DecidableEq, Repr

/-- Opens a path for writing under a descriptor. -/
def openOutput (st : State) (descriptor : Nat) (how : Opening) (p : Text) :
    Except FileError State :=
  match descriptorAt? p with
  | some n =>
    if (st.target? n).isSome then .ok (st.duplicate descriptor n) else .error .notFound
  | none =>
    if st.isNull p then .ok (st.openAs descriptor .null)
    else
      let path := Text.toPath p
      let there := match st.files.stat path with
        | .ok (.file _ _ _) => true
        | _ => false
      if how == .fresh && there then .error .alreadyExists
      else do
        let keeps := there && (how == .atEnd || how == .kept)
        let files ← if keeps then (st.files.writable path).map fun _ => st.files
          else (st.files.create path).map (st.files.spread st.names path)
        let place ← files.locate path
        let opened : OpenFile := if how == .atEnd then .fileEnd place else .file place 0
        return { st with files }.openAs descriptor opened

/-- What a path holds, where a descriptor's path holds what is left to read there. -/
def contents (st : State) (p : Text) : Except FileError Text × State :=
  match descriptorAt? p with
  | some n =>
    match st.target? n with
    | none => (.error .notFound, st)
    | some .directory => (.error .isADirectory, st)
    | some _ =>
      let (cs, st) := st.readAll n
      (.ok cs, st)
  | none =>
    if st.isNull p then (.ok [], st)
    else ((st.files.read (Text.toPath p)).map Text.ofBytes, st)

end State

/-! ### Failures -/

/-- What a file was wanted for. -/
inductive Purpose
  | reading
  | creating
  | running
  deriving DecidableEq, Repr

/-- The words for a failure of the host. -/
def cause (e : FileError) : Text := lit ((e.code?.map Prod.snd).getD e.message)

/-- The shell's words for a failure. -/
def describe (purpose : Purpose) (e : FileError) : Text :=
  match e with
  | .notFound | .notADirectory =>
    lit (match purpose with
      | .reading => "No such file"
      | .creating => "Directory nonexistent"
      | .running => "not found")
  | _ => cause e

end IncrementalBuild.Shell
