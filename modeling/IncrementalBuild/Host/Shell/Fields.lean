import IncrementalBuild.Host.Shell.Pattern
import IncrementalBuild.Host.Files
/-!
# Fields

What an expanded word becomes: it is split into fields where expansions hold separators, and a
field with a pattern becomes the names of the files that match it.

## Main definitions

* `Shell.Segment` — a part of an expanded word, with how it may be split.
* `Shell.Fields.split` — the fields of an expanded word.
* `Shell.Fields.splitInto` — the fields of a line that is read into variables.
* `Shell.Fields.names` — the file names that a field with a pattern stands for.

## Separators

White space among the separators ends a field together with what white space is around it, any
other separator ends a field by itself. A separator at the end begins no further field. Where the
arguments of a script are expanded one by one, they stay apart by a NUL, which no value holds.
-/

namespace IncrementalBuild.Shell

/-- How a part of an expanded word is split. -/
inductive Splitting
  /-- Not at all. -/
  | never
  /-- At separators. -/
  | atSeparators
  /-- Between the arguments it is made of. -/
  | atNul
  deriving DecidableEq, Repr

/-- A part of an expanded word. -/
structure Segment where
  marks : Marked
  splitting : Splitting := .never

namespace Fields

/-- The character between arguments that stay apart. -/
def nul : Char := '\x00'

/-- Whether a separator is white space; what stands between unquoted arguments counts as such. -/
def isWhite (c : Char) : Bool := c == ' ' || c == '\t' || c == '\n' || c == nul

/-- Fields while they are put together. -/
structure Splitter where
  /-- The finished fields, the latest first. -/
  done : List Marked := []
  /-- The field in progress, in reverse. -/
  current : Marked := []
  /-- Whether the last separator was white space. -/
  white : Bool := false
  /-- Whether a field has just ended, so that further separators may belong to its end. -/
  ended : Bool := false
  /-- Whether the last segment was split at NULs. -/
  nulOnly : Bool := false

namespace Splitter

/-- Adds one character of a segment that is split at `separators`. -/
def step (separators : Text) (keepsWhite nulOnly : Bool) (s : Splitter) (m : Mark) : Splitter :=
  match m with
  | .quote => { s with current := m :: s.current, ended := false }
  | .character c _ =>
    if !separators.contains c then { s with current := m :: s.current, ended := false }
    else if s.ended && isWhite c then s
    else if s.ended && s.white then { s with white := false }
    else
      let white := if keepsWhite then s.white else isWhite c
      if s.current.isEmpty && white then { s with white, ended := false }
      else { s with
        done := s.current.reverse :: s.done, current := [], white, ended := !nulOnly }

/-- Adds a segment. -/
def add (separators : Text) (s : Splitter) (segment : Segment) : Splitter :=
  match segment.splitting with
  | .never => { s with current := segment.marks.reverse ++ s.current }
  | splitting =>
    let nulOnly := splitting == .atNul
    let separators := if nulOnly then [nul] else nul :: separators
    let before := { s with white := false, ended := false }
    let after := segment.marks.foldl (step separators (s.nulOnly || nulOnly) nulOnly) before
    { after with nulOnly, ended := false }

end Splitter

/-- The fields of an expanded word. -/
def split (separators : Text) (segments : List Segment) : List Marked :=
  let s := segments.foldl (Splitter.add separators) {}
  let all := if s.nulOnly || !s.current.isEmpty then s.current.reverse :: s.done else s.done
  all.reverse

/-! ### Reading into variables -/

/-- What is left for the last of several variables: the text without white separators at its end
and, if only one separator follows the field, without that one. `kept` is what is certain to stay,
in reverse, and `loose` what goes if nothing follows it. -/
def lastField (separators : Text) : (kept loose : Text) → (white : Bool) → List (Char × Bool) → Text
  | kept, _, _, [] => kept.reverse
  | kept, loose, white, (c, escaped) :: rest =>
    let separates := !escaped && separators.contains c
    if separates && isWhite c then lastField separators kept (c :: loose) white rest
    else if separates && white then lastField separators kept (c :: loose) false rest
    else lastField separators (c :: loose ++ kept) [] false rest

/-- The fields of a line for `count` variables, the last of which takes all that is left.
Characters that are marked as escaped separate nothing. -/
def splitInto (separators : Text) : Nat → (count : Nat) → List (Char × Bool) → List Text
  | 0, _, _ => []
  | fuel + 1, count, line =>
    let separates (c : Char × Bool) : Bool := !c.2 && separators.contains c.1
    let white (c : Char × Bool) : Bool := separates c && isWhite c.1
    let line := line.dropWhile white
    if line.isEmpty then []
    else
      let field := line.takeWhile fun c => !separates c
      let rest := line.drop field.length
      match count with
      | 0 => []
      | 1 =>
        match rest with
        | [] => [field.map Prod.fst]
        | c :: more =>
          [lastField separators (field.map Prod.fst).reverse [c.1] (white c) more]
      | count + 1 =>
        match rest with
        | [] => [field.map Prod.fst]
        | c :: more =>
          -- White space around another separator belongs to it.
          let more := more.dropWhile white
          let more := match white c, more with
            | true, d :: others => if separates d then others.dropWhile white else more
            | _, _ => more
          field.map Prod.fst :: splitInto separators fuel count more

/-! ### File names -/

/-- Whether an unquoted character makes a field a pattern. -/
def isPattern (m : Marked) : Bool :=
  m.any fun
    | .character c quoted => !quoted && (c == '*' || c == '?' || c == '[')
    | .quote => false

/-- The names in a directory, with the two that every directory has. -/
def entries (files : Files) (directory : Text) : List Text :=
  let p : Path := if directory.isEmpty then ⟨"."⟩ else Text.toPath directory
  match files.locate p with
  | .error _ => []
  | .ok place =>
    if files.isDirectoryAt place then
      let names := files.entries.filterMap fun e =>
        if e.1.length == place.length + 1 && e.1.take place.length == place then
          e.1.getLast?.map Text.ofString
        else none
      ['.'] :: ['.', '.'] :: names
    else []

/-- The parts of a field between slashes. -/
def parts : Marked → List Marked
  | [] => [[]]
  | .character '/' _ :: rest => [] :: parts rest
  | m :: rest =>
    match parts rest with
    | [] => [[m]]
    | first :: others => (m :: first) :: others

/-- The paths that parts of a field match, after a path that is given. -/
def matching (files : Files) : Text → List Marked → List Text
  | before, [] => [before]
  | before, part :: rest =>
    let names : List Text :=
      if isPattern part then
        let pattern := Glob.ofMarked part
        let hidden := part.text.head? == some '.'
        (entries files before).filter fun name =>
          (hidden || name.head? != some '.') && Glob.matchesAll pattern name
      else [part.text]
    names.flatMap fun name =>
      let found := before ++ name
      if rest.isEmpty then
        if files.exists? (Text.toPath (if found.isEmpty then ['.'] else found)) then [found] else []
      else matching files (found ++ ['/']) rest

/-- The file names that a field with a pattern stands for, in order; a field that no file matches
stands for itself. -/
def names (files : Files) (field : Marked) : List Text :=
  if isPattern field then
    match (matching files [] (parts field)).mergeSort fun a b => !Text.before b a with
    | [] => [field.text]
    | found => found
  else [field.text]

end Fields
end IncrementalBuild.Shell
