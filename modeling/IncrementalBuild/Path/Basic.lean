import IncrementalBuild.Text.Blank
/-!
# Paths

A path is kept as the text it was given as and compared by what it names: its components.
Repeated and trailing separators and inner `.` segments do not count, `..` is kept.

## Main definitions

* `Path.components` — the root, a leading `.`, every `..` and every name, in order.
* `Path.key` — the components as numbers, so that comparing keys orders paths: the root comes
  before `.`, that before `..`, that before names, and names go by code points. A path comes
  before the paths that extend it.
* `Path.same`, `Path.before` — equality and order of paths.
* `Path.join`, `Path.parent?`, `Path.fileName?`, `Path.stem?`, `Path.withExtension` — the usual
  operations; each returns the text it found or built, never a normalised one.
-/

namespace IncrementalBuild

/-- One step of a path. -/
inductive Component
  /-- The root directory. -/
  | root
  /-- The current directory, where a relative path starts with `.`. -/
  | here
  /-- The parent directory, `..`. -/
  | up
  /-- A file or directory name. -/
  | name (text : List Char)
  deriving DecidableEq, Repr

namespace Component

/-- The component that a segment between two separators stands for, if any. -/
def ofSegment? : List Char → Option Component
  | [] => none
  | ['.'] => none
  | ['.', '.'] => some .up
  | segment => some (.name segment)

/-- A component as a sequence of numbers, in the order of components. -/
def code : Component → List Nat
  | .root => [0]
  | .here => [1]
  | .up => [2]
  | .name text => 3 :: text.map Char.toNat

/-- A name, if the component is one. -/
def name? : Component → Option (List Char)
  | .name text => some text
  | _ => none

end Component

/-- A path, as the text it was given as. -/
structure Path where
  /-- The text of the path. -/
  text : String
  deriving DecidableEq, Repr, Inhabited

namespace Path

/-- The segments between separators. -/
def segments (cs : List Char) : List (List Char) := Blank.pieces (· == '/') cs

/-- The components of a path text. -/
def componentsOf : List Char → List Component
  | '/' :: rest => .root :: (segments rest).filterMap Component.ofSegment?
  | cs =>
    match segments cs with
    | ['.'] :: rest => .here :: rest.filterMap Component.ofSegment?
    | parts => parts.filterMap Component.ofSegment?

/-- The components of a path. -/
def components (p : Path) : List Component := componentsOf p.text.toList

/-! ### Equality and order -/

/-- The components of a path as numbers; paths are compared by their keys. -/
def key (p : Path) : List (List Nat) := p.components.map Component.code

/-- Whether two paths have the same components. -/
def same (p q : Path) : Bool := p.components == q.components

/-- Whether `p` comes strictly before `q`. -/
def before (p q : Path) : Bool := decide (p.key < q.key)

/-- Whether `q` does not come before `p`. -/
def notAfter (p q : Path) : Bool := !q.before p

/-! ### Building and taking apart -/

/-- Whether a path starts at the root. -/
def isAbsolute (p : Path) : Bool := p.text.toList.head? == some '/'

/-- The text `b` read relative to the text `a`. -/
def joinText (a b : List Char) : List Char :=
  if b.head? = some '/' then b
  else if a = [] ∨ a.getLast? = some '/' then a ++ b
  else a ++ '/' :: b

/-- The path `q` read relative to `p`; an absolute `q` stands for itself. -/
def join (p q : Path) : Path := ⟨String.ofList (joinText p.text.toList q.text.toList)⟩

/-- The path with `suffix` written after its text. -/
def appendText (p : Path) (suffix : String) : Path := ⟨p.text ++ suffix⟩

/-- The last component, if it is a name. -/
def fileNameOf? (cs : List Char) : Option (List Char) :=
  (componentsOf cs).getLast?.bind Component.name?

/-- The last component, if it is a name. -/
def fileName? (p : Path) : Option String := (fileNameOf? p.text.toList).map String.ofList

/-- A file name cut at its last dot: the stem and the extension. A dot at the front does not
count, so a name may be all stem. -/
def splitName (name : List Char) : List Char × Option (List Char) :=
  let extension := (name.reverse.takeWhile (· != '.')).reverse
  let stem := name.take (name.length - extension.length - 1)
  if stem = [] then (name, none) else (stem, some extension)

/-- The file name up to its last dot. -/
def stem? (p : Path) : Option String :=
  (fileNameOf? p.text.toList).map fun name => String.ofList (splitName name).1

/-- Whether a segment stands for no component. -/
def isTrivial (segment : List Char) : Bool := segment == [] || segment == ['.']

/-- Segments without the trivial ones at the end. The first segment stays: an empty one is the
root, and a leading `.` is a component. -/
def trimEnd : List (List Char) → List (List Char)
  | [] => []
  | first :: rest => first :: (rest.reverse.dropWhile isTrivial).reverse

/-- Segments written with separators between them. -/
def joinSegments (parts : List (List Char)) : List Char := ['/'].intercalate parts

/-- The path without its last component; `none` for the root and for the empty path. -/
def parentOf? (cs : List Char) : Option (List Char) :=
  match trimEnd (segments cs) with
  | [] => none
  | [first] => if first = [] then none else some []
  | parts =>
    match trimEnd parts.dropLast with
    | [[]] => some ['/']
    | dir => some (joinSegments dir)

/-- The path without its last component; `none` for the root and for the empty path. -/
def parent? (p : Path) : Option Path :=
  (parentOf? p.text.toList).map fun cs => ⟨String.ofList cs⟩

/-- The number of bytes of a text in UTF-8. -/
def byteLength : List Char → Nat
  | [] => 0
  | c :: cs => c.utf8Size + byteLength cs

/-- A path text with another extension: what follows the stem of the last name is replaced.
Without a file name nothing is added. Neither is it when the stem is a dot and the name ends the
text: without its old extension that name is `..`, and such a name stays as it is. -/
def withExtensionText (cs extension : List Char) : List Char :=
  match fileNameOf? cs with
  | none => cs
  | some name =>
    let parts := segments cs
    let kept := trimEnd parts
    let stem := (splitName name).1
    let ending := if extension = [] then [] else '.' :: extension
    let replaced := if stem = ['.'] ∧ kept.length = parts.length then ['.', '.'] else stem ++ ending
    joinSegments (kept.dropLast ++ [replaced])

/-- The path with another extension. -/
def withExtension (p : Path) (extension : String) : Path :=
  ⟨String.ofList (withExtensionText p.text.toList extension.toList)⟩

end Path
end IncrementalBuild
