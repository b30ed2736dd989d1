/-!
# Blanks, lines and pieces

Cutting a text into parts: at its blank ends, at its line ends, at separators.

## Main definitions

* `Blank.isBlank` — the characters with the Unicode property `White_Space`.
* `Blank.trim` — a text without the blanks at its ends.
* `Blank.lines` — the lines of a text; a line ends at a line feed, and a carriage return right
  before that line feed belongs to the line end.
* `Blank.pieces` — what stands between separators; there is always one piece more than there
  are separators.
-/

namespace IncrementalBuild.Blank

/-- Code ranges of the Unicode property `White_Space`, in ascending order. -/
def ranges : List (Nat × Nat) :=
  [(0x09, 0x0D), (0x20, 0x20), (0x85, 0x85), (0xA0, 0xA0), (0x1680, 0x1680), (0x2000, 0x200A),
   (0x2028, 0x2029), (0x202F, 0x202F), (0x205F, 0x205F), (0x3000, 0x3000)]

/-- Whether a character has the property `White_Space`. -/
def isBlank (c : Char) : Bool := ranges.any fun r => r.1 ≤ c.toNat && c.toNat ≤ r.2

/-- Drops the characters at both ends that satisfy `p`. -/
def trimWhere (p : Char → Bool) (cs : List Char) : List Char :=
  ((cs.dropWhile p).reverse.dropWhile p).reverse

/-- A text without the blanks at its ends. -/
def trim (cs : List Char) : List Char := trimWhere isBlank cs

/-- What stands between the characters that satisfy `sep`. -/
def pieces (sep : Char → Bool) : List Char → List (List Char)
  | [] => [[]]
  | c :: cs =>
    if sep c then [] :: pieces sep cs
    else
      match pieces sep cs with
      | [] => [[c]]
      | piece :: rest => (c :: piece) :: rest

/-- There is always a first piece. -/
theorem pieces_ne_nil (sep : Char → Bool) (cs : List Char) : pieces sep cs ≠ [] := by
  cases cs with
  | nil => simp [pieces]
  | cons c cs =>
    unfold pieces
    split
    · simp
    · split <;> simp

/-- Removes one carriage return at the end. -/
def dropReturn (line : List Char) : List Char :=
  if line.getLast? = some '\r' then line.dropLast else line

/-- Lines of a text cut at every line feed: all but the last piece were ended by one, and an
empty last piece is no line. -/
def linesOfPieces : List (List Char) → List (List Char)
  | [] => []
  | [last] => if last.isEmpty then [] else [last]
  | line :: rest => dropReturn line :: linesOfPieces rest

/-- The lines of a text, without their ends. -/
def lines (cs : List Char) : List (List Char) := linesOfPieces (pieces (· == '\n') cs)

end IncrementalBuild.Blank
