import IncrementalBuild.Host.Shell.Text
/-!
# Words and commands of the shell

What a script consists of once it has been read.

## Main definitions

* `Shell.Piece` — a part of a word: a character, a quotation mark, or an expansion.
* `Shell.Use` — what an expansion in braces does with the value of its parameter.
* `Shell.Redirection` — where a descriptor of a command leads.
* `Shell.Command` — what a script does.

Commands occur in words, since a word may hold the output of a script, and words occur in commands.
-/

namespace IncrementalBuild.Shell

/-- Where a redirection leads. -/
inductive Direction
  /-- From a file. -/
  | input
  /-- To a file that is emptied first, unless that is forbidden for files that are there. -/
  | output
  /-- To a file that is emptied first. -/
  | outputOver
  /-- To the end of a file. -/
  | appendTo
  /-- From and to a file that is kept. -/
  | inputOutput
  /-- To where another descriptor leads; the flag says whether it was written with `<`. -/
  | duplicate (reading : Bool)
  /-- From the text that follows in the script, under the number it has there. -/
  | document (number : Nat)
  deriving DecidableEq, Repr

mutual

/-- A part of a word. -/
inductive Piece
  | character (c : Char) (quoted : Bool)
  /-- A quotation mark that begins or ends a quoted part. -/
  | mark
  /-- The value of a parameter. -/
  | parameter (name : List Char) (use : Use) (quoted : Bool)
  /-- The output of a script. -/
  | output (body : Command) (quoted : Bool)
  /-- The value of an arithmetic expression. -/
  | arithmetic (body : List Piece) (quoted : Bool)

/-- What is done with the value of a parameter. -/
inductive Use
  /-- The value itself. -/
  | plain
  /-- The number of bytes of the value. -/
  | length
  /-- The value without the shortest or longest part at an end that matches a pattern. -/
  | trim (atEnd longest : Bool) (pattern : List Piece)
  /-- Another word where the value is missing, or also where it is empty. -/
  | orElse (alsoEmpty : Bool) (word : List Piece)
  /-- Another word where there is a value, or a value that is not empty. -/
  | instead (alsoEmpty : Bool) (word : List Piece)
  /-- Another word, which the parameter is set to, where the value is missing. -/
  | assign (alsoEmpty : Bool) (word : List Piece)
  /-- A failure with a word as its message where the value is missing. -/
  | require (alsoEmpty : Bool) (word : List Piece)
  /-- No known use. -/
  | unknown

/-- Where a descriptor of a command leads. -/
inductive Redirection
  | mk (descriptor : Nat) (direction : Direction) (argument : List Piece)

/-- What a script does. Commands that report errors know the number of their line. -/
inductive Command
  /-- Assignments, words and redirections. -/
  | simple (line : Nat) (assignments words : List (List Piece)) (redirections : List Redirection)
  | redirected (line : Nat) (body : Command) (redirections : List Redirection)
  /-- A command in a copy of the shell. -/
  | apart (line : Nat) (body : Command) (redirections : List Redirection)
  /-- A command that is not waited for. -/
  | background (line : Nat) (body : Command) (redirections : List Redirection)
  | pipe (stages : List Command)
  | sequence (first second : Command)
  | both (first second : Command)
  | either (first second : Command)
  | negated (body : Command)
  | ifThen (condition thenBody elseBody : Command)
  | loop (whileTrue : Bool) (condition body : Command)
  | forEach (line : Nat) (name : List Char) (items : List (List Piece)) (body : Command)
  | choose (line : Nat) (subject : List Piece) (branches : List (List (List Piece) × Command))
  /-- Defines a function. -/
  | define (line : Nat) (name : List Char) (body : Command)
  | nothing

end

/-- A word of a script before expansion. -/
abbrev Word := List Piece

/-- The pieces of a text without quotes. -/
def Word.ofText (cs : Text) : Word := cs.map fun c => .character c false

/-- Whether a part of a word is quoted. -/
def Word.isQuoted (w : Word) : Bool :=
  w.any fun
    | .mark => true
    | .character _ quoted => quoted
    | _ => false

/-- The characters of a word, the quotation marks left out, as far as it has no expansions. -/
def Word.characters (w : Word) : Text :=
  w.filterMap fun
    | .character c _ => some c
    | _ => none

/-- The text of a word without quotes and expansions. -/
def Word.bare? (w : Word) : Option Text :=
  w.mapM fun
    | .character c false => some c
    | _ => none

/-- The name and the value of an assignment, if a word is one. -/
def Word.assignment? (w : Word) : Option (Text × Word) :=
  let name := w.takeWhile fun
    | .character c false => continuesName c
    | _ => false
  match Word.bare? name, w.drop name.length with
  | some (c :: cs), .character '=' false :: value =>
    if startsName c then some (c :: cs, value) else none
  | _, _ => none

end IncrementalBuild.Shell
