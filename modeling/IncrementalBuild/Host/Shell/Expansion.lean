import IncrementalBuild.Host.Shell.Fields
import IncrementalBuild.Host.Shell.State
/-!
# Expansion

The parts of the expansion of words that run no commands.

## Main definitions

* `Shell.Word.withHomes` — a word with home directories in place of tildes.
* `Shell.Word.withoutArgumentMarks` — a word where the arguments of the script may vanish.
* `Shell.Expansion` — an expanded word while it is put together.
* `Shell.State.valueSegment?` — the value of a parameter with how it is split.
-/

namespace IncrementalBuild.Shell

/-! ### Tildes -/

/-- Where tildes stand for home directories. -/
inductive Tildes
  | nowhere
  | atStart
  /-- At the start and behind colons. -/
  | inValue
  deriving DecidableEq, Repr

/-- The home directory of a user; without a name, that of the script's own user. -/
def State.home? (st : State) (user : Text) : Option Text :=
  if user.isEmpty then st.value? (lit "HOME")
  else if user == lit "root" then some (lit "/root")
  else none

/-- Whether a piece ends the name behind a tilde. -/
def endsUser (inValue : Bool) : Piece → Bool
  | .character c false => c == '/' || (inValue && c == ':')
  | _ => false

/-- Whether a piece can be part of the name behind a tilde. -/
def isOfUser (inValue : Bool) : Piece → Bool
  | .character c false => !(c == '/' || (inValue && c == ':'))
  | _ => false

/-- A word with home directories in place of tildes. -/
def Word.withHomesFrom (st : State) (inValue : Bool) : Nat → (here : Bool) → Word → Word
  | 0, _, w => w
  | _ + 1, _, [] => []
  | fuel + 1, here, p :: rest =>
    let isTilde := match p with
      | .character c false => c == '~'
      | _ => false
    if here && isTilde then
      let user := rest.takeWhile (isOfUser inValue)
      let after := rest.drop user.length
      let home := if after.isEmpty || after.head?.any (endsUser inValue) then
          st.home? (Word.characters user)
        else none
      match home with
      | some cs =>
        (cs.map fun c => .character c true) ++ withHomesFrom st inValue fuel false after
      | none => p :: withHomesFrom st inValue fuel false rest
    else
      let colon := match p with
        | .character c false => c == ':'
        | _ => false
      p :: withHomesFrom st inValue fuel (inValue && colon) rest

/-- A word with home directories in place of tildes. -/
def Word.withHomes (st : State) (tildes : Tildes) (w : Word) : Word :=
  match tildes with
  | .nowhere => w
  | .atStart => Word.withHomesFrom st false (w.length + 1) true w
  | .inValue => Word.withHomesFrom st true (w.length + 1) true w

/-! ### Arguments -/

/-- A word without the quotation marks around the arguments of the script, so that nothing is left
of it if there are none. `inside` says whether it starts inside quotes. -/
def Word.withoutArgumentMarks (inside : Bool) : Word → Word
  | [] => []
  | .mark :: .parameter ['@'] .plain true :: .mark :: rest =>
    if inside then
      .mark :: .parameter ['@'] .plain true :: .mark :: withoutArgumentMarks inside rest
    else .parameter ['@'] .plain true :: withoutArgumentMarks inside rest
  | .mark :: rest => .mark :: withoutArgumentMarks (!inside) rest
  | p :: rest => p :: withoutArgumentMarks inside rest

/-! ### Putting words together -/

/-- How a word is expanded. -/
structure Manner where
  /-- Whether it may become several fields. -/
  splits : Bool
  /-- Whether what stands unquoted in it may be split too, as in braces. -/
  inBraces : Bool := false

/-- An expanded word while it is put together: the finished segments, the latest first, and the
literal one in progress, in reverse. -/
structure Expansion where
  done : List Segment := []
  marks : Marked := []
  splitting : Splitting := .never

namespace Expansion

/-- Finishes the literal segment. -/
def flush (x : Expansion) : Expansion :=
  if x.marks.isEmpty then x
  else
    { x with
      done := { marks := x.marks.reverse, splitting := x.splitting } :: x.done
      marks := [] }

/-- Adds a literal part. -/
def literal (x : Expansion) (m : Mark) (splitting : Splitting) : Expansion :=
  if x.splitting == splitting then { x with marks := m :: x.marks }
  else { x.flush with marks := [m], splitting }

/-- Adds segments. -/
def add (x : Expansion) (segments : List Segment) : Expansion :=
  let y := x.flush
  { y with done := segments.reverse ++ y.done }

/-- The segments. -/
def segments (x : Expansion) : List Segment := x.flush.done.reverse

end Expansion

/-- The segment that a value makes. -/
def Segment.ofValue (quoted : Bool) (cs : Text) : Segment :=
  { marks := Marked.ofText quoted cs, splitting := if quoted then .never else .atSeparators }

/-- Whether a parameter stands for all arguments. -/
def isList (name : Text) : Bool := name == ['@'] || name == ['*']

/-- What stands between arguments that are joined. -/
def State.joint (st : State) : Text :=
  match st.bindings.lookup (lit "IFS") with
  | some { value := some cs, .. } => cs.take 1
  | _ => [' ']

/-- The value of a parameter with how it is split, if it has one. -/
def State.valueSegment? (st : State) (m : Manner) (name : Text) (quoted : Bool) : Option Segment :=
  if isList name then
    let apart := m.splits && (!quoted || name == ['@'])
    let joint := if apart then [Fields.nul] else st.joint
    let splitting : Splitting :=
      if !quoted then .atSeparators
      else if apart && !st.arguments.isEmpty then .atNul
      else .never
    some { marks := Marked.ofText quoted (Text.joinWith joint st.arguments), splitting }
  else (st.parameter? name).map (Segment.ofValue quoted)

end IncrementalBuild.Shell
