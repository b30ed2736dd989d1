import IncrementalBuild.Host.Shell.Opening
/-!
# Options of tools

How the arguments of the host's tools are read: options may stand between other arguments, letters
may be joined, and long names may be cut as long as they stay unique.

## Main definitions

* `Shell.Tool.Switch` — an option of a tool.
* `Shell.Tool.read` — the options and operands among arguments.
* `Shell.Tool.complain`, `Shell.Tool.misused` — the messages of tools, which start with the name the
  tool was started under.
* `Shell.Tool.quoted` — a name in a message.
-/

namespace IncrementalBuild.Shell.Tool

/-- What an option has behind it. -/
inductive Behind
  | nothing
  | argument
  /-- What is joined to it, if anything. -/
  | attached
  deriving DecidableEq, Repr

/-- An option of a tool. Options without a letter have a stand-in for one. -/
structure Switch where
  letter : Char
  name : String := ""
  behind : Behind := .nothing

/-- An option that was given, by its letter, with its argument. -/
abbrev Given := List (Char × Text)

namespace Given

/-- Whether an option was given. -/
def has (g : Given) (letter : Char) : Bool := g.any fun o => o.1 == letter

/-- The last argument of an option. -/
def value? (g : Given) (letter : Char) : Option Text :=
  (g.reverse.find? fun o => o.1 == letter).map Prod.snd

/-- The last of several options that was given. -/
def last? (g : Given) (letters : List Char) : Option Char :=
  (g.reverse.find? fun o => letters.contains o.1).map Prod.fst

end Given

/-- Letters joined behind a minus sign: the options, or what is wrong, and whether the next
argument belongs to the last of them. -/
def letters (switches : List Switch) : Text → Except Text (Given × Option Char)
  | [] => .ok ([], none)
  | c :: rest =>
    match switches.find? fun s => s.letter == c with
    | none => .error (lit "invalid option -- '" ++ [c, '\''])
    | some s =>
      match s.behind with
      | .nothing => (letters switches rest).map fun r => ((c, []) :: r.1, r.2)
      | .attached => .ok ([(c, rest)], none)
      | .argument => if rest.isEmpty then .ok ([], some c) else .ok ([(c, rest)], none)

/-- The option that a long name stands for. -/
def long (switches : List Switch) (name : Text) : Except Text Switch :=
  let whole : Text := lit "--" ++ name
  let named := switches.filter fun s => s.name != ""
  match named.find? fun s => s.name.toList == name with
  | some s => .ok s
  | none =>
    match named.filter fun s => name.isPrefixOf s.name.toList with
    | [] => .error (lit "unrecognized option '" ++ whole ++ ['\''])
    | [s] => .ok s
    | several =>
      if several.all fun s => several.head?.any fun t => t.letter == s.letter then
        match several with
        | s :: _ => .ok s
        | [] => .error []
      else .error (lit "option '" ++ whole ++ lit "' is ambiguous; possibilities:"
        ++ several.flatMap fun s => lit (" '--" ++ s.name ++ "'"))

/-- The options and operands among arguments. `early` says whether options end at the first
operand. -/
def readFrom (early : Bool) (switches : List Switch) :
    Nat → List Text → Except Text (Given × List Text)
  | 0, args => .ok ([], args)
  | _ + 1, [] => .ok ([], [])
  | fuel + 1, a :: rest => do
    match a with
    | ['-', '-'] => return ([], rest)
    | '-' :: '-' :: text =>
      let name := text.takeWhile (· != '=')
      let attached := if name.length == text.length then none
        else some (text.drop (name.length + 1))
      let s ← long switches name
      match s.behind, attached with
      | .nothing, some _ =>
        throw (lit ("option '--" ++ s.name ++ "' doesn't allow an argument"))
      | .argument, none =>
        match rest with
        | [] => throw (lit ("option '--" ++ s.name ++ "' requires an argument"))
        | b :: rest =>
          let (more, operands) ← readFrom early switches fuel rest
          return ((s.letter, b) :: more, operands)
      | _, value =>
        let (more, operands) ← readFrom early switches fuel rest
        return ((s.letter, value.getD []) :: more, operands)
    | '-' :: c :: cs =>
      match ← letters switches (c :: cs) with
      | (given, none) =>
        let (more, operands) ← readFrom early switches fuel rest
        return (given ++ more, operands)
      | (given, some letter) =>
        match rest with
        | [] => throw (lit "option requires an argument -- '" ++ [letter, '\''])
        | b :: rest =>
          let (more, operands) ← readFrom early switches fuel rest
          return (given ++ (letter, b) :: more, operands)
    | _ =>
      if early then return ([], a :: rest)
      else
        let (more, operands) ← readFrom early switches fuel rest
        return (more, a :: operands)

/-! ### Numbers -/

/-- A number of lines or bytes, which may have a unit. -/
def amount? (cs : Text) : Option Nat :=
  let ds := cs.takeWhile Char.isDigit
  if ds.isEmpty then none
  else
    match String.ofList (cs.drop ds.length) with
    | "" => some (valueOf ds)
    | "b" => some (valueOf ds * 512)
    | "k" | "K" | "KiB" => some (valueOf ds * 1024)
    | "kB" | "KB" => some (valueOf ds * 1000)
    | "M" | "MiB" => some (valueOf ds * 1048576)
    | "MB" => some (valueOf ds * 1000000)
    | _ => none

/-! ### Messages -/

/-- Writes a message of a tool. -/
def complain (message : Text) : Run Unit := do
  Run.complain ((← get).zero ++ lit ": " ++ message)

/-- Writes a message of a tool and ends it. -/
def stop {α : Type} (status : Nat) (message : Text) : Run α := do
  complain message
  Run.stop status .exit

/-- Reports a wrong use of a tool and ends it. -/
def misused {α : Type} (status : Nat) (message : Text) : Run α := do
  let zero := (← get).zero
  complain message
  Run.complain (lit "Try '" ++ zero ++ lit " --help' for more information.")
  Run.stop status .exit

/-- Reads the options of a tool. -/
def options (status : Nat) (switches : List Switch) (args : List Text) :
    Run (Given × List Text) := do
  match readFrom false switches (args.length + 1) args with
  | .ok r => return r
  | .error message => misused status message

/-- Reads the options of a tool before its first operand. -/
def optionsBefore (status : Nat) (switches : List Switch) (args : List Text) :
    Run (Given × List Text) := do
  match readFrom true switches (args.length + 1) args with
  | .ok r => return r
  | .error message => misused status message

/-- Whether a name has to stand in quotes. -/
def needsQuotes (cs : Text) : Bool :=
  cs.isEmpty || cs.any fun c => " \t\n!\"$&'()*;<=>?[\\^|\x60".toList.contains c

/-- A name in a message, in quotes where it needs them. -/
def quoted (cs : Text) : Text := if needsQuotes cs then inQuotes cs else cs

/-- What a file or the standard input holds; a minus sign stands for the latter. -/
def contents (name : Text) : Run (Except FileError Text) := do
  let isInput := name == ['-']
  modifyGet fun st =>
    if isInput then
      match st.target? 0 with
      | some .directory => (.error .isADirectory, st)
      | some _ =>
        let (cs, st) := st.readAll 0
        (.ok cs, st)
      | none => (.error (.other "Bad file descriptor"), st)
    else st.contents name

/-- What files hold one after the other; what cannot be read is told of. The number is the
status. -/
def gather (tell : Text → FileError → Run Unit) (names : List Text) :
    Run (List (Text × Text) × Nat) := do
  let names := if names.isEmpty then [['-']] else names
  let mut all : List (Text × Text) := []
  let mut status := 0
  for name in names do
    match ← contents name with
    | .ok cs => all := all ++ [(name, cs)]
    | .error e =>
      tell name e
      status := 1
  return (all, status)

/-- Tells of a file that could not be opened. -/
def tellPlainly (name : Text) (e : FileError) : Run Unit :=
  complain (quoted name ++ lit ": " ++ cause e)

end IncrementalBuild.Shell.Tool
