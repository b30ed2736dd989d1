import IncrementalBuild.Host.Shell.Command
/-!
# Reading scripts

A script is read one command at a time, so that the commands before a mistake are run. What is
read ends with a line, or later where a construct is still open.

## Main definitions

* `Shell.Script` — a script while it is read: the text that is left, the number of its line, and
  what is known of the last token.
* `Shell.SyntaxError` — a mistake, with the line where it was noticed.
* `Shell.Script.next` — the next command of a script.

## Conventions

Words and commands contain each other, so all reading is one group of functions. Each call uses up
one unit of `fuel`, and `Script.supply` has more of it than the text that is left can use up.

The texts of here-documents stand behind the line that asks for them. They are numbered, and kept
apart from the command.
-/

namespace IncrementalBuild.Shell

/-- A word or operator of a script. -/
inductive Token
  | endOfFile
  | newline
  | semicolon
  | ampersand
  | andAnd
  | orOr
  | bar
  | opening
  | closing
  | endOfBranch
  | redirection
  | word
  | keyword (text : String)
  deriving DecidableEq, Repr

namespace Token

/-- The words that have a meaning of their own where a command may start. -/
def keywords : List String :=
  ["!", "case", "do", "done", "elif", "else", "esac", "fi", "for", "if", "in", "then", "until",
   "while", "\x7b", "\x7d"]

/-- How a message names a token. -/
def describe : Token → String
  | .endOfFile => "end of file"
  | .newline => "newline"
  | .semicolon => "\";\""
  | .ampersand => "\"&\""
  | .andAnd => "\"&&\""
  | .orOr => "\"||\""
  | .bar => "\"|\""
  | .opening => "\"(\""
  | .closing => "\")\""
  | .endOfBranch => "\";;\""
  | .redirection => "redirection"
  | .word => "word"
  | .keyword text => "\"" ++ text ++ "\""

/-- Whether a token ends a list of commands inside a construct. -/
def endsList : Token → Bool
  | .endOfFile | .closing | .endOfBranch => true
  | .keyword text =>
    ["do", "done", "elif", "else", "esac", "fi", "then", "\x7d"].contains text
  | _ => false

end Token

/-- A mistake in a script. -/
structure SyntaxError where
  /-- The number of the line that was being read. -/
  line : Nat
  message : String
  deriving DecidableEq, Repr

/-- A here-document whose text is still to come. -/
structure HereDocument where
  number : Nat
  /-- The line that ends it. -/
  stop : Text
  /-- Whether tabs at the start of its lines are left out. -/
  stripped : Bool
  /-- Whether its text is taken as it is. -/
  literal : Bool

/-- How the next token is read. -/
structure Expectation where
  /-- Whether line ends before it are skipped. -/
  skipsLines : Bool := false
  /-- Whether it may be a keyword. -/
  keywords : Bool := false
  /-- Whether dollar signs and backquotes stand for themselves. -/
  verbatim : Bool := false

/-- A script while it is read. -/
structure Script where
  /-- The text that is left. -/
  rest : Text
  /-- The number of the line that is being read. -/
  line : Nat := 1
  /-- Whether the last token is to be read again. -/
  pushed : Bool := false
  /-- The last token. -/
  last : Token := .newline
  /-- The last word. -/
  word : Word := []
  expectation : Expectation := {}
  /-- Descriptor and direction of the last redirection. -/
  redirection : Nat × Direction := (0, .input)
  pending : List HereDocument := []
  /-- The here-documents that were read, by number. -/
  documents : List (Nat × Word) := []
  /-- The number of the next here-document. -/
  nextDocument : Nat := 0

/-- A step of reading a script. -/
abbrev Reading := StateT Script (Except SyntaxError)

/-! ### Characters -/

/-- The number of lines that end in backslashes at the front of a text, and what follows them. -/
def joinLines : Nat → Text → Nat × Text
  | n, '\\' :: '\n' :: rest => joinLines (n + 1) rest
  | n, cs => (n, cs)

/-- The characters that end an unquoted word. -/
def endsWord (c : Char) : Bool :=
  [' ', '\t', '\n', ';', '&', '|', '<', '>', '(', ')'].contains c

/-- Whether a character names a parameter of its own. -/
def isSpecial (c : Char) : Bool := c.isDigit || ['@', '*', '#', '?', '$', '!', '-'].contains c

namespace Script

/-- Reports a mistake at the current line. -/
def fail {α : Type} (message : String) : Reading α := fun s => .error ⟨s.line, message⟩

/-- The next character, which stays; lines that end in backslashes are joined before it. -/
def peek : Reading (Option Char) :=
  modifyGet fun s =>
    let (n, rest) := joinLines 0 s.rest
    (rest.head?, { s with rest, line := s.line + n })

/-- Drops a character. -/
def advance : Reading Unit := modify fun s => { s with rest := s.rest.tail }

/-- The next character. -/
def take : Reading (Option Char) := do
  let c ← peek
  advance
  return c

/-- The next character as it stands in the text. -/
def takeRaw : Reading (Option Char) :=
  modifyGet fun s => (s.rest.head?, { s with rest := s.rest.tail })

/-- Counts a line. -/
def nextLine : Reading Unit := modify fun s => { s with line := s.line + 1 }

/-- Takes characters as long as they fit. -/
def takeWhile (p : Char → Bool) : Nat → Text → Reading Text
  | 0, taken => return taken.reverse
  | fuel + 1, taken => do
    match ← peek with
    | some c =>
      if p c then do
        advance
        takeWhile p fuel (c :: taken)
      else return taken.reverse
    | none => return taken.reverse

/-- A bound for what is done to the text that is left. -/
def supply : Reading Nat := do
  let s ← get
  return 16 * s.rest.length + 64

/-- The rest of a text in single quotes. -/
def singleQuoted : Reading Word := do
  let s ← get
  let inside := s.rest.takeWhile (· != '\'')
  let after := s.rest.drop inside.length
  set { s with rest := after.tail, line := s.line + inside.count '\n' }
  if after.isEmpty then fail "Unterminated quoted string"
  else return inside.map fun c => .character c true

/-- The script written in backquotes, up to the closing one. Backslashes before the characters
that are special there are taken away. -/
def backquoted (quoted : Bool) : Nat → Text → Reading Text
  | 0, _ => fail "EOF in backquote substitution"
  | fuel + 1, taken => do
    match ← take with
    | none => fail "EOF in backquote substitution"
    | some '\x60' => return taken.reverse
    | some '\\' =>
      match ← takeRaw with
      | none => fail "EOF in backquote substitution"
      | some c =>
        if c == '\\' || c == '\x60' || c == '$' || (quoted && c == '"') then
          backquoted quoted fuel (c :: taken)
        else backquoted quoted fuel (c :: '\\' :: taken)
    | some '\n' => do
      nextLine
      backquoted quoted fuel ('\n' :: taken)
    | some c => backquoted quoted fuel (c :: taken)

/-! ### Tokens -/

/-- Reads the last token again. -/
def pushBack : Reading Unit := modify fun s => { s with pushed := true }

/-- Says how the next token is read. -/
def expecting (e : Expectation) : Reading Unit := modify fun s => { s with expectation := e }

/-- Where a command may start on a later line. -/
def atCommand : Expectation := { skipsLines := true, keywords := true }

/-- Records a token. -/
def found (t : Token) : Reading Token := do
  modify fun s => { s with last := t }
  return t

/-- Refuses the last token, and names the one that should stand there. -/
def unexpected {α : Type} (wanted : Option Token) : Reading α := do
  let s ← get
  match wanted with
  | some t => fail s!"{s.last.describe} unexpected (expecting {t.describe})"
  | none => fail s!"{s.last.describe} unexpected"

/-- Reads an operator whose first character was taken; a second one may follow it. -/
def operator (second : Char) (double single : Token) : Reading Token := do
  if (← peek) == some second then do
    advance
    found double
  else found single

/-- Reads the operator of a redirection; its first character is not taken yet. -/
def redirectionOperator (descriptor : Option Nat) : Reading Token := do
  let first ← take
  let second ← peek
  let (direction, long) : Direction × Bool :=
    if first == some '>' then
      match second with
      | some '>' => (.appendTo, true)
      | some '|' => (.outputOver, true)
      | some '&' => (.duplicate false, true)
      | _ => (.output, false)
    else
      match second with
      | some '<' => (.document 0, true)
      | some '&' => (.duplicate true, true)
      | some '>' => (.inputOutput, true)
      | _ => (.input, false)
  if long then advance
  let usual := if first == some '>' then 1 else 0
  modify fun s => { s with redirection := (descriptor.getD usual, direction) }
  found .redirection

/-- The function names that are refused. -/
def specialNames : List String :=
  [".", ":", "break", "continue", "eval", "exec", "exit", "export", "readonly", "return", "set",
   "shift", "times", "trap", "unset"]

/-- Adds a command behind others. -/
def andThen : Option Command → Command → Command
  | none, c => c
  | some before, c => .sequence before c

/-- A command that is not waited for. -/
def inBackground (line : Nat) : Command → Command
  | .redirected _ body redirections => .background line body redirections
  | c => .background line c []

/-! ### The group -/

mutual

/-- The pieces of an unquoted word, up to its end or, inside braces, up to the closing one. -/
def unquoted : Nat → (inBraces : Bool) → List Piece → Reading Word
  | 0, _, taken => return taken.reverse
  | fuel + 1, inBraces, taken => do
    match ← peek with
    | none => if inBraces then fail "Missing '\x7d'" else return taken.reverse
    | some c =>
      if endsWord c then
        if inBraces then do
          advance
          if c == '\n' then nextLine
          unquoted fuel inBraces (.character c false :: taken)
        else return taken.reverse
      else do
        advance
        match c with
        | '\\' =>
          match ← takeRaw with
          | none => unquoted fuel inBraces (.character c true :: taken)
          | some d => do
            if d == '\n' then nextLine
            unquoted fuel inBraces (.character d true :: taken)
        | '\'' =>
          let inside ← singleQuoted
          unquoted fuel inBraces (.mark :: inside.reverse ++ .mark :: taken)
        | '"' =>
          let inside ← doubleQuoted fuel [.mark]
          unquoted fuel inBraces (inside ++ taken)
        | '$' =>
          let piece ← dollar fuel false false
          unquoted fuel inBraces (piece :: taken)
        | '\x60' =>
          if (← get).expectation.verbatim then
            unquoted fuel inBraces (.character c true :: taken)
          else
            let piece ← oldOutput fuel false
            unquoted fuel inBraces (piece :: taken)
        | '\x7d' =>
          if inBraces then return taken.reverse
          else unquoted fuel inBraces (.character c false :: taken)
        | _ => unquoted fuel inBraces (.character c false :: taken)

/-- The pieces of a word up to the closing double quote, in reverse. -/
def doubleQuoted : Nat → List Piece → Reading (List Piece)
  | 0, taken => return taken
  | fuel + 1, taken => do
    match ← take with
    | none => fail "Unterminated quoted string"
    | some '"' => return .mark :: taken
    | some '\\' =>
      let escaped ← afterBackslash ['\\', '\x60', '$', '"']
      doubleQuoted fuel (escaped ++ taken)
    | some '$' =>
      let piece ← dollar fuel true false
      doubleQuoted fuel (piece :: taken)
    | some '\x60' =>
      if (← get).expectation.verbatim then doubleQuoted fuel (.character '\x60' true :: taken)
      else
        let piece ← oldOutput fuel true
        doubleQuoted fuel (piece :: taken)
    | some c => do
      if c == '\n' then nextLine
      doubleQuoted fuel (.character c true :: taken)

/-- The pieces of a word in braces that stand in double quotes or in a here-document. Double
quotes in it count for the closing brace alone. -/
def bracedQuoted : Nat → (inDocument inner : Bool) → List Piece → Reading Word
  | 0, _, _, taken => return taken.reverse
  | fuel + 1, inDocument, inner, taken => do
    match ← take with
    | none => fail (if inDocument then "Missing '\x7d'" else "Unterminated quoted string")
    | some '"' => bracedQuoted fuel inDocument (!inner) (.mark :: taken)
    | some '\x7d' =>
      if inner then bracedQuoted fuel inDocument inner (.character '\x7d' true :: taken)
      else return taken.reverse
    | some '\\' =>
      let escaped ← afterBackslash ['\\', '\x60', '$', '"', '\x7d']
      bracedQuoted fuel inDocument inner (escaped ++ taken)
    | some '$' =>
      let piece ← dollar fuel true inDocument
      bracedQuoted fuel inDocument inner (piece :: taken)
    | some '\x60' =>
      let piece ← oldOutput fuel true
      bracedQuoted fuel inDocument inner (piece :: taken)
    | some c => do
      if c == '\n' then nextLine
      bracedQuoted fuel inDocument inner (.character c true :: taken)

/-- The expansion that follows a dollar sign, or the dollar sign itself. -/
def dollar : Nat → (quoted inDocument : Bool) → Reading Piece
  | 0, quoted, _ => return .character '$' quoted
  | fuel + 1, quoted, inDocument => do
    let c ← peek
    if (← get).expectation.verbatim then return .character '$' quoted
    match c with
    | none => return .character '$' quoted
    | some '(' => do
      advance
      if (← peek) == some '(' then do
        advance
        let body ← arithmetic fuel 0 []
        return .arithmetic body quoted
      else
        let body ← output fuel
        return .output body quoted
    | some '\x7b' => do
      advance
      braced fuel quoted inDocument
    | some c =>
      if startsName c then
        let name ← takeWhile continuesName fuel []
        return .parameter name .plain quoted
      else if isSpecial c then do
        advance
        return .parameter [c] .plain quoted
      else return .character '$' quoted

/-- The expansion written in braces, after the opening one. -/
def braced : Nat → (quoted inDocument : Bool) → Reading Piece
  | 0, quoted, _ => return .character '$' quoted
  | fuel + 1, quoted, inDocument => do
    let unknown : Reading Piece := do
      let _ ← bracedWord fuel quoted inDocument
      return .parameter [] .unknown quoted
    let named (name : Text) : Reading Piece := do
      let use ← useOf fuel quoted inDocument
      return .parameter name use quoted
    let measured (name : Text) : Reading Piece := do
      if (← peek) == some '\x7d' then do
        advance
        return .parameter name .length quoted
      else unknown
    match ← peek with
    | none => unknown
    | some c =>
      if startsName c then named (← takeWhile continuesName fuel [])
      else if c.isDigit then named (← takeWhile Char.isDigit fuel [])
      else if c == '\x7d' then unknown
      else do
        advance
        if c == '#' then
          match ← peek with
          | none => unknown
          | some d =>
            if startsName d then measured (← takeWhile continuesName fuel [])
            else if d.isDigit then measured (← takeWhile Char.isDigit fuel [])
            else if d == '\x7d' then named ['#']
            else do
              let before ← get
              advance
              if (← peek) == some '\x7d' && isSpecial d then measured [d]
              else do
                set before
                named ['#']
        else if isSpecial c then named [c]
        else unknown

/-- What an expansion in braces does with its parameter, with the closing brace. -/
def useOf : Nat → (quoted inDocument : Bool) → Reading Use
  | 0, _, _ => return .plain
  | fuel + 1, quoted, inDocument => do
    let unknown : Reading Use := do
      let _ ← bracedWord fuel quoted inDocument
      return .unknown
    match ← take with
    | some '\x7d' => return .plain
    | some '%' =>
      let longest := (← peek) == some '%'
      if longest then advance
      return .trim true longest (← unquoted fuel true [])
    | some '#' =>
      let longest := (← peek) == some '#'
      if longest then advance
      return .trim false longest (← unquoted fuel true [])
    | some ':' =>
      match ← take with
      | some '-' => return .orElse true (← bracedWord fuel quoted inDocument)
      | some '+' => return .instead true (← bracedWord fuel quoted inDocument)
      | some '=' => return .assign true (← bracedWord fuel quoted inDocument)
      | some '?' => return .require true (← bracedWord fuel quoted inDocument)
      | _ => unknown
    | some '-' => return .orElse false (← bracedWord fuel quoted inDocument)
    | some '+' => return .instead false (← bracedWord fuel quoted inDocument)
    | some '=' => return .assign false (← bracedWord fuel quoted inDocument)
    | some '?' => return .require false (← bracedWord fuel quoted inDocument)
    | _ => unknown

/-- The word in braces up to the closing one. -/
def bracedWord : Nat → (quoted inDocument : Bool) → Reading Word
  | 0, _, _ => return []
  | fuel + 1, quoted, inDocument =>
    if quoted then bracedQuoted fuel inDocument false [] else unquoted fuel true []

/-- What a backslash in double quotes makes of the next character, in reverse. -/
def afterBackslash (escapable : List Char) : Reading (List Piece) := do
  match ← takeRaw with
  | none => return [.character '\\' true]
  | some c =>
    if c == '\n' then nextLine
    return if escapable.contains c then [.character c true]
      else [.character c true, .character '\\' true]

/-- An arithmetic expression, up to the brackets that close it. -/
def arithmetic : Nat → (depth : Nat) → List Piece → Reading Word
  | 0, _, taken => return taken.reverse
  | fuel + 1, depth, taken => do
    match ← take with
    | none => fail "Missing '))'"
    | some '(' => arithmetic fuel (depth + 1) (.character '(' true :: taken)
    | some ')' =>
      match depth with
      | depth + 1 => arithmetic fuel depth (.character ')' true :: taken)
      | 0 =>
        if (← peek) == some ')' then do
          advance
          return taken.reverse
        else arithmetic fuel 0 (.character ')' true :: taken)
    | some '\\' =>
      let escaped ← afterBackslash ['\\', '\x60', '$', '"']
      arithmetic fuel depth (escaped ++ taken)
    | some '$' =>
      let piece ← dollar fuel true false
      arithmetic fuel depth (piece :: taken)
    | some '\x60' =>
      let piece ← oldOutput fuel true
      arithmetic fuel depth (piece :: taken)
    | some c => do
      if c == '\n' then nextLine
      arithmetic fuel depth (.character c true :: taken)

/-- A script in brackets, up to the closing one. -/
def output : Nat → Reading Command
  | 0 => return .nothing
  | fuel + 1 => do
    let pending := (← get).pending
    modify fun s => { s with pending := [] }
    let body ← list fuel false true none
    if (← token fuel) != .closing then unexpected (some .closing)
    modify fun s => { s with pending }
    return body.getD .nothing

/-- A script in backquotes. It is read as a text of its own. -/
def oldOutput : Nat → (quoted : Bool) → Reading Piece
  | 0, quoted => return .character '\x60' quoted
  | fuel + 1, quoted => do
    let text ← backquoted quoted fuel []
    let s ← get
    set { s with rest := text, line := 1, pushed := false, pending := [], expectation := {} }
    let body ← list fuel false true none
    modify fun inner => { inner with
      rest := s.rest, line := s.line, pushed := false, pending := s.pending
      expectation := s.expectation }
    return .output (body.getD .nothing) quoted

/-- The text of a here-document, line by line up to the one that ends it, in reverse. -/
def documentText : Nat → HereDocument → (atStart : Bool) → List Piece → Reading (List Piece)
  | 0, _, _, taken => return taken
  | fuel + 1, document, atStart, taken => do
    let raw := document.literal
    if atStart then do
      if !raw then let _ ← peek
      if document.stripped then
        modify fun s => { s with rest := s.rest.dropWhile (· == '\t') }
      let s ← get
      let line := s.rest.takeWhile (· != '\n')
      if line == document.stop then do
        set { s with rest := (s.rest.drop line.length).tail, line := s.line + 1 }
        return taken
      else documentText fuel document false taken
    else
      match ← (if raw then takeRaw else take) with
      | none => return taken
      | some '\n' => do
        nextLine
        documentText fuel document true (.character '\n' true :: taken)
      | some '\\' =>
        if raw then documentText fuel document false (.character '\\' true :: taken)
        else
          let escaped ← afterBackslash ['\\', '\x60', '$']
          documentText fuel document false (escaped ++ taken)
      | some '$' =>
        if raw then documentText fuel document false (.character '$' true :: taken)
        else
          let piece ← dollar fuel true true
          documentText fuel document false (piece :: taken)
      | some '\x60' =>
        if raw then documentText fuel document false (.character '\x60' true :: taken)
        else
          let piece ← oldOutput fuel true
          documentText fuel document false (piece :: taken)
      | some c => documentText fuel document false (.character c true :: taken)

/-- The texts of the here-documents that were asked for. -/
def documentTexts : Nat → Reading Unit
  | 0 => return
  | fuel + 1 => do
    match (← get).pending with
    | [] => return
    | document :: others => do
      modify fun s => { s with pending := others }
      let text ← documentText fuel document true []
      modify fun s => { s with documents := (document.number, text.reverse) :: s.documents }
      documentTexts fuel

/-- The next token, without regard to keywords. -/
def rawToken : Nat → Reading Token
  | 0 => found .endOfFile
  | fuel + 1 => do
    let s ← get
    if s.pushed then do
      set { s with pushed := false }
      return s.last
    else
      match ← peek with
      | none => found .endOfFile
      | some ' ' | some '\t' => do
        advance
        rawToken fuel
      | some '#' => do
        modify fun s => { s with rest := s.rest.dropWhile (· != '\n') }
        rawToken fuel
      | some '\n' => do
        advance
        nextLine
        found .newline
      | some '&' => do
        advance
        operator '&' .andAnd .ampersand
      | some '|' => do
        advance
        operator '|' .orOr .bar
      | some ';' => do
        advance
        operator ';' .endOfBranch .semicolon
      | some '(' => do
        advance
        found .opening
      | some ')' => do
        advance
        found .closing
      | some _ => do
        let w ← unquoted fuel false []
        let angle := match ← peek with
          | some '<' | some '>' => true
          | _ => false
        match w with
        | [] =>
          if angle then redirectionOperator none
          else do
            modify fun s => { s with word := w }
            found .word
        | [.character d false] =>
          if angle && d.isDigit then redirectionOperator (some (valueOf [d]))
          else do
            modify fun s => { s with word := w }
            found .word
        | _ => do
          modify fun s => { s with word := w }
          found .word

/-- Skips line ends after a token that may be one. -/
def skipLines : Nat → Token → Reading Token
  | 0, t => return t
  | fuel + 1, t => do
    if t == .newline then do
      documentTexts fuel
      expecting {}
      skipLines fuel (← rawToken fuel)
    else return t

/-- The next token, read as it is expected. -/
def token : Nat → Reading Token
  | 0 => found .endOfFile
  | fuel + 1 => do
    let expected := (← get).expectation
    let t ← rawToken fuel
    let t ← if expected.skipsLines then skipLines fuel t else pure t
    expecting {}
    let s ← get
    if t == .word && expected.keywords && !s.word.isQuoted then
      match s.word.bare? with
      | some text =>
        let text := String.ofList text
        if Token.keywords.contains text then found (.keyword text) else return t
      | none => return t
    else return t

/-- Commands separated by semicolons and line ends: those of a line of the script itself, or those
of a construct up to the token that ends it. -/
def list : Nat → (ofScript mayEnd : Bool) → Option Command → Reading (Option Command)
  | 0, _, _, before => return before
  | fuel + 1, ofScript, mayEnd, before => do
    expecting { skipsLines := !ofScript, keywords := true }
    let t ← token fuel
    match t with
    | .newline => do
      documentTexts fuel
      return before
    | .endOfFile => do
      documentTexts fuel
      modify fun s => { s with pushed := true, last := .endOfFile }
      return before
    | _ => do
      pushBack
      if !ofScript && mayEnd && t.endsList then return before
      let line := (← get).line
      let next ← andOr fuel
      let t ← token fuel
      let next := if t == .ampersand then inBackground line next else next
      let all := some (andThen before next)
      match t with
      | .newline | .endOfFile => do
        pushBack
        list fuel ofScript true all
      | .ampersand | .semicolon => list fuel ofScript true all
      | _ =>
        if ofScript then unexpected none
        else do
          pushBack
          return all

/-- Pipelines joined by conditions, grouped from the left. -/
def andOr : Nat → Reading Command
  | 0 => return .nothing
  | fuel + 1 => do conditions fuel (← pipeline fuel)

/-- The conditions after a first pipeline. -/
def conditions : Nat → Command → Reading Command
  | 0, first => return first
  | fuel + 1, first => do
    match ← token fuel with
    | .andAnd => do
      expecting atCommand
      conditions fuel (.both first (← pipeline fuel))
    | .orOr => do
      expecting atCommand
      conditions fuel (.either first (← pipeline fuel))
    | _ => do
      pushBack
      return first

/-- Commands joined by bars, perhaps negated. -/
def pipeline : Nat → Reading Command
  | 0 => return .nothing
  | fuel + 1 => do
    let negated := (← token fuel) == .keyword "!"
    if negated then expecting { keywords := true } else pushBack
    let first ← command fuel
    let stages ← stagesAfter fuel [first]
    let whole := match stages with
      | [only] => only
      | _ => .pipe stages
    return if negated then .negated whole else whole

/-- The further commands of a pipeline; those before are given in reverse. -/
def stagesAfter : Nat → List Command → Reading (List Command)
  | 0, stages => return stages.reverse
  | fuel + 1, stages => do
    if (← token fuel) == .bar then do
      expecting atCommand
      let next ← command fuel
      stagesAfter fuel (next :: stages)
    else do
      pushBack
      return stages.reverse

/-- One command with its redirections. -/
def command : Nat → Reading Command
  | 0 => return .nothing
  | fuel + 1 => do
    let line := (← get).line
    match ← token fuel with
    | .keyword "if" => do
      let body ← ifBody fuel
      closed fuel line body (.keyword "fi")
    | .keyword "while" => loopBody fuel line true
    | .keyword "until" => loopBody fuel line false
    | .keyword "for" => do
      let t ← token fuel
      match t, (← get).word.bare? with
      | .word, some name =>
        if !isName name then fail "Bad for loop variable"
        expecting atCommand
        let items ←
          if (← token fuel) == .keyword "in" then do
            let items ← words fuel []
            let last := (← get).last
            if last != .newline && last != .semicolon then unexpected none
            pure items
          else do
            if (← get).last != .semicolon then pushBack
            pure [[.mark, .parameter ['@'] .plain true, .mark]]
        expecting atCommand
        if (← token fuel) != .keyword "do" then unexpected (some (.keyword "do"))
        let body ← list fuel false false none
        closed fuel line (.forEach line name items (body.getD .nothing)) (.keyword "done")
      | _, _ => fail "Bad for loop variable"
    | .keyword "case" => do
      if (← token fuel) != .word then unexpected (some .word)
      let subject := (← get).word
      expecting atCommand
      if (← token fuel) != .keyword "in" then unexpected (some (.keyword "in"))
      let branches ← branchesOf fuel []
      redirected fuel line (.choose line subject branches)
    | .opening => do
      let body ← list fuel false false none
      closed fuel line (.apart line (body.getD .nothing) []) .closing
    | .keyword "\x7b" => do
      let body ← list fuel false false none
      closed fuel line (body.getD .nothing) (.keyword "\x7d")
    | .word | .redirection => do
      pushBack
      simple fuel (← get).line true [] [] []
    | _ => unexpected none

/-- The end of a construct and the redirections after it. -/
def closed : Nat → (line : Nat) → Command → Token → Reading Command
  | 0, _, body, _ => return body
  | fuel + 1, line, body, closer => do
    if (← token fuel) != closer then unexpected (some closer)
    redirected fuel line body

/-- The redirections after a construct. -/
def redirected : Nat → (line : Nat) → Command → Reading Command
  | 0, _, body => return body
  | fuel + 1, line, body => do
    expecting { keywords := true }
    match ← redirections fuel [] with
    | [] => return body
    | all =>
      return match body with
        | .apart line inner _ => .apart line inner all
        | _ => .redirected line body all

/-- Redirections as long as there are any; those before are given in reverse. -/
def redirections : Nat → List Redirection → Reading (List Redirection)
  | 0, before => return before.reverse
  | fuel + 1, before => do
    if (← token fuel) == .redirection then do
      let next ← target fuel
      redirections fuel (next :: before)
    else do
      pushBack
      return before.reverse

/-- The word that a redirection leads to. -/
def target : Nat → Reading Redirection
  | 0 => return .mk 0 .input []
  | fuel + 1 => do
    let (descriptor, direction) := (← get).redirection
    match direction with
    | .document _ => do
      -- A minus sign after the operator asks for tabs to be left out.
      let stripped := (← peek) == some '-'
      if stripped then advance
      expecting { verbatim := true }
      if (← token fuel) != .word then unexpected none
      let s ← get
      let number := s.nextDocument
      let document : HereDocument := ⟨number, s.word.characters, stripped, s.word.isQuoted⟩
      set { s with pending := s.pending ++ [document], nextDocument := number + 1 }
      return .mk descriptor (.document number) []
    | _ => do
      if (← token fuel) != .word then unexpected none
      return .mk descriptor direction (← get).word

/-- Words up to another token; those before are given in reverse. -/
def words : Nat → List Word → Reading (List Word)
  | 0, before => return before.reverse
  | fuel + 1, before => do
    if (← token fuel) == .word then
      let w := (← get).word
      words fuel (w :: before)
    else return before.reverse

/-- What follows `if`, up to its end. -/
def ifBody : Nat → Reading Command
  | 0 => return .nothing
  | fuel + 1 => do
    let condition ← list fuel false false none
    if (← token fuel) != .keyword "then" then unexpected (some (.keyword "then"))
    let thenBody ← list fuel false false none
    let elseBody ← match ← token fuel with
      | .keyword "elif" => some <$> ifBody fuel
      | .keyword "else" => list fuel false false none
      | _ => do
        pushBack
        pure none
    return .ifThen (condition.getD .nothing) (thenBody.getD .nothing) (elseBody.getD .nothing)

/-- What follows `while` or `until`, with its end. -/
def loopBody : Nat → (line : Nat) → (whileTrue : Bool) → Reading Command
  | 0, _, _ => return .nothing
  | fuel + 1, line, whileTrue => do
    let condition ← list fuel false false none
    if (← token fuel) != .keyword "do" then unexpected (some (.keyword "do"))
    let body ← list fuel false false none
    closed fuel line (.loop whileTrue (condition.getD .nothing) (body.getD .nothing))
      (.keyword "done")

/-- The branches of a `case`, with its end; those before are given in reverse. -/
def branchesOf : Nat → List (List Word × Command) → Reading (List (List Word × Command))
  | 0, before => return before.reverse
  | fuel + 1, before => do
    expecting atCommand
    let t ← token fuel
    if t == .keyword "esac" then return before.reverse
    if t == .opening then let _ ← token fuel
    let patterns ← patternsOf fuel []
    if (← get).last != .closing then unexpected (some .closing)
    let body ← list fuel false true none
    let branch := (patterns, body.getD .nothing)
    expecting atCommand
    match ← token fuel with
    | .keyword "esac" => return (branch :: before).reverse
    | .endOfBranch => branchesOf fuel (branch :: before)
    | _ => unexpected (some .endOfBranch)

/-- The patterns of a branch, the first of which was read; those before are given in reverse. -/
def patternsOf : Nat → List Word → Reading (List Word)
  | 0, before => return before.reverse
  | fuel + 1, before => do
    let pattern := (← get).word
    if (← token fuel) == .bar then do
      let _ ← token fuel
      patternsOf fuel (pattern :: before)
    else return (pattern :: before).reverse

/-- A command made of words, or the definition of a function. What was read of it is given in
reverse; assignments come before all other words. -/
def simple : Nat → (line : Nat) → (assigning : Bool) → (assignments words : List Word) →
    List Redirection → Reading Command
  | 0, line, _, assignments, words, all =>
    return .simple line assignments.reverse words.reverse all.reverse
  | fuel + 1, line, assigning, assignments, words, all => do
    let done : Reading Command := do
      pushBack
      return .simple line assignments.reverse words.reverse all.reverse
    match ← token fuel with
    | .word =>
      let w := (← get).word
      if assigning && w.assignment?.isSome then
        simple fuel line true (w :: assignments) words all
      else simple fuel line false assignments (w :: words) all
    | .redirection => do
      let next ← target fuel
      simple fuel line assigning assignments words (next :: all)
    | .opening =>
      match words, assignments, all with
      | [name], [], [] => do
        if (← token fuel) != .closing then unexpected (some .closing)
        let text := name.bare?.getD []
        if !isName text || specialNames.contains (String.ofList text) then
          fail "Bad function name"
        expecting atCommand
        let line := (← get).line
        return .define line text (← command fuel)
      | _, _, _ => done
    | _ => done

end

/-- The next command of a script; `none` at its end. An empty line is a command that does
nothing. -/
def next : Reading (Option Command) := do
  modify fun s => { s with pushed := false, pending := [], expectation := {} }
  let fuel ← supply
  let body ← list fuel true false none
  match body with
  | some c => return some c
  | none => return if (← get).last == .endOfFile then none else some .nothing

/-- The word that a text would be between double quotes, in a single-quoted context of its own:
quotes in it stand for themselves. -/
def quotedText (text : Text) : Except SyntaxError Word :=
  let document : HereDocument := ⟨0, [], false, false⟩
  let run : Reading Word := do
    let fuel ← supply
    return (← documentText fuel document false []).reverse
  (run.run { rest := text }).map Prod.fst

end Script
end IncrementalBuild.Shell
