import IncrementalBuild.Engine
import IncrementalBuild.Text.Map
/-!
# An engine that records

This engine compiles nothing. Its binaries name what they were emitted from, lines of the sources
tell it what to report, and it records every operation. It serves to observe what a build asks of
an engine.

## Main definitions

* `Recording.State` — what was asked so far, and a file to be saved while a source is parsed.
* `Recording.engine` — the engine.

## Directives

A line of an input that starts with `!` is a directive: a word, and after one space its text.
`!badref`, `!badsource` and `!badunit` make the engine refuse an input. The others matter when
the unit is emitted: `!error`, `!harderror`, `!softerror`, `!warning`, `!escalate`, `!info` and
`!hidden` report a code and a message at their line, `!fail` and `!nosymbols` change what is
emitted, `!binary` gives the binary in hexadecimal, `!crash` makes the emit fail, and `!panic`
makes the engine crash.
-/

namespace IncrementalBuild.Recording

/-- A reference as it was read. -/
structure Reference where
  path : String
  contents : String
  deriving DecidableEq, Repr

/-- A source as it was read, and the defines it was parsed under. -/
structure Source where
  path : String
  contents : String
  defines : List String
  deriving DecidableEq, Repr

/-- What a binary is emitted from; inputs are keyed by the texts of their paths. -/
structure RecordedUnit where
  settings : UnitSettings := {}
  references : TextMap String := {}
  sources : TextMap (String × List String) := {}
  deriving Repr

/-- An operation on a unit. -/
inductive Operation
  | addReference (path : String)
  | removeReference (path : String)
  | addSource (path : String)
  | removeSource (path : String)
  deriving DecidableEq, Repr

/-- An operation in one line. -/
def Operation.text : Operation → String
  | .addReference p => s!"+ref {p}"
  | .removeReference p => s!"-ref {p}"
  | .addSource p => s!"+src {p}"
  | .removeSource p => s!"-src {p}"

/-- A file to be saved right after a source was read. -/
structure PendingSave where
  /-- The source, or the last components of its path. -/
  trigger : Path
  save : Save
  deriving Repr

/-- What was asked of the engine. -/
structure State where
  /-- The operations on units since the record was last taken. -/
  operations : List Operation := []
  /-- The references resolved since then. -/
  resolved : List String := []
  /-- The sources parsed since then. -/
  parsed : List String := []
  /-- How many units were built. -/
  units : Nat := 0
  /-- How many emits were begun. -/
  emits : Nat := 0
  pending : Option PendingSave := none
  deriving Repr

/-- Forgets the operations and inputs recorded so far; the totals stay. -/
def State.clear (s : State) : State := { s with operations := [], resolved := [], parsed := [] }

/-! ### Directives -/

/-- A directive and the line it stands on, counted from one. -/
structure Directive where
  word : String
  text : String
  line : Nat
  deriving DecidableEq, Repr

/-- The directive a line holds, if it holds one. -/
def Directive.ofLine? (number : Nat) : List Char → Option Directive
  | '!' :: rest =>
    some ⟨String.ofList (rest.takeWhile (· != ' ')),
      String.ofList ((rest.dropWhile (· != ' ')).drop 1), number⟩
  | _ => none

/-- The directives of lines, the first of which has a number. -/
def directivesFrom : Nat → List (List Char) → List Directive
  | _, [] => []
  | number, line :: rest =>
    match Directive.ofLine? number line with
    | some d => d :: directivesFrom (number + 1) rest
    | none => directivesFrom (number + 1) rest

/-- The directives of a text. -/
def directives (contents : String) : List Directive :=
  directivesFrom 1 (Blank.pieces (· == '\n') contents.toList)

/-- The text of the first directive with a word. -/
def directive? (word contents : String) : Option String :=
  ((directives contents).find? (·.word == word)).map Directive.text

/-- A text cut at its first space. -/
def cutSpace (text : String) : String × String :=
  (String.ofList (text.toList.takeWhile (· != ' ')),
    String.ofList ((text.toList.dropWhile (· != ' ')).drop 1))

/-- What a directive reports, if it reports something. -/
def Directive.report? (path : String) (d : Directive) : Option Diagnostic :=
  let report (severity : Severity) (escalated : Bool) : Option Diagnostic :=
    let (code, message) := cutSpace d.text
    some ⟨severity, code, message, some ⟨path, d.line, 1⟩, escalated⟩
  match d.word with
  | "error" | "softerror" => report .error false
  | "harderror" => report .error true
  | "warning" => report .warning false
  | "escalate" => report .warning true
  | "info" => report .info true
  | "hidden" => report .hidden false
  | _ => none

/-- Lets a directive of a source take part in an emit. -/
def Directive.emit (path : String) (out : EmitOutput) (d : Directive) : Except Failure EmitOutput :=
  match d.word with
  | "crash" => .error (.error (.engine d.text))
  | "panic" => .error .crash
  | "fail" => .ok { out with succeeded := false }
  | "nosymbols" => .ok { out with symbols := none }
  | "binary" => .ok { out with binary := (Bytes.ofHex? d.text).getD out.binary }
  | word =>
    let out := if word = "harderror" then { out with succeeded := false } else out
    match d.report? path with
    | some report => .ok { out with diagnostics := out.diagnostics ++ [report] }
    | none => .ok out

/-! ### The operations -/

/-- The last components of `p`, as many as `suffix` has, are those of `suffix`. -/
def endsWith (p suffix : Path) : Bool := suffix.components.isSuffixOf p.components

/-- Finds a reference and reads it. -/
def resolveReference (p : Path) : Task State Reference := fun w =>
  let w := { w with engine := { w.engine with resolved := w.engine.resolved ++ [p.text] } }
  match Access.readText p w.host with
  | (.error _, host) =>
    (.error (.error (.unresolvedReference p "file not found")), { w with host })
  | (.ok contents, host) =>
    match directive? "badref" contents with
    | some reason => (.error (.error (.unresolvedReference p reason)), { w with host })
    | none => (.ok ⟨p.text, contents⟩, { w with host })

/-- Performs the pending save if a source triggers it. -/
def performSave (p : Path) (w : World State) : World State :=
  match w.engine.pending with
  | none => w
  | some pending =>
    if endsWith p pending.trigger then
      { host := { w.host with files := w.host.files.save pending.save }
        engine := { w.engine with pending := none } }
    else w

/-- Reads a source. -/
def parseSource (p : Path) (defines : List String) : Task State Source := fun w =>
  let w := { w with engine := { w.engine with parsed := w.engine.parsed ++ [p.text] } }
  match Access.readText p w.host with
  | (.error e, host) => (.error (.error (.parse p e.message)), { w with host })
  | (.ok contents, host) =>
    let w := performSave p { w with host }
    match directive? "badsource" contents with
    | some reason => (.error (.error (.parse p reason)), w)
    | none => (.ok ⟨p.text, contents, defines⟩, w)

/-- Puts handles into a new unit. -/
def buildUnit (sources : List Source) (references : List Reference) (settings : UnitSettings) :
    Task State RecordedUnit := fun w =>
  match sources.findSome? fun s => directive? "badunit" s.contents with
  | some reason => (.error (.error (.engine reason)), w)
  | none =>
    let w := { w with engine := { w.engine with units := w.engine.units + 1 } }
    (.ok {
      settings
      references := .ofList (references.map fun r => (r.path, r.contents))
      sources := .ofList (sources.map fun s => (s.path, s.contents, s.defines)) }, w)

/-- Records an operation. -/
def record (operation : Operation) (s : State) : State :=
  { s with operations := s.operations ++ [operation] }

/-- What an emit yields before the directives of the sources take part. -/
def plainOutput (number : Nat) (u : RecordedUnit) (format : Option SymbolFormat) : EmitOutput where
  binary := Bytes.ofString
    (s!"emit#{number}|{u.settings.assemblyName}|" ++ ",".intercalate u.references.keys ++ "|"
      ++ ",".intercalate u.sources.keys)
  symbols := format.map fun
    | .native => Bytes.ofString s!"native#{number}"
    | .portable => Bytes.ofString s!"portable#{number}"
  succeeded := true

/-- Emits a unit. -/
def emit (u : RecordedUnit) (format : Option SymbolFormat) : Task State EmitOutput := fun w =>
  let number := w.engine.emits + 1
  let w := { w with engine := { w.engine with emits := number } }
  let all := u.sources.entries.flatMap fun (path, contents, _) =>
    (directives contents).map fun d => (path, d)
  (all.foldlM (fun out (path, d) => d.emit path out) (plainOutput number u format), w)

/-- The engine that records. -/
def engine : Engine State Reference Source RecordedUnit where
  resolveReference := resolveReference
  parseSource := parseSource
  buildUnit := buildUnit
  addReference r u s :=
    ({ u with references := u.references.insert r.path r.contents },
      record (.addReference r.path) s)
  removeReference r u s :=
    ({ u with references := u.references.erase r.path }, record (.removeReference r.path) s)
  addSource r u s :=
    ({ u with sources := u.sources.insert r.path (r.contents, r.defines) },
      record (.addSource r.path) s)
  removeSource r u s :=
    ({ u with sources := u.sources.erase r.path }, record (.removeSource r.path) s)
  emit := emit

end IncrementalBuild.Recording
