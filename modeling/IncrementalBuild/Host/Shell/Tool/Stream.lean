import IncrementalBuild.Host.Shell.Editing
import IncrementalBuild.Host.Shell.Tool.Options
/-!
# The stream editor

The tool that runs an editing script over files.

## Main definitions

* `Shell.Tool.ScriptPart` — a part of a script, from an option or a file.
* `Shell.Tool.faultText` — the message for a mistake in a script, which names the part.
* `Shell.Tool.sed` — the tool, which returns its status.
-/

namespace IncrementalBuild.Shell.Tool

/-! ### Scripts -/

/-- A part of an editing script. -/
structure ScriptPart where
  text : Text
  /-- The file it stands in, if it does not stand in an argument. -/
  file : Option Text := none

/-- The message for a mistake that was noticed after so many characters. The parts before are
counted, as far as they stand in arguments. -/
def faultPlace (before : Nat) : Nat → List ScriptPart → Text
  | _, [] => []
  | place, part :: rest =>
    let isLast := rest.isEmpty || place ≤ part.text.length
    match part.file with
    | some name =>
      if isLast then
        let line := ((part.text.take (place - 1)).filter (· == '\n')).length + 1
        lit "file " ++ name ++ lit " line " ++ Text.ofNat line ++ lit ": "
      else faultPlace before (place - part.text.length - 1) rest
    | none =>
      if isLast then
        lit "-e expression #" ++ Text.ofNat (before + 1) ++ lit ", char " ++ Text.ofNat place
          ++ lit ": "
      else faultPlace (before + 1) (place - part.text.length - 1) rest

/-- The message for a mistake in a script. -/
def faultText (parts : List ScriptPart) (e : EditFault) : Text :=
  (e.place.map fun place => faultPlace 0 place parts).getD [] ++ lit e.message

/-- The files that a script writes to. -/
def writtenFiles (script : Editor) : List Text :=
  (script.filterMap fun c =>
    match c.2 with
    | .writeFile _ name => some name
    | .substitute s => s.file
    | _ => none).eraseDups.filter (· != Editing.outputName)

/-- The parts of a script that options or the first operand give, with the operands that are
left. -/
def scriptParts (given : Given) (operands : List Text) : Run (List ScriptPart × List Text) := do
  let mut all : List ScriptPart := []
  for (letter, value) in given do
    if letter == 'e' then all := all ++ [{ text := value }]
    else if letter == 'f' then
      match ← contents value with
      | .ok cs =>
        let text := if cs.getLast? == some '\n' then cs.dropLast else cs
        all := all ++ [{ text, file := some value }]
      | .error e => stop 4 (lit "couldn't open file " ++ value ++ lit ": " ++ cause e)
  if !all.isEmpty then return (all, operands)
  else
    match operands with
    | [] => do
      Run.complain
        (lit "Usage: sed [OPTION]... \x7bscript-only-if-no-other-script\x7d [input-file]...")
      Run.stop 1 .exit
    | text :: rest => return ([{ text }], rest)

/-! ### Files -/

/-- What ends the work on one of several files. -/
inductive InputFault
  /-- The file is left out. -/
  | missing (name : Text) (cause : FileError)
  /-- The editor stops there. -/
  | unreadable (name : Text) (cause : FileError)

/-- Tells of an input file and says with which status the editor ends. -/
def InputFault.tell (f : InputFault) : Run Nat := do
  match f with
  | .missing name e => do
    complain (lit "can't read " ++ name ++ lit ": " ++ cause e)
    return 2
  | .unreadable name e => do
    complain (lit "read error on " ++ name ++ lit ": " ++ cause e)
    return 4

/-- Takes over what an editor has done to files, and tells of an expression that was lacking. -/
def takeOver (lacking : Text) (e : Editing) (files : Files) : Run Unit := do
  modify fun st => { st with files }
  if e.lost then complain lacking

/-- Edits files as one long text. -/
def editTogether (script : Editor) (lacking : Text) (start : Editing) (names : List Text) :
    Run Nat := do
  let mut lines : List InputLine := []
  let mut shown : List (Nat × Text) := []
  let mut faults : List (Nat × InputFault) := []
  for name in names do
    match ← contents name with
    | .ok cs =>
      shown := shown ++ [(lines.length, name)]
      lines := lines ++ Editing.linesOf start.lineEnd cs
    | .error .isADirectory =>
      faults := faults ++ [(lines.length, .unreadable name .isADirectory)]
      break
    | .error e => faults := faults ++ [(lines.length, .missing name e)]
  let (e, chosen) := Editing.run script { start with files := (← get).files, lines, names := shown }
  takeOver lacking e e.files
  Run.print e.output
  let mut status := chosen.getD 0
  for (place, fault) in faults do
    if chosen.isNone || place < e.number then status := ← fault.tell
  return status

/-- The name of the copy that is kept of an edited file. -/
def backupName (suffix name : Text) : Text :=
  let base := (Text.splitAt '/' name).getLast?.getD []
  let directory := name.take (name.length - base.length)
  if suffix.contains '*' then
    let copy := suffix.flatMap fun c => if c == '*' then base else [c]
    if copy.contains '/' then copy else directory ++ copy
  else name ++ suffix

/-- Edits files one by one; a suffix says that they are changed themselves. What is held and which
ranges have begun stays from file to file. -/
def editEach (script : Editor) (lacking : Text) (suffix : Option Text) (e : Editing)
    (status : Nat) : List Text → Run Nat
  | [] => return status
  | name :: rest => do
    let files := (← get).files
    let path := Text.toPath name
    let place : Except FileError Location := files.locate path
    let entry : Except FileError Entry := files.stat path
    match suffix, entry, place with
    | some _, .error cause, _ => do
      let status ← (InputFault.missing name cause).tell
      editEach script lacking suffix e status rest
    | some suffix', .ok (.file bytes stamp mark), .ok here => do
      let (e, chosen) := Editing.run script { e with
        files, names := [(0, name)], number := 0, printed := [], unfinished := false
        lines := Editing.linesOf e.lineEnd (Text.ofBytes bytes) }
      let edited := e.files.putFile here (Text.toBytes e.output)
      let kept := if suffix'.isEmpty then edited
        else
          match edited.target (Text.toPath (backupName suffix' name)) with
          | .ok goal =>
            match goal.name? with
            | some last =>
              edited.put (goal.directory ++ [String.ofList last]) (.file bytes stamp mark)
            | none => edited
          | .error _ => edited
      takeOver lacking e (if e.lost then e.files else kept)
      match chosen with
      | some n => return if status = 0 then n else status
      | none => editEach script lacking suffix e status rest
    | some _, _, _ => do
      complain (lit "couldn't edit " ++ name ++ lit ": not a regular file")
      editEach script lacking suffix e 4 rest
    | none, _, _ =>
      match ← contents name with
      | .error .isADirectory => (InputFault.unreadable name .isADirectory).tell
      | .error cause => do
        let status ← (InputFault.missing name cause).tell
        editEach script lacking suffix e status rest
      | .ok cs => do
        let (e, chosen) := Editing.run script { e with
          files := (← get).files, names := [(0, name)], number := 0, printed := []
          lines := Editing.linesOf e.lineEnd cs }
        takeOver lacking e e.files
        Run.print e.output
        match chosen with
        | some n => return if status = 0 then n else status
        | none => editEach script lacking suffix e status rest

/-! ### The tool -/

/-- Runs an editing script over files. -/
def sed (args : List Text) : Run Nat := do
  let (given, operands) ← options 1
    [⟨'n', "quiet", .nothing⟩, ⟨'n', "silent", .nothing⟩, ⟨'e', "expression", .argument⟩,
     ⟨'f', "file", .argument⟩, ⟨'E', "regexp-extended", .nothing⟩, ⟨'r', "", .nothing⟩,
     ⟨'i', "in-place", .attached⟩, ⟨'s', "separate", .nothing⟩, ⟨'u', "unbuffered", .nothing⟩,
     ⟨'z', "null-data", .nothing⟩, ⟨'l', "line-length", .argument⟩, ⟨'P', "posix", .nothing⟩] args
  let (parts, names) ← scriptParts given operands
  let extended := given.has 'E' || given.has 'r'
  let text := Text.joinWith ['\n'] (parts.map ScriptPart.text)
  let script ← match Editor.read extended text with
    | .ok script => pure script
    | .error e => stop (if e.place.isSome then 1 else 4) (faultText parts e)
  for name in writtenFiles script do
    match (← get).files.create (Text.toPath name) with
    | .ok files => modify fun st => { st with files }
    | .error e => stop 4 (lit "couldn't open file " ++ name ++ lit ": " ++ cause e)
  let saysQuiet := ['#', 'n'].isPrefixOf text
  let start : Editing := {
    files := (← get).files, lines := [], quiet := given.has 'n' || saysQuiet
    lineEnd := if given.has 'z' then '\x00' else '\n'
    width := (given.value? 'l').elim 70 fun cs => valueOf (cs.takeWhile Char.isDigit) }
  let arguments := (parts.filter fun part => part.file.isNone).length
  let lacking := lit "-e expression #" ++ Text.ofNat arguments
    ++ lit ", char 0: no previous regular expression"
  let suffix := given.value? 'i'
  if suffix.isSome && names.isEmpty then stop 4 (lit "no input files")
  let names := if names.isEmpty then [['-']] else names
  if suffix.isSome || given.has 's' then editEach script lacking suffix start 0 names
  else editTogether script lacking start names

end IncrementalBuild.Shell.Tool
