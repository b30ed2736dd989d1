import IncrementalBuild.Json.Decoder
import IncrementalBuild.Message
/-!
# Messages as JSON

## Main definitions

* `Json.ofRequest`, `Json.ofResponse`, `Json.ofResult`, `Json.ofOptions` — messages as values,
  with all their fields in declared order.
* `Json.request`, `Json.response`, `Json.result`, `Json.options` — their decoders. Every field of
  build options may be left out; the fields of the other messages may not.
-/

namespace IncrementalBuild.Json

/-- Build options as a value. -/
def ofOptions (o : BuildOptions) : Value :=
  .object [
    ("work_directory", .text o.workDirectory),
    ("assembly_name", .text o.assemblyName),
    ("output", .text o.output),
    ("defines", .texts o.defines),
    ("references", .texts o.references),
    ("files", .texts o.files),
    ("debug_symbols", .text o.debugSymbols.name),
    ("output_reuse", .text o.outputReuse.name),
    ("allow_unsafe", .bool o.allowUnsafe),
    ("extra_flags", .texts o.extraFlags),
    ("suppressed", .texts o.suppressed)]

/-- A build request as a value. -/
def ofRequest (r : BuildCall) : Value :=
  .object [("project", .text r.project), ("options", ofOptions r.options)]

/-- A build result as a value. -/
def ofResult (r : BuildResult) : Value :=
  .object [
    ("succeeded", .bool r.succeeded),
    ("warnings", .texts r.warnings),
    ("errors", .texts r.errors)]

/-- An answer as a value. -/
def ofResponse : Reply → Value
  | .built result => .object [("Built", ofResult result)]
  | .failed message => .object [("Failed", .object [("message", .text message)])]

/-- Reads a debug-symbol mode. -/
def symbolMode : Decoder SymbolMode := choice (SymbolMode.all.map fun m => (m.name, m))

/-- Reads a reuse policy. -/
def reusePolicy : Decoder ReusePolicy := choice (ReusePolicy.all.map fun p => (p.name, p))

/-- The fields of build options. -/
def optionFields : List (Field BuildOptions) := [
  .of "work_directory" text fun v o => { o with workDirectory := v },
  .of "assembly_name" text fun v o => { o with assemblyName := v },
  .of "output" text fun v o => { o with output := v },
  .of "defines" (list text) fun v o => { o with defines := v },
  .of "references" (list text) fun v o => { o with references := v },
  .of "files" (list text) fun v o => { o with files := v },
  .of "debug_symbols" symbolMode fun v o => { o with debugSymbols := v },
  .of "output_reuse" reusePolicy fun v o => { o with outputReuse := v },
  .of "allow_unsafe" bool fun v o => { o with allowUnsafe := v },
  .of "extra_flags" (list text) fun v o => { o with extraFlags := v },
  .of "suppressed" (list text) fun v o => { o with suppressed := v }]

/-- Reads build options. -/
def options : Decoder BuildOptions := record optionFields {}

/-- Reads a build request. -/
def request : Decoder BuildCall :=
  record [
    .must "project" text fun v r => { r with project := v },
    .must "options" options fun v r => { r with options := v }] {}

/-- Reads a build result. -/
def result : Decoder BuildResult :=
  record [
    .must "succeeded" bool fun v r => { r with succeeded := v },
    .must "warnings" (list text) fun v r => { r with warnings := v },
    .must "errors" (list text) fun v r => { r with errors := v }] {}

/-- Reads the message of a failure. -/
def failure : Decoder String := record [.must "message" text fun v _ => v] ""

/-- Reads the part of an answer that belongs to its name. -/
def responsePart (name : String) : Option (Decoder Reply) :=
  match name with
  | "Built" => some (result.map .built)
  | "Failed" => some (failure.map .failed)
  | _ => none

/-- Reads an answer: an object whose one member has the name of the kind of answer. -/
def response : Decoder Reply := fun cs =>
  match skipSpace cs with
  | '"' :: rest => (stringRest rest).bind fun _ => .error .mismatched
  | '\x7b' :: rest =>
    match text rest with
    | .error e => .error e
    | .ok (name, rest) =>
      match responsePart name with
      | none => .error .mismatched
      | some part =>
        match skipSpace rest with
        | ':' :: rest =>
          match part rest with
          | .error e => .error e
          | .ok (r, rest) =>
            match skipSpace rest with
            | '\x7d' :: rest => .ok (r, rest)
            | _ => .error .malformed
        | _ => .error .malformed
  | _ => .error .malformed

end IncrementalBuild.Json
