import IncrementalBuild.Archive
import IncrementalBuild.Message
/-!
# Frames

A message on a local socket is a frame: the length of its body in four bytes, then the body, which
is an archive.

## Main definitions

* `Frame.ofRequest`, `Frame.ofReply` — the frame of a message, whose length is known before it is
  written (`Frame.lengthOf`).
* `Frame.requestOf`, `Frame.replyOf` — the message of a body.
* `Frame.take?`, `Frame.read` — the next bytes, and the next message, of a stream that arrives in
  pieces.
-/

namespace IncrementalBuild.Frame

open Archive

/-- The longest body that is accepted. -/
def maxLength : Nat := 104857600

/-- The place of a value in a list. -/
def indexIn {α : Type} [BEq α] (values : List α) (a : α) : UInt8 := UInt8.ofNat (values.idxOf a)

/-! ### Bodies -/

/-- A truth value. -/
def flag (b : Bool) : Layout := byte (if b then 1 else 0)

/-- The layout of build options. -/
def optionsLayout (o : BuildOptions) : Layout :=
  sequence [
    text o.workDirectory, text o.assemblyName, text o.output,
    texts o.defines, texts o.references, texts o.files,
    byte (indexIn SymbolMode.all o.debugSymbols), byte (indexIn ReusePolicy.all o.outputReuse),
    flag o.allowUnsafe, gap 1,
    texts o.extraFlags, texts o.suppressed]

/-- The layout of a call. -/
def requestLayout (r : BuildCall) : Layout := sequence [text r.project, optionsLayout r.options]

/-- The layout of a build result. -/
def resultLayout (r : BuildResult) : Layout :=
  sequence [flag r.succeeded, gap 3, texts r.warnings, texts r.errors]

/-- The layout of an answer: a tag, and the result or the message of a failure. -/
def replyLayout : Reply → Layout
  | .built result => sequence [byte 0, gap 3, resultLayout result]
  | .failed message => sequence [byte 1, gap 3, text message, gap 12]

/-- The size of a call's head. -/
def requestSize : Nat := 76

/-- The size of an answer's head. -/
def replySize : Nat := 24

/-- Reads build options. -/
def readOptions : Reader BuildOptions := do
  let workDirectory ← readText
  let assemblyName ← readText
  let output ← readText
  let defines ← readTexts
  let references ← readTexts
  let files ← readTexts
  let debugSymbols ← readIndex SymbolMode.all
  let outputReuse ← readIndex ReusePolicy.all
  let allowUnsafe ← readBool
  skip 1
  let extraFlags ← readTexts
  let suppressed ← readTexts
  return { workDirectory, assemblyName, output, defines, references, files, debugSymbols,
           outputReuse, allowUnsafe, extraFlags, suppressed }

/-- Reads a call. -/
def readRequest : Reader BuildCall := do
  let project ← readText
  let options ← readOptions
  return { project, options }

/-- Reads a build result. -/
def readResult : Reader BuildResult := do
  let succeeded ← readBool
  skip 3
  let warnings ← readTexts
  let errors ← readTexts
  return { succeeded, warnings, errors }

/-- Reads an answer. -/
def readReply : Reader Reply := do
  let failed ← readBool
  skip 3
  if failed then
    let message ← readText
    skip 12
    return .failed message
  else
    let result ← readResult
    return .built result

/-- The message of a body, or the fault that there is none. -/
def decoded {α : Type} (message : Option α) : Except CallError α :=
  match message with
  | some a => .ok a
  | none => .error (.protocol "Failed to decode message")

/-- The call in a body. -/
def requestOf (body : Bytes) : Except CallError BuildCall :=
  decoded (unpack requestSize readRequest body)

/-- The answer in a body. -/
def replyOf (body : Bytes) : Except CallError Reply := decoded (unpack replySize readReply body)

/-! ### Frames -/

/-- The length of a message's body. There is none if a text in it is too long to be written, or if
the length does not fit into four bytes. -/
def lengthOf (layout : Layout) : Except CallError Nat :=
  let length := layout.wholeSize 0
  if longestText < layout.longest then .error (.protocol "Failed to encode message")
  else if 4294967296 ≤ length then .error (.protocol s!"Message too large: {length} bytes")
  else .ok length

/-- The frame of a message. -/
def ofLayout (layout : Layout) : Except CallError Bytes :=
  (lengthOf layout).map fun length => le32 length ++ pack layout

/-- The frame of a call. -/
def ofRequest (r : BuildCall) : Except CallError Bytes := ofLayout (requestLayout r)

/-- The frame of an answer. -/
def ofReply (r : Reply) : Except CallError Bytes := ofLayout (replyLayout r)

/-! ### Streams -/

/-- The next `n` bytes of a stream that arrives in pieces, if there are so many. -/
def take? : Nat → List Bytes → Option (Bytes × List Bytes)
  | n, [] => if n = 0 then some ([], []) else none
  | n, piece :: rest =>
    if n ≤ piece.length then some (piece.take n, piece.drop n :: rest)
    else (take? (n - piece.length) rest).map fun r => (piece ++ r.1, r.2)

/-- The next message of a stream that has ended after its pieces. -/
def read {α : Type} (decode : Bytes → Except CallError α) (pieces : List Bytes) :
    Except CallError (α × List Bytes) :=
  match take? 4 pieces with
  | none => .error (.protocol "Failed to read message length: unexpected end of file")
  | some (size, pieces) =>
    let n := ofLe32 size
    if maxLength < n then .error (.protocol s!"Message too large: {n} bytes")
    else
      match take? n pieces with
      | none => .error (.protocol "Failed to read message body: early eof")
      | some (body, pieces) => (decode body).map fun a => (a, pieces)

end IncrementalBuild.Frame
