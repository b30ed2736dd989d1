import IncrementalBuild.BuildError
import IncrementalBuild.Host
import IncrementalBuild.Options
/-!
# Symbol converters

A converter turns the symbols beside a binary, in the compiler's own format, into the portable
format. It finds both files by the path of the binary.

## Main definitions

* `Converter` — converters, which return an exit code.
* `Converter.running`, `Converter.locate` — a converter that runs a program, and the program that is
  run when none is configured.
* `Converter.missing`, `Converter.exiting`, `Converter.copying` — converters that fail, that only
  return a code, and that mark and copy the symbols they find.
* `convertSymbols` — runs a converter and takes the symbols it leaves.
-/

namespace IncrementalBuild

/-- Converts the symbols beside a binary, and returns an exit code. -/
abbrev Converter := Path → Host → Except BuildError Int × Host

namespace Converter

/-- The code a finished program counts as; a program that a signal ended has none of its own. -/
def codeOf : ExitStatus → Int
  | .code n => n
  | .signal _ => -1

/-- Runs a program on the binary. -/
def running (runner : Runner) (program : Path) : Converter := fun binary h =>
  match Access.run runner program.text [binary.text] h with
  | (.ok finished, h) => (.ok (codeOf finished.status), h)
  | (.error e, h) =>
    (.error (.symbolConversion s!"Failed to run '{program.text}': {e.message}"), h)

/-- Fails for a reason. -/
def missing (reason : String) : Converter := fun _ h => (.error (.symbolConversion reason), h)

/-- Returns a code and does nothing. -/
def exiting (code : Int) : Converter := fun _ h => (.ok code, h)

/-- Copies the compiler's symbols, marked, to the portable symbol file. -/
def copying : Converter := fun binary h =>
  match Access.read (nativeSymbolPath binary) h with
  | (.error e, h) => (.error (.io e), h)
  | (.ok symbols, h) =>
    match Access.write (portableSymbolPath binary) (Bytes.ofString "CONVERTED:" ++ symbols) h with
    | (.error e, h) => (.error (.io e), h)
    | (.ok (), h) => (.ok 0, h)

/-- The name of the conversion tool. -/
def toolName : String := "pdb2mdb"

/-- The conversion tool: the configured one if something stands at its path, else the first
program of its name on the search path. -/
def locate (configured : Option Path) (h : Host) : Except BuildError Path :=
  let fallback : Except BuildError Path :=
    match Program.locate? h.files h.searchPath toolName with
    | some p => .ok p
    | none => .error (.symbolConversion
        s!"Could not find {toolName}. Set KILN_SYMBOL_CONVERTER or ensure it's in PATH.")
  match configured with
  | some p => if h.exists? p then .ok p else fallback
  | none => fallback

end Converter

/-- Removes a file, if it can be removed. -/
def removeIfPresent (p : Path) (h : Host) : Host := (Access.remove p h).2

/-- Converts the symbols beside a binary: the compiler's own are removed, and the portable ones
are returned. -/
def convertSymbols (converter : Converter) (binary : Path) :
    Host → Except BuildError Bytes × Host := fun h =>
  match converter binary h with
  | (.error e, h) => (.error e, h)
  | (.ok code, h) =>
    let h := removeIfPresent (nativeSymbolPath binary) h
    let converted := portableSymbolPath binary
    match Access.read converted h with
    | (.ok symbols, h) => (.ok symbols, h)
    | (.error e, h) =>
      (.error (.symbolConversion
        s!"converter exited with {code} and produced no {converted.text}: {e.message}"), h)

end IncrementalBuild
