import IncrementalBuild.Converter
import IncrementalBuild.Engine.Command
import IncrementalBuild.Host.Program
import IncrementalBuild.Site
/-!
# Compilers, converters and servers as programs of the host

The library leaves open what running a program does. Here the programs are those of the host: its
own tools, and scripts for its shell.

## Main definitions

* `Converter.tool`, `Converter.ofHost` — converters that are programs.
* `Site.processes` — servers that are programs.
-/

namespace IncrementalBuild

/-- A command stands for the compiler that it runs on the host. -/
instance : Coe CompilerCommand Compiler := ⟨fun command => ⟨command, Program.run⟩⟩

namespace Converter

/-- A converter that is a program of the host. -/
def tool (program : Path) : Converter := running Program.run program

/-- The converter of a host: a tool, or one that fails because no tool was found. -/
def ofHost (configured : Option Path) (h : Host) : Converter :=
  match locate configured h with
  | .ok p => tool p
  | .error e => missing e.message

end Converter

/-- Servers that are programs of the host. -/
def Site.processes {τ : Type} (program : Path) (args : List String) : Launcher (Site τ) Nat :=
  spawning Program.run program args

end IncrementalBuild
