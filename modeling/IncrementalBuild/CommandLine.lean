import IncrementalBuild.Arguments
import IncrementalBuild.Invocation.Help
import IncrementalBuild.Settings
import IncrementalBuild.Site
/-!
# The command line

What the program does when it is invoked: as a client it builds through a server and prints what
was diagnosed; as a server it listens for its owner.

## Main definitions

* `BuildSite` — sites whose servers build with the compilers that settings name.
* `CommandLine.serve` — starts a server.
* `CommandLine.build` — one build through a server, which may have to be launched.
* `CommandLine.run` — an invocation, with what it prints and the code it exits with.

## Exit codes

A command line that cannot be read ends with code two. Every other failure ends with code one,
also that of a build.
-/

namespace IncrementalBuild

/-- What the server of a registry keeps between calls: the registry, and when its slots are free. -/
abbrev ServerMemory := (Registry Path ParsedSource CommandUnit × PUnit) × (Nat → Nat)

/-- A site whose servers build with compilers. Every server keeps a memory of its own. -/
abbrev BuildSite := Site (Nat → ServerMemory)

namespace CommandLine

/-- The memory of servers that were not called yet. -/
def freshMemory : Nat → ServerMemory := fun _ => (({}, ⟨⟩), fun _ => 0)

/-- A site where no server listens. -/
def siteOf (host : Host) : BuildSite := { host, state := freshMemory }

/-- Why an invocation failed. -/
inductive Fault
  | settings (cause : SettingsError)
  | arguments (cause : ArgumentError)
  /-- The settings name nothing to build with. -/
  | toolchain (reason : String)
  | call (cause : CallError)
  deriving DecidableEq, Repr

/-- The text of a fault. -/
def Fault.message : Fault → String
  | .settings cause => cause.message
  | .arguments cause => cause.message
  | .toolchain reason => reason
  | .call cause => cause.message

/-! ### Servers -/

/-- The service of a server with a toolchain, which works in a directory. -/
def service (t : Toolchain PUnit Path ParsedSource CommandUnit) (dir : Location) (number : Nat) :
    Service ((Nat → ServerMemory) × Host) :=
  ((Service.inTurn t).within dir).numbered number

/-- Starts a server for an owner as settings say. -/
def serveWith (settings : Settings) (owner : Nat) (s : BuildSite) :
    Except Fault Server × BuildSite :=
  match settings.toolchain s.host with
  | .error reason => (.error (.toolchain reason), s)
  | .ok t =>
    match s.open { owner, transport := settings.transport } (service t s.host.files.workDir) with
    | (.error cause, _, s) => (.error (.call cause), s)
    | (.ok (), server, s) => (.ok server, s)

/-- Opens the log file of a server, which exists from then on. -/
def openLog (s : BuildSite) : BuildSite :=
  let files := s.host.files
  match files.append (Settings.logPath files files.currentDirectory) [] with
  | .ok files => { s with host := { s.host with files } }
  | .error _ => s

/-- Starts a server. -/
def serve (demand : ServerDemand) (s : BuildSite) : Except Fault Server × BuildSite :=
  let s := openLog s
  match Settings.load s.host.files demand.settings with
  | .error cause => (.error (.settings cause), s)
  | .ok settings => serveWith settings demand.owner s

/-! ### Clients -/

/-- Servers that are launched as further processes of the program, with the same settings. A
handle tells whether the process has ended. -/
def ownProcesses (demand : BuildDemand) : Launcher BuildSite Bool where
  launch owner s :=
    match serve { owner, settings := demand.settings, verbose := demand.verbose } s with
    | (.error _, s) => (.ok true, s)
    | (.ok _, s) => (.ok false, s)
  hasExited ended s := (ended, ended, s)

/-- The largest number of attempts that a client can make before its deadline; without one, a
launched server has exited or answers by the third. -/
def attemptSupply (c : ClientConfig) : Nat := (Client.limit? c).getD 0 / max 1 c.pollInterval + 4

/-- Calls a server as a client that launches servers in one way. -/
def call {η : Type} (c : ClientConfig) (launcher : Launcher BuildSite η) (owner : Nat)
    (request : BuildCall) (s : BuildSite) : Option BuildResult × BuildSite :=
  match Client.build c (Site.surroundings launcher) (attemptSupply c) owner request s with
  | some (result, _, s) => (some result, s)
  | none => (none, s)

/-- A build through a server that runs on a thread of this process, and ends with it. -/
def buildInProcess (settings : Settings) (process : Nat) (request : BuildCall) (s : BuildSite) :
    Except Fault (Option BuildResult) × BuildSite :=
  match settings.toolchain s.host with
  | .error reason => (.error (.toolchain reason), s)
  | .ok t =>
    let launcher := Site.threads settings.transport (service t s.host.files.workDir)
    let (result, after) := call settings.client launcher process request s
    (.ok result, after.abandonFrom s.host.servers)

/-- A build by the process with a number: its result, or none if it goes on waiting. -/
def build (process : Nat) (demand : BuildDemand) (s : BuildSite) :
    Except Fault (Option BuildResult) × BuildSite :=
  let files := s.host.files
  let dir := files.currentDirectory
  match Settings.load files demand.settings with
  | .error cause => (.error (.settings cause), s)
  | .ok settings =>
    match Arguments.parse files dir demand.args with
    | .error cause => (.error (.arguments cause), s)
    | .ok arguments =>
      let options := arguments.options dir settings.debugSymbols settings.outputReuse
      let request : BuildCall := { project := dir.text, options }
      if demand.inProcess then buildInProcess settings process request s
      else
        match Owner.resolve s.host demand.owner options.defines settings.ownerName with
        | .error cause => (.error (.call cause), s)
        | .ok owner =>
          let (result, s) := call settings.client (ownProcesses demand) owner request s
          (.ok result, s)

/-! ### Invocations -/

/-- What an invocation comes to. -/
inductive Ending
  /-- It exits with a code, after printing lines to the output and to the error output. -/
  | exited (code : Nat) (output errors : List String)
  /-- It goes on as a server. -/
  | serving (server : Server)
  /-- It goes on waiting for a server. -/
  | waiting
  deriving DecidableEq, Repr

/-- The ending with a message. -/
def failed (code : Nat) (message : String) : Ending := .exited code [] [s!"error: {message}"]

/-- The ending with a build result, whose diagnostics are printed. -/
def finished (result : BuildResult) : Ending :=
  .exited (if result.succeeded then 0 else 1) (result.warnings ++ result.errors) []

/-- Runs the program in the process with a number. -/
def run (process : Nat) (words : List String) (s : BuildSite) : Ending × BuildSite :=
  match Invocation.parse words with
  | .error e => (failed 2 e.message, s)
  | .ok (.help topic) => (.exited 0 topic.lines [], s)
  | .ok .version => (.exited 0 [Invocation.versionLine] [], s)
  | .ok (.serve demand) =>
    match serve demand s with
    | (.error fault, s) => (failed 1 fault.message, s)
    | (.ok server, s) => (.serving server, s)
  | .ok (.build demand) =>
    match build process demand s with
    | (.error fault, s) => (failed 1 fault.message, s)
    | (.ok (some result), s) => (finished result, s)
    | (.ok none, s) => (.waiting, s)

end CommandLine
end IncrementalBuild
