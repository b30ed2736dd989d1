import IncrementalBuild.Endpoint
import IncrementalBuild.Message
/-!
# Clients

A client sends a call to the endpoint of its owner. When nothing listens there, it launches a
server, leaves it some time, and tries again; it goes on until it has an answer, until the server
it launched has exited, or until its time is up.

## Main definitions

* `ClientConfig` — how a client calls servers.
* `Launcher`, `Surroundings` — what a client can do, over surroundings of any kind.
* `Client.round`, `Client.rounds` — one attempt with what follows it, and so many of them.
* `Client.tryBuild` — a build call: how it ended, and what the client did meanwhile.
* `Client.build` — a build call whose failures are folded into its result.

## Time

A client gives up at a deadline. One that comes while the client waits ends the wait; one that
comes during an attempt leaves its answer unseen. A timeout of zero is none.
-/

namespace IncrementalBuild

/-- How a client calls servers. Times are in milliseconds. -/
structure ClientConfig where
  transport : Transport := {}
  /-- When the client gives up; never, if there is none. -/
  timeout : Option Nat := some 300000
  /-- How long a launched server is left alone before the next attempt. -/
  launchDelay : Nat := 1000
  /-- The time between two attempts. -/
  pollInterval : Nat := 100
  deriving DecidableEq, Repr

/-- A way to start servers, in surroundings `ω`; it gives out handles `η` for them. -/
structure Launcher (ω η : Type) where
  /-- Starts a server for an owner. -/
  launch : (owner : Nat) → ω → Except CallError η × ω
  /-- Whether a server has stopped. -/
  hasExited : η → ω → Bool × η × ω

/-- What a client can do. -/
structure Surroundings (ω η : Type) extends Launcher ω η where
  /-- The time, in milliseconds. -/
  now : ω → Nat
  /-- Lets time pass. -/
  wait : (millis : Nat) → ω → ω
  /-- Leaves an attempt at a time before its end. -/
  leave : (time : Nat) → ω → ω
  /-- One attempt at a call. -/
  send : Endpoint → BuildCall → ω → Except CallError BuildResult × ω

namespace Client

/-- Answers can be compared. -/
instance decidableEqAnswer : DecidableEq (Except CallError BuildResult)
  | .ok a, .ok b => decidable_of_iff (a = b) ⟨congrArg _, Except.ok.inj⟩
  | .error a, .error b => decidable_of_iff (a = b) ⟨congrArg _, Except.error.inj⟩
  | .ok _, .error _ => isFalse nofun
  | .error _, .ok _ => isFalse nofun

/-- Something that a client did. -/
inductive Event
  /-- It tried a call. The answer is missing if the deadline came first. -/
  | sent (answer : Option (Except CallError BuildResult))
  /-- It asked for a server. -/
  | launched (owner : Nat)
  /-- It looked whether the server it launched has exited. -/
  | looked (exited : Bool)
  /-- It waited. -/
  | waited (millis : Nat)
  deriving DecidableEq

/-- How a call ended. -/
structure Run (ω : Type) where
  result : Except CallError BuildResult
  /-- What the client did, in order. -/
  events : List Event
  /-- The surroundings afterwards. -/
  after : ω

/-- Where rounds of a call lead to. -/
inductive Round (ω η : Type)
  /-- The call has ended. -/
  | ended (run : Run ω)
  /-- Another attempt is next. There is the handle of the server that was launched, if one was. -/
  | goesOn (events : List Event) (launched : Option η) (after : ω)

namespace Round

variable {ω η : Type}

/-- A round that something preceded. -/
def prepend (earlier : List Event) : Round ω η → Round ω η
  | ended run => ended { run with events := earlier ++ run.events }
  | goesOn events launched w => goesOn (earlier ++ events) launched w

/-- What the client did. -/
def events : Round ω η → List Event
  | ended run => run.events
  | goesOn events _ _ => events

/-- The surroundings afterwards. -/
def after : Round ω η → ω
  | ended run => run.after
  | goesOn _ _ w => w

/-- The call, if it has ended. -/
def run? : Round ω η → Option (Run ω)
  | ended run => some run
  | goesOn _ _ _ => none

end Round

/-- The limit on the length of a call, if there is one. -/
def limit? (c : ClientConfig) : Option Nat := c.timeout.filter (· ≠ 0)

/-- The failure of a call that began at `start`, and its deadline, if an attempt that ends now comes
too late. -/
def late? (c : ClientConfig) (start now : Nat) : Option (CallError × Nat) :=
  match limit? c with
  | some limit => if start + limit < now then some (.timeout limit, start + limit) else none
  | none => none

/-- The failure of a call that began at `start`, if a wait that ends now has used up its time. -/
def over? (c : ClientConfig) (start now : Nat) : Option CallError :=
  match limit? c with
  | some limit => if start + limit ≤ now then some (.timeout limit) else none
  | none => none

/-- How much of a wait is left before the deadline. -/
def bounded (c : ClientConfig) (start now millis : Nat) : Nat :=
  match limit? c with
  | some limit => min millis (start + limit - now)
  | none => millis

/-- What is reported when a launched server has exited. -/
def exitedEarly (e : Endpoint) : CallError :=
  .launch s!"server for owner {e.owner} exited before listening at {e.display}"

variable {ω η : Type}

/-- Waits before the next attempt, unless the deadline comes. -/
def pause (c : ClientConfig) (s : Surroundings ω η) (start millis : Nat) (handle : η) (w : ω) :
    Round ω η :=
  let millis := bounded c start (s.now w) millis
  let w := s.wait millis w
  match over? c start (s.now w) with
  | some cause => .ended ⟨.error cause, [.waited millis], w⟩
  | none => .goesOn [.waited millis] (some handle) w

/-- What follows an attempt that found no server: the first time, one is launched; from then on,
the client looks whether it still runs. -/
def retry (c : ClientConfig) (s : Surroundings ω η) (e : Endpoint) (start : Nat)
    (launched : Option η) (w : ω) : Round ω η :=
  match launched with
  | none =>
    match s.launch e.owner w with
    | (.error cause, w) => .ended ⟨.error cause, [.launched e.owner], w⟩
    | (.ok handle, w) => (pause c s start c.launchDelay handle w).prepend [.launched e.owner]
  | some handle =>
    match s.hasExited handle w with
    | (true, _, w) => .ended ⟨.error (exitedEarly e), [.looked true], w⟩
    | (false, handle, w) => (pause c s start c.pollInterval handle w).prepend [.looked false]

/-- One round of a call that began at `start`, with the handle of the server that was launched, if
one was. -/
def round (c : ClientConfig) (s : Surroundings ω η) (e : Endpoint) (call : BuildCall) (start : Nat)
    (launched : Option η) (w : ω) : Round ω η :=
  let (answer, w) := s.send e call w
  match late? c start (s.now w) with
  | some (cause, deadline) => .ended ⟨.error cause, [.sent none], s.leave deadline w⟩
  | none =>
    match answer with
    | .error (.unreachable _) => (retry c s e start launched w).prepend [.sent (some answer)]
    | _ => .ended ⟨answer, [.sent (some answer)], w⟩

/-- At most so many rounds. -/
def rounds (c : ClientConfig) (s : Surroundings ω η) (e : Endpoint) (call : BuildCall)
    (start : Nat) : Nat → Option η → ω → Round ω η
  | 0, launched, w => .goesOn [] launched w
  | n + 1, launched, w =>
    match round c s e call start launched w with
    | .ended run => .ended run
    | .goesOn events launched w => (rounds c s e call start n launched w).prepend events

/-- Where a build call to the server of an owner leads to with at most `n` attempts. -/
def callRounds (c : ClientConfig) (s : Surroundings ω η) (n owner : Nat) (call : BuildCall)
    (w : ω) : Round ω η :=
  rounds c s (.ofOwner c.transport owner) call (s.now w) n none w

/-- A build call to the server of an owner. There is no run when the number of attempts is used
up. -/
def tryBuild (c : ClientConfig) (s : Surroundings ω η) (n owner : Nat) (call : BuildCall) (w : ω) :
    Option (Run ω) :=
  (callRounds c s n owner call w).run?

/-- The build result of a call. -/
def toResult : Except CallError BuildResult → BuildResult
  | .ok result => result
  | .error cause => .failure cause.message

/-- A build call to the server of an owner, with its build result whatever happens. -/
def build (c : ClientConfig) (s : Surroundings ω η) (n owner : Nat) (call : BuildCall) (w : ω) :
    Option (BuildResult × List Event × ω) :=
  (tryBuild c s n owner call w).map fun r => (toResult r.result, r.events, r.after)

end Client
end IncrementalBuild
