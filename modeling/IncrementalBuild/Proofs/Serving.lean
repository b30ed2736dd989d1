import IncrementalBuild.Proofs.Frame
import IncrementalBuild.Service
/-!
# Serving frames

A server calls its service for what a connection brings in time, once if that starts with the frame
of a call, and not at all otherwise. What the service is called for is read off a ledger that
stands beside its state.

## Ledger convention

The ledger of a service gets one entry for each call, when the service is called, with the project
and the options that it is called with. The service itself does not see the ledger. Where several
services share their state, they enter their calls into one ledger.

## Main definitions

* `Service.recorded`, `Service.Enters` — a service with its ledger, and the convention.

## Main results

* `Service.dispatch_recorded` — the ledger changes nothing about an answer.
* `Service.serves_frames_only` — what is read from a stream, and what a server does about it.
-/

namespace IncrementalBuild

variable {τ : Type}

/-! ### The ledger -/

namespace Service

/-- A service with the ledger of its calls beside its state. -/
def recorded (service : Service τ) : Service (List BuildCall × τ) :=
  fun project options (calls, state) =>
    let (result, state) := service project options state
    (result, calls ++ [⟨project, options⟩], state)

/-- Each call of a service makes one entry in a ledger. -/
def Enters (service : Service τ) (ledger : τ → List BuildCall) : Prop :=
  ∀ project options state,
    ledger (service project options state).2 = ledger state ++ [⟨project, options⟩]

/-- The ledger beside the state of a service is one. -/
theorem recorded_enters (service : Service τ) : service.recorded.Enters Prod.fst :=
  fun _ _ _ => rfl

/-- A service next to a host keeps its ledger. -/
theorem Enters.beside {service : Service τ} {ledger : τ → List BuildCall}
    (h : service.Enters ledger) : service.beside.Enters fun x => ledger x.1 :=
  fun project options x => h project options x.1

/-- An answer leaves the state as the service does. -/
theorem dispatch_snd (service : Service τ) (call : BuildCall) (state : τ) :
    (service.dispatch call state).2 = (service call.project call.options state).2 := by
  rw [dispatch]
  rcases service call.project call.options state with ⟨⟨_ | _⟩ | _, state'⟩ <;> rfl

/-- A call is answered as without the ledger, which gets one entry. -/
theorem dispatch_recorded (service : Service τ) (call : BuildCall) (calls : List BuildCall)
    (state : τ) :
    service.recorded.dispatch call (calls, state) =
      ((service.dispatch call state).1, calls ++ [call], (service.dispatch call state).2) := by
  obtain ⟨project, options⟩ := call
  simp only [dispatch, recorded]
  rcases service project options state with ⟨⟨_ | _⟩ | _, state'⟩ <;> rfl

/-- An answer to a call makes one entry. -/
theorem Enters.dispatch {service : Service τ} {ledger : τ → List BuildCall}
    (h : service.Enters ledger) (call : BuildCall) (state : τ) :
    ledger (service.dispatch call state).2 = ledger state ++ [call] := by
  rw [dispatch_snd, h]

/-! ### One connection -/

/-- A connection on which a call arrives is answered with one frame. -/
theorem serve_of_startsWith (service : Service τ) {arriving : List Bytes} {call : BuildCall}
    {rest : Bytes} (h : Frame.StartsWith Frame.requestOf arriving.flatten call rest) (state : τ) :
    service.serve arriving state =
      ((Frame.ofReply (service.dispatch call state).1).toOption,
        (service.dispatch call state).2) := by
  obtain ⟨left, hread, -⟩ := Frame.read_of_startsWith h
  rw [serve, hread]

/-- A connection on which no call arrives is dropped. -/
theorem serve_of_not_startsWith (service : Service τ) {arriving : List Bytes}
    (h : ∀ call rest, ¬ Frame.StartsWith Frame.requestOf arriving.flatten call rest) (state : τ) :
    service.serve arriving state = (none, state) := by
  obtain ⟨reason, hread⟩ : ∃ reason, Frame.read Frame.requestOf arriving =
      .error (.protocol reason) := Frame.read_eq_error h
  rw [serve, hread]

/-- A connection makes at most one entry. -/
theorem Enters.serve {service : Service τ} {ledger : τ → List BuildCall}
    (h : service.Enters ledger) (arriving : List Bytes) (state : τ) :
    ledger (service.serve arriving state).2 = ledger state ∨
      ∃ call, ledger (service.serve arriving state).2 = ledger state ++ [call] := by
  rw [Service.serve]
  split
  · exact .inl rfl
  · exact .inr ⟨_, h.dispatch _ state⟩

/-- **Frames, and nothing else.** For any decoder of bodies, a message is read from a stream
exactly if the stream starts with its frame, and then what follows the frame is left; any other
stream is refused for a fault of the protocol. So frames back to back are read as their messages,
those of the calls and answers that are written among them. A connection that brings the frame of
a call in time calls the service once, for that call, and is answered with the frame of the answer,
if that can be written; any other connection calls nothing and gets nothing. -/
theorem serves_frames_only {α : Type} (message : Bytes → Option α) (service : Service τ) :
    (∀ (pieces : List Bytes) (x : α) (rest : Bytes),
      (∃ left, Frame.read (Frame.decoding message) pieces = .ok (x, left) ∧ left.flatten = rest) ↔
        Frame.StartsWith (Frame.decoding message) pieces.flatten x rest) ∧
    (∀ pieces : List Bytes,
      (∀ x rest, ¬ Frame.StartsWith (Frame.decoding message) pieces.flatten x rest) →
      ∃ reason, Frame.read (Frame.decoding message) pieces = .error (.protocol reason)) ∧
    (∀ (frames : List Bytes) (xs : List α),
      List.Forall₂ (fun frame x => Frame.StartsWith (Frame.decoding message) frame x []) frames xs →
      Frame.ReadBack (Frame.decoding message) frames xs) ∧
    (∀ (frames : List Bytes) (calls : List BuildCall),
      List.Forall₂ (fun frame call => Frame.ofRequest call = .ok frame ∧
        frame.length ≤ 4 + Frame.maxLength) frames calls →
      Frame.ReadBack Frame.requestOf frames calls) ∧
    (∀ (frames : List Bytes) (replies : List Reply),
      List.Forall₂ (fun frame reply => Frame.ofReply reply = .ok frame ∧
        frame.length ≤ 4 + Frame.maxLength) frames replies →
      Frame.ReadBack Frame.replyOf frames replies) ∧
    (∀ (limit : Nat) (arrivals : List (Nat × Bytes)) (calls : List BuildCall) (state : τ),
      (∀ call rest,
        Frame.StartsWith Frame.requestOf (inTime limit arrivals).flatten call rest →
        service.recorded.handle limit arrivals (calls, state) =
          ((Frame.ofReply (service.dispatch call state).1).toOption,
            calls ++ [call], (service.dispatch call state).2)) ∧
      ((∀ call rest,
        ¬ Frame.StartsWith Frame.requestOf (inTime limit arrivals).flatten call rest) →
        service.recorded.handle limit arrivals (calls, state) = (none, calls, state))) := by
  refine ⟨fun _ _ _ => Frame.read_eq_ok_iff, fun _ => Frame.read_eq_error,
    fun _ _ => Frame.readBack_of_forall₂,
    fun _ _ => Frame.readBack_of_ofLayout fun _ => Frame.requestOf_pack,
    fun _ _ => Frame.readBack_of_ofLayout fun _ => Frame.replyOf_pack,
    fun limit arrivals calls state => ⟨?_, ?_⟩⟩
  · intro call rest hstarts
    rw [handle, serve_of_startsWith _ hstarts, dispatch_recorded]
  · intro hnone
    rw [handle, serve_of_not_startsWith _ hnone]

end Service

/-! ### In time and too late -/

namespace Served

open IncrementalBuild.Frame

/-- A call. -/
def call : BuildCall := { project := "/p", options := { output := "Game.dll" } }

/-- Its frame. -/
def frame : Bytes :=
  Archive.le32 ((requestLayout call).wholeSize 0) ++ Archive.pack (requestLayout call)

/-- An answer. -/
def reply : Reply := .failed "no output"

/-- Its frame. -/
def answer : Bytes :=
  Archive.le32 ((replyLayout reply).wholeSize 0) ++ Archive.pack (replyLayout reply)

/-- The frame arrives in two pieces, the second some time after the first. -/
def arrivals : List (Nat × Bytes) := [(0, frame.take 3), (20, frame.drop 3)]

/-- The frame of the call is written. -/
theorem ofRequest_call : ofRequest call = .ok frame := ofLayout_of_le (by decide)

/-- The frame of the answer is written. -/
theorem ofReply_reply : ofReply reply = .ok answer := ofLayout_of_le (by decide)

/-- The frame of the call is within the limit. -/
theorem length_frame : frame.length ≤ 4 + maxLength :=
  (length_le_iff ofRequest_call).mpr (by decide)

/-- A stream with less than four bytes starts with no frame. -/
theorem not_startsWith_of_short {α : Type} {decode : Bytes → Except CallError α} {stream : Bytes}
    (h : stream.length < 4) (x : α) (rest : Bytes) : ¬ StartsWith decode stream x rest := by
  rintro ⟨size, body, rfl, hsize, -⟩
  rw [List.length_append] at h
  omega

/-- Frames are read back to back, a stream that ends too early is refused, and the call is served
if it arrives in time. -/
theorem call_served :
    (∃ left, read requestOf [frame, [7]] = .ok (call, left) ∧ left.flatten = [7]) ∧
    (∃ reason, read requestOf [frame.take 3] = .error (.protocol reason)) ∧
    ReadBack requestOf [frame] [call] ∧
    ReadBack requestOf [frame, frame] [call, call] ∧
    ReadBack replyOf [answer] [reply] ∧
    Service.echo.recorded.handle 30 arrivals ([], 0) =
      ((ofReply (Service.echo.dispatch call 0).1).toOption, [call], 1) ∧
    Service.echo.recorded.handle 10 arrivals ([], 0) = (none, [], 0) := by
  have hstarts (tail : Bytes) : StartsWith requestOf (frame ++ tail) call tail :=
    startsWith_of_ofLayout ofRequest_call requestOf_pack length_frame tail
  obtain ⟨hread, hrefused, hgrammar, hcalls, hreplies, hserved⟩ :=
    Service.serves_frames_only (Archive.unpack requestSize readRequest) Service.echo
  refine ⟨?_, ?_, ?_, ?_, ?_, ?_, ?_⟩
  · exact (hread _ _ _).mpr (hstarts [7])
  · exact hrefused [frame.take 3] (not_startsWith_of_short (by decide))
  · exact hgrammar [frame] [call] (.cons (List.append_nil frame ▸ hstarts []) .nil)
  · have hwritten := And.intro ofRequest_call length_frame
    exact hcalls [frame, frame] [call, call] (.cons hwritten (.cons hwritten .nil))
  · have hshort : answer.length ≤ 4 + maxLength := (length_le_iff ofReply_reply).mpr (by decide)
    exact hreplies [answer] [reply] (.cons ⟨ofReply_reply, hshort⟩ .nil)
  · exact (hserved 30 arrivals [] 0).1 call [] (hstarts [])
  · exact (hserved 10 arrivals [] 0).2 (not_startsWith_of_short (by decide))

end Served

end IncrementalBuild
