import IncrementalBuild.Exchange
import IncrementalBuild.Proofs.Serving
/-!
# A local socket does not show

A call over a local socket is answered as by the service itself. However the bytes are cut on the
way, the service is called once, with what the client asked for, and the client gets what the
service gave back.

## Main results

* `Exchange.overSocket_of_le` — what an exchange leads to, within the limit on frames.
* `Exchange.socket_transparent` — a service behind a socket and the service itself.
-/

open IncrementalBuild.Frame

namespace IncrementalBuild

variable {τ : Type}

namespace Exchange

/-! ### Local sockets -/

section Socket

variable {there back : Bytes → List Bytes} {call : BuildCall} {state : τ}

/-- An answer within the limit is received, however it is cut. -/
theorem received_of_ofReply {reply : Reply} {frame : Bytes} (hframe : ofReply reply = .ok frame)
    (hshort : frame.length ≤ 4 + maxLength) {pieces : List Bytes}
    (hpieces : pieces.flatten = frame) : received pieces = reply.toExcept := by
  have hstarts := startsWith_of_ofLayout hframe replyOf_pack hshort []
  rw [List.append_nil, ← hpieces] at hstarts
  obtain ⟨left, hread, -⟩ := read_of_startsWith hstarts
  rw [received, hread]
  rfl

/-- With a call and an answer within the limit, the client gets what the server made of the
call. -/
theorem overSocket_of_le (service : Service τ) (hthere : ∀ bytes, (there bytes).flatten = bytes)
    (hback : ∀ bytes, (back bytes).flatten = bytes)
    (hcall : (Archive.pack (requestLayout call)).length ≤ maxLength)
    (hreply : (Archive.pack (replyLayout (service.dispatch call state).1)).length ≤ maxLength) :
    overSocket there back service call state =
      ((service.dispatch call state).1.toExcept, (service.dispatch call state).2) := by
  rw [Archive.pack, Archive.Layout.length_whole] at hcall hreply
  have haccepted : isRefused call = false := by
    rw [isRefused, lengthOf_of_le hcall]
    exact decide_eq_false (Nat.not_lt.mpr hcall)
  have hrequest : ofRequest call = .ok _ := ofLayout_of_le hcall
  have hanswer : ofReply (service.dispatch call state).1 = .ok _ := ofLayout_of_le hreply
  have hstarts := startsWith_of_ofLayout hrequest requestOf_pack
    ((length_le_iff hrequest).mpr hcall) []
  rw [List.append_nil, ← hthere (_ ++ _)] at hstarts
  have hreceived := received_of_ofReply hanswer ((length_le_iff hanswer).mpr hreply) (hback _)
  rw [overSocket, haccepted, if_neg Bool.false_ne_true, hrequest]
  simp only [Service.serve_of_startsWith service hstarts, hanswer, Except.toOption, hreceived]

end Socket

/-- **Transparency.** With a call and an answer within the limit, and however the bytes are cut on
their way there and back, the service is called once, with the project and the options of the
call. The client gets the result it gave, the text of the cause it gave for having none, or a
failure that names the output if it crashed. -/
theorem socket_transparent (service : Service τ) (call : BuildCall)
    (there back : Bytes → List Bytes)
    (hthere : ∀ bytes, (there bytes).flatten = bytes)
    (hback : ∀ bytes, (back bytes).flatten = bytes) (calls : List BuildCall) (state : τ)
    (hcall : (Archive.pack (requestLayout call)).length ≤ maxLength)
    (hreply : (Archive.pack (replyLayout (service.dispatch call state).1)).length ≤ maxLength) :
    ∃ answer,
      overSocket there back service.recorded call (calls, state) =
        (answer, calls ++ [call], (service call.project call.options state).2) ∧
      match (service call.project call.options state).1 with
      | .ok result => answer = .ok result
      | .error (.error cause) => answer = .error (.remote cause.message)
      | .error .crash => ∃ reason : String, answer =
          .error (.remote s!"Build of {call.options.output} did not complete: {reason}") := by
  have hrecorded := service.dispatch_recorded call calls state
  refine ⟨(service.dispatch call state).1.toExcept, ?_, ?_⟩
  · rw [overSocket_of_le service.recorded hthere hback hcall (by rwa [hrecorded]), hrecorded,
      Service.dispatch_snd]
  · rw [Service.dispatch]
    rcases service call.project call.options state with ⟨⟨cause | _⟩ | result, state'⟩
    · rfl
    · refine ⟨"the build crashed", ?_⟩
      have hsplit : " did not complete: the build crashed" =
        " did not complete: " ++ "the build crashed" := rfl
      simp only [Reply.toExcept, toString, hsplit, String.append_assoc]
    · rfl

end Exchange

/-! ### A service of every kind -/

namespace Transparent

open Exchange

/-- A service that builds once, then has no result, and from then on crashes. -/
def fickle : Service Nat := fun _ _ count =>
  match count with
  | 0 => (.ok { succeeded := true }, 1)
  | 1 => (.error (.error (.engine "no output")), 2)
  | n + 2 => (.error .crash, n + 3)

/-- A call. -/
def call : BuildCall := { project := "/p", options := { output := "Game.dll" } }

/-- Cuts bytes one by one. -/
def byteByByte (bytes : Bytes) : List Bytes := bytes.map List.singleton

/-- Nothing is lost by that. -/
theorem flatten_byteByByte (bytes : Bytes) : (byteByByte bytes).flatten = bytes := by
  induction bytes with
  | nil => rfl
  | cons b bytes ih => exact congrArg (b :: ·) ih

/-- A call of each kind, cut into single bytes on the way there. -/
theorem fickle_transparent :
    overSocket byteByByte List.singleton fickle.recorded call ([], 0) =
      (.ok { succeeded := true }, [call], 1) ∧
    overSocket byteByByte List.singleton fickle.recorded call ([call], 1) =
      (.error (.remote "compile engine failure: no output"), [call, call], 2) ∧
    ∃ reason : String,
      overSocket byteByByte List.singleton fickle.recorded call ([call, call], 2) =
        (.error (.remote s!"Build of Game.dll did not complete: {reason}"),
          [call, call, call], 3) := by
  have hwhole (bytes : Bytes) : (List.singleton bytes).flatten = bytes := List.append_nil bytes
  have hsize {l : Archive.Layout} (h : l.wholeSize 0 ≤ maxLength) :
      (Archive.pack l).length ≤ maxLength := by
    rwa [Archive.pack, Archive.Layout.length_whole]
  have htransparent (calls : List BuildCall) (count : Nat)
      (hreply : (replyLayout (fickle.dispatch call count).1).wholeSize 0 ≤ maxLength) :=
    socket_transparent fickle call byteByByte List.singleton flatten_byteByByte hwhole calls count
      (hsize (by decide)) (hsize hreply)
  refine ⟨?_, ?_, ?_⟩
  · obtain ⟨answer, hrun, rfl : answer = .ok { succeeded := true }⟩ := htransparent [] 0 (by decide)
    exact hrun
  · obtain ⟨answer, hrun, rfl : answer = .error (.remote "compile engine failure: no output")⟩ :=
      htransparent [call] 1 (by decide)
    exact hrun
  · obtain ⟨answer, hrun, reason, rfl⟩ := htransparent [call, call] 2 (by decide)
    exact ⟨reason, hrun⟩

end Transparent

end IncrementalBuild
