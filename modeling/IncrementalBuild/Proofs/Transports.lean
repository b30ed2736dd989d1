import IncrementalBuild.Proofs.Exchange
import IncrementalBuild.Proofs.Host.Sockets
import IncrementalBuild.Proofs.Route
import IncrementalBuild.Site
/-!
# The two transports compared

A call may reach its server over a local socket or over the loopback transport. Up to the limit on
bodies there is no difference: the service is called once, with the same call, and the client gets
the same result or the same error. The limits on the two ways differ, though. A body that is longer
than the hypertext limit is refused there with a status, while the local socket goes on to carry
frames that are fifty times as long.

## Main definitions

* `Site.Offers` — a server of the owner runs at an endpoint and offers a service.

## Main results

* `Exchange.overHttp_of_le`, `Exchange.overHttp_of_lt` — an exchange over the loopback transport.
* `Site.transports_agree` — when both ways lead to the same.
-/

open IncrementalBuild.Frame

namespace IncrementalBuild

/-! ### Exchanges over the loopback transport -/

namespace Exchange

variable {τ : Type} {e : Endpoint} {call : BuildCall}

/-- With a body within the limit, the client gets what the server made of the call. -/
theorem overHttp_of_le (service : Service τ) (howner : e.owner < Decimal.word)
    (hshort : (requestOf e call).body.length ≤ Route.maxBody) (state : τ) :
    overHttp service e.owner e call state =
      ((service.dispatch call state).1.toExcept, (service.dispatch call state).2) := by
  have hcall : Route.callOf _ e.owner (requestOf e call) = .ok call :=
    Route.callOf_of_le (Route.ownerOf?_toString howner) rfl rfl hshort
  have hanswer : Route.answer service e.owner (requestOf e call) state =
      (⟨200, some (Json.ofResponse (service.dispatch call state).1)⟩,
        (service.dispatch call state).2) := by
    rw [Route.answer]
    simp only [requestOf, Route.of_route, ne_eq, not_true, if_false] at hcall ⊢
    rw [hcall]
  simp only [overHttp, hanswer, resultOf, Json.decode_ofResponse]
  rfl

/-- A longer body is refused with a status. The service is not called. -/
theorem overHttp_of_lt (service : Service τ) (howner : e.owner < Decimal.word)
    (hlong : Route.maxBody < (requestOf e call).body.length) (state : τ) :
    overHttp service e.owner e call state =
      (.error (.protocol s!"{e.display} answered 413 Payload Too Large"), state) := by
  have hcall : Route.callOf _ e.owner (requestOf e call) = .error 413 :=
    Route.callOf_of_lt (Route.ownerOf?_toString howner) rfl hlong
  have hanswer : Route.answer service e.owner (requestOf e call) state = (⟨413, none⟩, state) := by
    rw [Route.answer]
    simp only [requestOf, Route.of_route, ne_eq, not_true, if_false] at hcall ⊢
    rw [hcall]
  have hsplit : " answered " ++ (toString 413 ++ (" " ++ reason 413)) =
    " answered 413 Payload Too Large" := by decide
  simp only [overHttp, hanswer, resultOf, ← hsplit, toString, String.append_assoc]
  rfl

end Exchange

/-! ### Servers at endpoints -/

namespace Site

variable {τ : Type} {s : Site τ} {service : Service (τ × Host)} {call : BuildCall}

/-- A server of the owner runs at an endpoint and offers a service. -/
def Offers (s : Site τ) (e : Endpoint) (service : Service (τ × Host)) : Prop :=
  ∃ number server, (Access.connect e s.host).1 = .ok number ∧
    s.servers.lookup number = some (server, service) ∧ server.owner = e.owner

/-- The site when a connection was made. -/
def entered (s : Site τ) : Site τ := { s with host := s.host.enter.2 }

/-- The site after a call was answered. -/
def answered (s : Site τ) (service : Service (τ × Host)) (call : BuildCall) : Site τ :=
  let after := (service.dispatch call (s.state, s.host.enter.2)).2
  { s with host := after.2, state := after.1 }

/-- What a service makes of a call on a site. -/
def reply (s : Site τ) (service : Service (τ × Host)) (call : BuildCall) : Reply :=
  (service.dispatch call (s.state, s.host.enter.2)).1

/-- With a call and an answer that fit into frames, a call over a local socket gets what the service
made of it. -/
theorem send_localSocket {owner : Nat} {path : Path}
    (hoffers : s.Offers (.localSocket owner path) service)
    (hcall : (Archive.pack (requestLayout call)).length ≤ maxLength)
    (hreply : (Archive.pack (replyLayout (s.reply service call))).length ≤ maxLength) :
    s.send (.localSocket owner path) call =
      ((s.reply service call).toExcept, s.answered service call) := by
  obtain ⟨number, server, hleads, hserver, -⟩ := hoffers
  have hconnect : Access.connectSocket path s.host = (.ok number, s.host.enter.2) :=
    Prod.ext hleads (Access.connect_snd (.localSocket owner path) s.host)
  have hwhole (bytes : Bytes) : (List.singleton bytes).flatten = bytes := List.append_nil bytes
  have hexchange := Exchange.overSocket_of_le service hwhole hwhole hcall hreply
  rw [send, sendLocal, hconnect]
  simp only [hserver, hexchange]
  rfl

section Http

variable {owner port : Nat}

/-- A call over the loopback transport is an exchange with the server of its owner. -/
theorem send_loopbackHttp (hoffers : s.Offers (.loopbackHttp owner port) service) :
    s.send (.loopbackHttp owner port) call =
      ((Exchange.overHttp service owner (.loopbackHttp owner port) call
          (s.state, s.host.enter.2)).1,
        { s with
          host := (Exchange.overHttp service owner (.loopbackHttp owner port) call
            (s.state, s.host.enter.2)).2.2
          state := (Exchange.overHttp service owner (.loopbackHttp owner port) call
            (s.state, s.host.enter.2)).2.1 }) := by
  obtain ⟨number, server, hleads, hserver, hserverOwner⟩ := hoffers
  have hconnect : Access.connectPort port s.host = (.ok number, s.host.enter.2) :=
    Prod.ext hleads (Access.connect_snd (.loopbackHttp owner port) s.host)
  have howner : server.owner = owner := hserverOwner
  rw [send, sendHttp, hconnect]
  simp only [hserver, howner]

/-- With a body within the limit, it gets what the service made of it. -/
theorem send_loopbackHttp_of_le (howner : owner < Decimal.word)
    (hoffers : s.Offers (.loopbackHttp owner port) service)
    (hshort : (Exchange.requestOf (.loopbackHttp owner port) call).body.length ≤ Route.maxBody) :
    s.send (.loopbackHttp owner port) call =
      ((s.reply service call).toExcept, s.answered service call) := by
  have hexchange := Exchange.overHttp_of_le (e := .loopbackHttp owner port) service howner hshort
    (s.state, s.host.enter.2)
  rw [Endpoint.owner] at hexchange
  rw [send_loopbackHttp hoffers, hexchange]
  rfl

/-- With a longer body it gets a fault of the protocol, and the service is not called. -/
theorem send_loopbackHttp_of_lt (howner : owner < Decimal.word)
    (hoffers : s.Offers (.loopbackHttp owner port) service)
    (hlong : Route.maxBody < (Exchange.requestOf (.loopbackHttp owner port) call).body.length) :
    s.send (.loopbackHttp owner port) call =
      (.error (.protocol
        s!"{(Endpoint.loopbackHttp owner port).display} answered 413 Payload Too Large"),
        s.entered) := by
  have hexchange := Exchange.overHttp_of_lt (e := .loopbackHttp owner port) service howner hlong
    (s.state, s.host.enter.2)
  rw [Endpoint.owner] at hexchange
  rw [send_loopbackHttp hoffers, hexchange]
  rfl

end Http

/-- What comes back from a service is never a fault of the protocol. -/
theorem toExcept_ne_protocol (r : Reply) (reason : String) :
    r.toExcept ≠ .error (.protocol reason) := by
  cases r with
  | built result => nofun
  | failed message => nofun

/-- **Up to the limit on bodies, the transports agree.** A server of the owner runs at a local
socket and one at a port, and both offer a service. A call that the local socket carries, with an
answer that it carries, has the same result or the same error over the port if and only if its body
is within the limit of the hypertext server, and then it also leaves the same behind. With a longer
body, the port answers with a status that the client reports as a fault of the protocol, and the
service is not called. -/
theorem transports_agree {owner port : Nat} {path : Path} (howner : owner < Decimal.word)
    (hsocket : s.Offers (.localSocket owner path) service)
    (hhttp : s.Offers (.loopbackHttp owner port) service)
    (hcall : (Archive.pack (requestLayout call)).length ≤ maxLength)
    (hreply : (Archive.pack (replyLayout (s.reply service call))).length ≤ maxLength) :
    let length := (Exchange.requestOf (.loopbackHttp owner port) call).body.length
    ((s.send (.loopbackHttp owner port) call).1 = (s.send (.localSocket owner path) call).1 ↔
      length ≤ Route.maxBody) ∧
    (length ≤ Route.maxBody →
      s.send (.loopbackHttp owner port) call = s.send (.localSocket owner path) call) ∧
    (Route.maxBody < length →
      s.send (.loopbackHttp owner port) call =
        (.error (.protocol
          s!"{(Endpoint.loopbackHttp owner port).display} answered 413 Payload Too Large"),
          s.entered)) := by
  intro length
  have hsend := send_localSocket hsocket hcall hreply
  have hsame (h : length ≤ Route.maxBody) :
      s.send (.loopbackHttp owner port) call = s.send (.localSocket owner path) call := by
    rw [hsend, send_loopbackHttp_of_le howner hhttp h]
  have hlong (h : Route.maxBody < length) : s.send (.loopbackHttp owner port) call = _ :=
    send_loopbackHttp_of_lt howner hhttp h
  refine ⟨⟨?_, fun h => congrArg Prod.fst (hsame h)⟩, hsame, hlong⟩
  intro heq
  by_contra hlength
  rw [hsend, hlong (Nat.lt_of_not_le hlength)] at heq
  exact toExcept_ne_protocol _ _ heq.symm

end Site

/-! ### The length of a body -/

namespace Json

/-- The text of a member stands in the text of its object. -/
theorem chars_infix_memberChars (name : String) {v : Value} {ms : List (String × Value)}
    (h : (name, v) ∈ ms) : v.chars <:+: Value.memberChars ms := by
  induction ms with
  | nil => cases h
  | cons m ms ih =>
    rcases List.mem_cons.mp h with rfl | h
    · cases ms with
      | nil => exact ⟨quote name.toList ++ [':'], [], by simp [Value.memberChars]⟩
      | cons m ms =>
        exact ⟨quote name.toList ++ [':'], ',' :: Value.memberChars (m :: ms),
          by simp [Value.memberChars]⟩
    · obtain ⟨front, back, hinfix⟩ := ih h
      cases ms with
      | nil => cases h
      | cons m' ms =>
        exact ⟨quote m.1.toList ++ ':' :: m.2.chars ++ ',' :: front, back,
          by simp [Value.memberChars, ← hinfix]⟩

/-- The text of the last item stands in the text of its list. -/
theorem chars_infix_itemChars (v : Value) : v.chars <:+: Value.itemChars [v] := by
  simp only [Value.itemChars, List.infix_rfl]

/-- What stands between brackets. -/
theorem infix_brackets (a b : Char) (cs : List Char) : cs <:+: a :: cs ++ [b] :=
  ⟨[a], [b], rfl⟩

/-- A part of a text has no more bytes than the text. -/
theorem length_ofString_le_of_infix {a b : List Char} (h : a <:+: b) :
    (Bytes.ofString (String.ofList a)).length ≤ (Bytes.ofString (String.ofList b)).length := by
  obtain ⟨front, back, rfl⟩ := h
  simp only [Bytes.ofString_eq_flatMap, String.toList_ofList, List.flatMap_append,
    List.length_append]
  omega

end Json

/-! ### A short call and a long one -/

namespace TwoWays

open Archive

/-- The owner of two servers. -/
def owner : Nat := 42

/-- One of them listens at a socket file. -/
def socketServer : Server where
  owner := owner
  transport := { kind := .localSocket, socketDir := some ⟨"/"⟩ }

/-- The other one listens at a port. -/
def portServer : Server where
  owner := owner
  transport := { kind := .loopbackHttp }

/-- A site on which both of them were started. -/
def site : Site Nat :=
  let s : Site Nat := { host := { processes := [(owner, "csc")] }, state := 0 }
  let s := (s.open socketServer fun _ => Service.echo.beside).2.2
  (s.open portServer fun _ => Service.echo.beside).2.2

/-- The socket file. -/
def path : Path := Endpoint.socketPath socketServer.transport owner

/-- The servers offer the same at both endpoints. -/
theorem site_offers :
    site.Offers (.localSocket owner path) Service.echo.beside ∧
      site.Offers (.loopbackHttp owner defaultPort) Service.echo.beside :=
  ⟨⟨0, _, rfl, rfl, rfl⟩, ⟨1, _, rfl, rfl, rfl⟩⟩

/-- A call with a define. -/
def callWith (define : String) : BuildCall where
  project := "/p"
  options := { output := "Game.dll", defines := [define] }

/-- A text that is as long as a body may be. -/
def longText : String := String.ofList (List.replicate Route.maxBody 'a')

/-- Its size. -/
theorem utf8ByteSize_longText : longText.utf8ByteSize = Route.maxBody := by
  rw [← Bytes.length_ofString, Bytes.ofString_eq_flatMap, longText, String.toList_ofList,
    List.length_flatMap, List.map_replicate, List.sum_replicate_nat]
  exact Nat.mul_one Route.maxBody

/-- A frame carries a call with a long define. -/
theorem length_pack_callWith {define : String} {n : Nat} (h : define.utf8ByteSize = n)
    (hlong : 8 < n) (hfits : n + 128 ≤ maxLength) :
    (pack (requestLayout (callWith define))).length ≤ maxLength := by
  have hproject : "/p".utf8ByteSize = 2 := rfl
  have houtput : "Game.dll".utf8ByteSize = 8 := rfl
  have hout : ¬ n ≤ 8 := by omega
  rw [pack, Layout.length_whole]
  simp [requestLayout, callWith, optionsLayout, Archive.sequence, items, texts, text, byte, gap,
    flag, Layout.pair, Layout.wholeSize, fillSize, headSize, inlineSize, hproject, houtput, h, hout]
  omega

/-- A frame carries the call with the long text. -/
theorem length_pack_longText : (pack (requestLayout (callWith longText))).length ≤ maxLength :=
  length_pack_callWith utf8ByteSize_longText (by decide) (by decide)

/-- Nothing in the long text is escaped. -/
theorem flatMap_escape_longText : longText.toList.flatMap Json.escape = longText.toList := by
  have hescape : Json.escape 'a' = ['a'] := by decide
  rw [longText, String.toList_ofList, List.flatMap_replicate, hescape,
    List.flatten_replicate_singleton]

/-- The define stands in the text of the call, between quotes. -/
theorem quote_infix_chars (define : String) :
    Json.quote define.toList <:+: (Json.ofRequest (callWith define)).chars := by
  have hitem : Json.quote define.toList <:+: Json.Value.itemChars [.text define] :=
    Json.chars_infix_itemChars (.text define)
  have hlist : Json.Value.itemChars [.text define] <:+: (Json.Value.texts [define]).chars :=
    Json.infix_brackets '[' ']' _
  have hmember : (Json.Value.texts [define]).chars <:+:
      (Json.ofOptions (callWith define).options).chars :=
    (Json.chars_infix_memberChars "defines" (by simp [callWith])).trans
      (Json.infix_brackets '\x7b' '\x7d' _)
  have hoptions : (Json.ofOptions (callWith define).options).chars <:+:
      (Json.ofRequest (callWith define)).chars :=
    (Json.chars_infix_memberChars "options" (by simp [callWith])).trans
      (Json.infix_brackets '\x7b' '\x7d' _)
  exact hitem.trans (hlist.trans (hmember.trans hoptions))

/-- In the body of the call, the long define alone takes up all the room. -/
theorem maxBody_lt_length_body (e : Endpoint) :
    Route.maxBody < (Exchange.requestOf e (callWith longText)).body.length := by
  have hbody := Json.length_ofString_le_of_infix (quote_infix_chars longText)
  have hquote : (Bytes.ofString (String.ofList (Json.quote longText.toList))).length =
      Route.maxBody + 2 := by
    have hlength := Bytes.length_ofString longText
    rw [utf8ByteSize_longText, Bytes.ofString_eq_flatMap] at hlength
    rw [Json.quote, flatMap_escape_longText, Bytes.ofString_eq_flatMap, String.toList_ofList,
      List.cons_append, List.flatMap_cons, List.flatMap_append, List.length_append,
      List.length_append, hlength]
    rfl
  rw [hquote] at hbody
  have hrender : (Exchange.requestOf e (callWith longText)).body =
    Bytes.ofString (String.ofList (Json.ofRequest (callWith longText)).chars) := rfl
  rw [hrender]
  omega

/-- What the service answers to a call with a define. -/
theorem reply_callWith (define : String) : site.reply Service.echo.beside (callWith define) =
    .built { succeeded := true, warnings := ["/p: Game.dll #1"] } := rfl

/-- A frame carries the answer. -/
theorem length_pack_reply (define : String) :
    (pack (replyLayout (site.reply Service.echo.beside (callWith define)))).length ≤ maxLength := by
  rw [reply_callWith, pack, Layout.length_whole]
  decide

/-- A frame carries the call with the long define, and over the local socket it is answered; over
the port it is not. -/
theorem long_call_refused :
    (pack (requestLayout (callWith longText))).length ≤ maxLength ∧
    (site.send (.localSocket owner path) (callWith longText)).1 =
      .ok { succeeded := true, warnings := ["/p: Game.dll #1"] } ∧
    (site.send (.loopbackHttp owner defaultPort) (callWith longText)).1 =
      .error (.protocol "http://127.0.0.1:52000/kiln.build/42 answered 413 Payload Too Large") := by
  obtain ⟨hsocket, hport⟩ := site_offers
  refine ⟨length_pack_longText, ?_, ?_⟩
  · rw [Site.send_localSocket hsocket length_pack_longText (length_pack_reply longText),
      reply_callWith]
    rfl
  · rw [Site.send_loopbackHttp_of_lt (by decide) hport (maxBody_lt_length_body _)]
    rfl

/-- A short call is answered alike on both ways, and the long one is not. -/
theorem short_call_agrees :
    site.send (.loopbackHttp owner defaultPort) (callWith "DEBUG") =
      site.send (.localSocket owner path) (callWith "DEBUG") ∧
    (site.send (.loopbackHttp owner defaultPort) (callWith longText)).1 ≠
      (site.send (.localSocket owner path) (callWith longText)).1 := by
  obtain ⟨hsocket, hport⟩ := site_offers
  have howner : owner < Decimal.word := by decide
  have hcall : (pack (requestLayout (callWith "DEBUG"))).length ≤ maxLength := by
    rw [pack, Layout.length_whole]
    decide
  have hbody : (Exchange.requestOf (.loopbackHttp owner defaultPort) (callWith "DEBUG")).body =
      (Json.ofRequest (callWith "DEBUG")).chars.flatMap String.utf8EncodeChar := by
    rw [Exchange.requestOf, Bytes.ofString_eq_flatMap, Json.Value.render, String.toList_ofList]
  constructor
  · refine (Site.transports_agree howner hsocket hport hcall (length_pack_reply "DEBUG")).2.1 ?_
    rw [hbody]
    decide +kernel
  · intro h
    have hle := (Site.transports_agree howner hsocket hport length_pack_longText
      (length_pack_reply longText)).1.mp h
    have hlt := maxBody_lt_length_body (.loopbackHttp owner defaultPort)
    omega

end TwoWays
end IncrementalBuild
