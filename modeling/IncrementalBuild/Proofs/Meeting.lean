import IncrementalBuild.Proofs.Neighbours
import IncrementalBuild.Proofs.Transports
/-!
# Client and server meet

A client and a server derive the endpoint from the transport and the owner. What a client sends
reaches the service of a server under the same transport if they have the same owner, and only
then: the route of another owner is refused with a status, and the socket file of another owner is
another file. Two transports are an exception. A server that asks for no port in particular comes to
listen at one that its clients do not know, and a relative directory of socket files is one
directory for whoever works there, and another one for others.

## Main definitions

* `Transport.Carries` — the calls that a transport has room for.
* `Site.Runs`, `Site.Keeps` — a server that runs on a site, and the ledger of its calls.
* `Host.Numbered` — socket files lead to servers that began to listen, and port zero to nobody.
* `Site.seenFrom` — a site, for a client that works in another directory.

## Main results

* `Exchange.overHttp_of_ne` — a call over the route of another owner.
* `Site.runs_of_open` — a server that was opened runs.
* `Site.meet_iff` — which calls reach a server.
-/

open IncrementalBuild.Frame

namespace IncrementalBuild

/-! ### The route of another owner -/

/-- A call in a body within the limit is not found by the server of another owner. -/
theorem Route.callOf_of_ne {segment : List Char} {asked owner : Nat} {request : Http.Request}
    {call : BuildCall} (hasked : ownerOf? segment = some asked) (hne : asked ≠ owner)
    (htype : request.contentType = some "application/json")
    (hbody : request.body = Bytes.ofString (Json.ofRequest call).render)
    (hshort : request.body.length ≤ maxBody) : callOf segment owner request = .error 404 := by
  rw [callOf, hasked]
  simp only [htype, Option.any_some, isJson_application, Bool.not_true, Bool.false_eq_true,
    if_false, if_neg (Nat.not_lt.mpr hshort)]
  simp only [hbody, Bytes.toString?_ofString, Json.decode_ofRequest, if_neg hne]

namespace Exchange

variable {τ : Type} {e : Endpoint} {call : BuildCall} {owner : Nat}

/-- The server of another owner refuses a call with a status. -/
theorem answer_of_ne (service : Service τ) (howner : e.owner < Decimal.word)
    (hne : e.owner ≠ owner) (hshort : (requestOf e call).body.length ≤ Route.maxBody) (state : τ) :
    Route.answer service owner (requestOf e call) state = (⟨404, none⟩, state) := by
  have hcall : Route.callOf _ owner (requestOf e call) = .error 404 :=
    Route.callOf_of_ne (Route.ownerOf?_toString howner) hne rfl rfl hshort
  rw [Route.answer]
  simp only [requestOf, Route.of_route, ne_eq, not_true, if_false] at hcall ⊢
  rw [hcall]

/-- **Another owner.** The client does not reach the server of its own owner there, and the service
is not called. -/
theorem overHttp_of_ne (service : Service τ) (howner : e.owner < Decimal.word)
    (hne : e.owner ≠ owner) (hshort : (requestOf e call).body.length ≤ Route.maxBody) (state : τ) :
    overHttp service owner e call state =
      (.error (.unreachable s!"{e.display}: no server for this owner"), state) := by
  simp only [overHttp, answer_of_ne service howner hne hshort, resultOf, if_true]

end Exchange

/-! ### Calls and ledgers -/

/-- A call of a size that a transport carries: in a frame, or in a body. -/
def Transport.Carries (t : Transport) (call : BuildCall) : Prop :=
  match t.kind with
  | .localSocket => (Archive.pack (requestLayout call)).length ≤ maxLength
  | .loopbackHttp => (Bytes.ofString (Json.ofRequest call).render).length ≤ Route.maxBody

namespace Service

variable {τ : Type} {service : Service τ} {ledger : τ → List BuildCall} {call : BuildCall}
  {there back : Bytes → List Bytes}

/-- The calls of a service make no entries in a ledger. -/
def Leaves (service : Service τ) (ledger : τ → List BuildCall) : Prop :=
  ∀ project options state, ledger (service project options state).2 = ledger state

/-- A call that a frame carries makes one entry, also if its answer does not fit into one. -/
theorem Enters.overSocket (h : service.Enters ledger)
    (hthere : ∀ bytes, (there bytes).flatten = bytes)
    (hcall : (Archive.pack (requestLayout call)).length ≤ maxLength) (state : τ) :
    ledger (Exchange.overSocket there back service call state).2 = ledger state ++ [call] := by
  rw [Archive.pack, Archive.Layout.length_whole] at hcall
  have haccepted : Exchange.isRefused call = false := by
    rw [Exchange.isRefused, lengthOf_of_le hcall]
    exact decide_eq_false (Nat.not_lt.mpr hcall)
  have hrequest : ofRequest call = .ok _ := ofLayout_of_le hcall
  have hstarts := startsWith_of_ofLayout hrequest requestOf_pack
    ((length_le_iff hrequest).mpr hcall) []
  rw [List.append_nil, ← hthere (_ ++ _)] at hstarts
  rw [Exchange.overSocket, haccepted, if_neg Bool.false_ne_true, hrequest]
  simp only [Service.serve_of_startsWith service hstarts]
  rw [← h.dispatch call state]
  split <;> rename_i heq <;> rw [(Prod.mk.inj heq).2]

/-- Calls of other services make none. -/
theorem Leaves.overSocket (h : service.Leaves ledger) (state : τ) :
    ledger (Exchange.overSocket there back service call state).2 = ledger state := by
  have hserve (arriving : List Bytes) : ledger (service.serve arriving state).2 = ledger state := by
    rw [serve]
    split
    · rfl
    · exact (congrArg ledger (dispatch_snd service _ state)).trans (h _ _ state)
  rw [Exchange.overSocket]
  split
  · rfl
  · split
    · rfl
    · split <;> rename_i heq <;> rw [← hserve, heq]

end Service

/-! ### Another work directory -/

namespace Files

variable {fs : Files} {p : Path} {n : Nat}

/-- A server accepts a connection where a path that fits a socket address leads to its file. -/
theorem connect_eq_ok_iff : fs.connect p = .ok n ↔ p.socketFault? = none ∧
    p.isApartFromFiles = false ∧
    ∃ loc, fs.locate p = .ok loc ∧ fs.at? loc = some (.socket (some n)) := by
  constructor
  · intro h
    obtain ⟨hfits, hleads, hat⟩ := connect_eq_ok h
    exact ⟨hfits, not_apart_of_leads hleads, _, hleads.locate (by rw [hat]; rfl), hat⟩
  · rintro ⟨hfits, hapart, loc, hlocate, hat⟩
    have hstat : fs.stat p = .ok (.socket (some n)) := by
      rw [stat_of_locate hlocate, hat]
      rfl
    rw [connect, hfits]
    dsimp only
    rw [hapart, hstat]
    rfl

/-- Absolute paths are looked up alike from all directories. -/
theorem locate_of_isAbsolute (hp : p.isAbsolute = true) (dir : Location) :
    ({ fs with workDir := dir } : Files).locate p = fs.locate p := by
  have hwalk (parts : List (List Char)) : ∀ loc,
      ({ fs with workDir := dir } : Files).walk loc parts = fs.walk loc parts := by
    induction parts with
    | nil => exact fun _ => rfl
    | cons segment rest ih =>
        intro loc
        rw [walk, walk, show ({ fs with workDir := dir } : Files).stepTo loc segment =
          fs.stepTo loc segment from rfl]
        split
        · rfl
        · rw [ih]
          rfl
  have hstart : ({ fs with workDir := dir } : Files).start p.text.toList =
      fs.start p.text.toList := by
    rw [Path.isAbsolute, beq_iff_eq] at hp
    rw [start, start, if_pos hp, if_pos hp]
  rw [locate, locate]
  cases hcheck : checkPath p with
  | error e => rfl
  | ok cs =>
      obtain ⟨rfl, -⟩ := checkPath_eq_ok hcheck
      simp only [bind, Except.bind, hstart, hwalk]
      rfl

end Files

/-- What is read relative to an absolute path is absolute. -/
theorem Path.isAbsolute_join {p : Path} (hp : p.isAbsolute = true) (q : Path) :
    (p.join q).isAbsolute = true := by
  rw [isAbsolute, beq_iff_eq] at hp ⊢
  rw [join, String.toList_ofList, joinText]
  split
  · next hq => exact hq
  · obtain ⟨rest, hrest⟩ := List.head?_eq_some_iff.mp hp
    split <;> rw [hrest] <;> rfl

namespace Endpoint

variable {t : Transport} {a b : Nat}

/-- Socket files in an absolute directory have absolute paths. -/
theorem isAbsolute_socketPath (h : t.socketRoot.isAbsolute = true) (owner : Nat) :
    (socketPath t owner).isAbsolute = true :=
  Path.isAbsolute_join (Path.isAbsolute_join h _) _

/-- The place of a socket file tells its owner, seen from any directory. -/
theorem eq_of_place_socketPath {fs others : Files}
    (h : fs.place (socketPath t a) = others.place (socketPath t b)) : a = b := by
  obtain ⟨dir, hends⟩ := exists_socketPath_endsIn t
  have hname (fs : Files) (owner : Nat) :
      (fs.place (socketPath t owner)).getLast? = some (String.ofList (socketName owner)) := by
    rw [Files.place_of_named (hends owner).named (hends owner).isName, List.getLast?_concat]
  have hlast := hname fs a
  rw [h, hname others b, Option.some.injEq, String.ofList_inj] at hlast
  exact (socketName_injective hlast).symm

/-- Socket files of different owners have different paths. -/
theorem not_same_socketPath (hne : a ≠ b) :
    (socketPath t a).same (socketPath t b) = false := by
  rw [Bool.eq_false_iff]
  exact fun hsame => socketPath_place_ne t hne {} (Files.place_same hsame)

end Endpoint

/-! ### Servers that run -/

/-- Every socket file leads to a server that has begun to listen, and port zero to none. -/
structure Host.Numbered (h : Host) : Prop where
  sockets : ∀ loc n, h.files.at? loc = some (.socket (some n)) → n < h.servers
  zero : h.ports.lookup 0 = none

namespace Host

variable {h h' : Host} {e : Endpoint} {p : Path} {n : Nat}

/-- Socket files that lead to servers were there before, and nothing else of a host has changed but
files. -/
structure Fewer (h h' : Host) : Prop where
  eq : h' = { h with files := h'.files }
  sockets : ∀ loc n, h'.files.at? loc = some (.socket (some n)) →
    h.files.at? loc = some (.socket (some n))

/-- Without a change there are no more. -/
theorem Fewer.refl (h : Host) : Fewer h h := ⟨rfl, fun _ _ h => h⟩

/-- Changes that make no more of them come one after the other. -/
theorem Fewer.trans {h'' : Host} (hfirst : Fewer h h') (hnext : Fewer h' h'') : Fewer h h'' := by
  refine ⟨?_, fun loc n hat => hfirst.sockets loc n (hnext.sockets loc n hat)⟩
  rw [hnext.eq, hfirst.eq]

/-- A host stays quiet. -/
theorem Fewer.quiet (hfewer : Fewer h h') (hquiet : h.interference = []) :
    h'.interference = [] := by
  rw [hfewer.eq]
  exact hquiet

/-- Numbers are kept. -/
theorem Fewer.numbered (hfewer : Fewer h h') (hnumbered : h.Numbered) : h'.Numbered := by
  have hservers : h'.servers = h.servers := by rw [hfewer.eq]
  have hports : h'.ports = h.ports := by rw [hfewer.eq]
  refine ⟨fun loc n hat => ?_, ?_⟩
  · rw [hservers]
    exact hnumbered.sockets loc n (hfewer.sockets loc n hat)
  · rw [hports]
    exact hnumbered.zero

/-- Making directories makes no socket files. -/
theorem fewer_makeDirectory (hquiet : h.interference = []) (p : Path) :
    Fewer h (Server.makeDirectory p h).2 := by
  rw [Server.makeDirectory]
  cases p.parent? with
  | none => exact .refl h
  | some dir =>
      dsimp only
      rw [Access.createDirectories_quiet dir hquiet]
      have hspares := Files.spares_createDirectories h.files dir
      rcases hmade : h.files.createDirectories dir with ⟨_ | cause, files⟩ <;>
      · rw [hmade] at hspares
        refine ⟨rfl, fun loc n hat => ?_⟩
        rcases hspares.elsewhere loc List.not_mem_nil with hsame | ⟨-, hdirectory⟩
        · exact hsame ▸ hat
        · exact absurd (hdirectory.symm.trans hat) (by simp)

/-- Removing a file makes none. -/
theorem fewer_remove (hquiet : h.interference = []) (p : Path) :
    Fewer h (Access.remove p h).2 := by
  rw [Access.remove, Access.change_quiet _ hquiet]
  rcases hremove : h.files.remove p with cause | files
  · exact .refl h
  · obtain ⟨hdir, rfl⟩ := Files.remove_eq_ok hremove
    refine ⟨rfl, fun loc n hat => ?_⟩
    dsimp only at hat
    rw [Files.at?_drop (Files.ne_nil_of_isDirectoryAt hdir)] at hat
    split at hat
    · exact absurd hat (by simp)
    · exact hat

/-- A step of opening an endpoint leaves what its access leaves. -/
theorem step_snd {α : Type} (e : Endpoint) (f : Access α) (h : Host) :
    (Server.step e f h).2 = (f h).2 := by
  rw [Server.step]
  rcases f h with ⟨_ | _, _⟩ <;> rfl

/-- Making way for a socket file makes none. -/
theorem fewer_clear (hquiet : h.interference = []) (e : Endpoint) (p : Path) :
    Fewer h (Server.clear e p h).2 := by
  have hthere : (Server.isThere p h).2 = h := by
    rw [Server.isThere, Access.stat, Access.look_quiet _ hquiet]
    cases h.files.stat p <;> rfl
  have hlive : (Server.isLive p h).2 = h := by
    rw [Server.isLive, Access.connectSocket, Access.look_quiet _ hquiet]
    cases h.files.connect p <;> rfl
  rw [Server.clear]
  rcases hseen : Server.isThere p h with ⟨_ | _, seen⟩
  · rw [hseen] at hthere
    obtain rfl : seen = h := hthere
    exact .refl seen
  · rw [hseen] at hthere
    obtain rfl : seen = h := hthere
    dsimp only
    rcases hknocked : Server.isLive p seen with ⟨_ | _, knocked⟩
    · rw [hknocked] at hlive
      obtain rfl : knocked = seen := hlive
      dsimp only
      rw [step_snd]
      exact fewer_remove hquiet p
    · rw [hknocked] at hlive
      obtain rfl : knocked = seen := hlive
      exact .refl knocked

/-- A server that begins to listen at a socket file gets the next number, and its file stands at one
place. -/
theorem numbered_of_listenSocket (hquiet : h.interference = []) (hnumbered : h.Numbered)
    (hlisten : Access.listenSocket p h = (.ok n, h')) : n = h.servers ∧ h'.Numbered ∧
      h'.interference = [] ∧ ∀ loc, h'.files.at? loc = some (.socket (some n)) →
        loc = h.files.place p := by
  rw [Access.listenSocket, Access.change_quiet _ hquiet] at hlisten
  rcases hfiles : h.files.listen p h.servers with cause | files
  · rw [hfiles] at hlisten
    exact absurd (congrArg Prod.fst hlisten) (by simp)
  · rw [hfiles] at hlisten
    obtain ⟨hn, rfl⟩ := Prod.mk.inj hlisten
    obtain rfl := Except.ok.inj hn
    have hlistens := Files.listen_eq_ok hfiles
    have hat (loc : Location) : files.at? loc =
        if loc = h.files.place p then some (.socket (some h.servers)) else h.files.at? loc := by
      rw [hlistens.eq_put, Files.at?_put (Files.ne_nil_of_isDirectoryAt hlistens.not_directory)]
    refine ⟨rfl, ⟨fun loc m hm => ?_, hnumbered.zero⟩, hquiet, fun loc hloc => ?_⟩
    · dsimp only at hm ⊢
      rw [hat] at hm
      split at hm
      · have hmn : h.servers = m := by simpa using hm
        omega
      · exact Nat.lt_succ_of_lt (hnumbered.sockets loc m hm)
    · by_contra hne
      dsimp only at hloc
      rw [hat, if_neg hne] at hloc
      exact Nat.lt_irrefl _ (hnumbered.sockets loc _ hloc)

/-- A server that begins to listen at a port gets the next number, and no socket file. -/
theorem numbered_of_listenPort {port : Nat} (hquiet : h.interference = []) (hnumbered : h.Numbered)
    (hlisten : Access.listenPort port h = (.ok n, h')) : n = h.servers ∧ h'.Numbered ∧
      h'.interference = [] ∧ ∀ loc, h'.files.at? loc ≠ some (.socket (some n)) := by
  rw [Access.listenPort, enter_of_interference_eq_nil hquiet] at hlisten
  dsimp only at hlisten
  rcases hport : h.portFor? port with _ | q
  · rw [hport] at hlisten
    exact absurd (congrArg Prod.fst hlisten) (by simp)
  · rw [hport] at hlisten
    obtain ⟨hn, rfl⟩ := Prod.mk.inj hlisten
    obtain rfl := Except.ok.inj hn
    have hq : 0 ≠ q := by
      rintro rfl
      have hmem := List.mem_of_find?_eq_some hport
      rw [portsFor] at hmem
      split at hmem
      · exact absurd hmem (by simp [List.mem_range']; omega)
      · next hport => exact hport (List.mem_singleton.mp hmem).symm
    refine ⟨rfl, ⟨fun loc m hm => Nat.lt_succ_of_lt (hnumbered.sockets loc m hm), ?_⟩, hquiet,
      fun loc hloc => Nat.lt_irrefl _ (hnumbered.sockets loc _ hloc)⟩
    rw [List.lookup_cons, beq_false_of_ne hq]
    exact hnumbered.zero

/-- Opening an endpoint keeps the numbers, and a new socket file stands at one place. -/
theorem numbered_of_open (hquiet : h.interference = []) (hnumbered : h.Numbered)
    (hopen : Server.open e h = (.ok n, h')) : h'.Numbered ∧ h'.interference = [] ∧
      ∀ loc other, h'.files.at? loc = some (.socket (some n)) →
        h'.files.at? other = some (.socket (some n)) → loc = other := by
  cases e with
  | loopbackHttp owner port =>
      obtain ⟨-, hafter, hquiet', hnone⟩ :=
        numbered_of_listenPort hquiet hnumbered (Server.step_eq_ok hopen)
      exact ⟨hafter, hquiet', fun loc _ hloc => absurd hloc (hnone loc)⟩
  | localSocket owner p =>
      have hmade := fewer_makeDirectory hquiet p
      rw [← step_snd (.localSocket owner p)] at hmade
      rw [Server.open] at hopen
      rcases hstep : Server.step (.localSocket owner p) (Server.makeDirectory p) h with
        ⟨cause | _, made⟩
      · rw [hstep] at hopen
        exact absurd (congrArg Prod.fst hopen) (by simp)
      · rw [hstep] at hopen hmade
        dsimp only at hopen hmade
        have hcleared := fewer_clear (hmade.quiet hquiet) (.localSocket owner p) p
        rcases hclear : Server.clear (.localSocket owner p) p made with ⟨cause | _, cleared⟩
        · rw [hclear] at hopen
          exact absurd (congrArg Prod.fst hopen) (by simp)
        · rw [hclear] at hopen hcleared
          have hfewer : h.Fewer cleared := hmade.trans hcleared
          obtain ⟨-, hafter, hquiet', hone⟩ := numbered_of_listenSocket (hfewer.quiet hquiet)
            (hfewer.numbered hnumbered) (Server.step_eq_ok hopen)
          exact ⟨hafter, hquiet', fun loc other hloc hother =>
            (hone loc hloc).trans (hone other hother).symm⟩

end Host

/-- A server keeps its endpoint when it starts. -/
theorem Server.start_endpoint (server : Server) (h : Host) :
    (server.start h).2.1.endpoint = server.endpoint := by
  rw [Server.start]
  dsimp only
  split
  · rfl
  · rcases Server.open (server.enter .starting).endpoint h with ⟨_ | _, _⟩ <;> rfl

namespace Site

variable {τ : Type} {s : Site τ} {n : Nat} {server : Server} {service : Service (τ × Host)}
  {ledger : τ → List BuildCall}

/-- A server runs on a site: it offers a service and listens at its endpoint, and its socket file,
if it has one, stands at one place only. -/
structure Runs (s : Site τ) (n : Nat) (server : Server) (service : Service (τ × Host)) : Prop where
  offered : s.servers.lookup n = some (server, service)
  listens : s.host.Listens server.endpoint n
  alone : ∀ loc other, s.host.files.at? loc = some (.socket (some n)) →
    s.host.files.at? other = some (.socket (some n)) → loc = other

/-- The service of one server enters its calls into a ledger, and those of all others leave it. -/
structure Keeps (s : Site τ) (n : Nat) (ledger : τ → List BuildCall) : Prop where
  enters : ∀ server service, s.servers.lookup n = some (server, service) →
    service.Enters fun x => ledger x.1
  leaves : ∀ m server service, m ≠ n → s.servers.lookup m = some (server, service) →
    service.Leaves fun x => ledger x.1

/-- **A server that was opened** runs. -/
theorem runs_of_open {s' : Site τ} {server' : Server} {service : Nat → Service (τ × Host)}
    (hquiet : s.host.interference = []) (hnumbered : s.host.Numbered)
    (hopen : s.open server service = (.ok (), server', s')) :
    s'.host.interference = [] ∧ s'.host.Numbered ∧ ∃ n, s'.Runs n server' (service n) := by
  rw [Site.open] at hopen
  rcases hstart : server.start s.host with ⟨cause | _, started, host⟩
  · rw [hstart] at hopen
    exact absurd (congrArg Prod.fst hopen) (by simp)
  · rw [hstart] at hopen
    obtain ⟨-, n, hnumber, hopened⟩ := Server.start_eq_ok hstart
    obtain ⟨hafter, hquiet', halone⟩ := Host.numbered_of_open hquiet hnumbered hopened
    obtain ⟨-, hrest⟩ := Prod.mk.inj hopen
    obtain ⟨rfl, rfl⟩ := Prod.mk.inj hrest
    have hendpoint : started.endpoint = server.endpoint := by
      rw [← Server.start_endpoint server s.host, hstart]
    refine ⟨hquiet', hafter, n, ?_, ?_, halone⟩
    · dsimp only
      rw [hnumber]
      exact List.lookup_cons_self
    · rw [hendpoint]
      exact Server.listens_of_open hopened

/-- A site, for a client that works in another directory. -/
def seenFrom (dir : Location) (s : Site τ) : Site τ := { s with host := s.host.goTo dir }

/-! ### Sending -/

section Send

variable {e : Endpoint} {p : Path} {t : Transport} {a b port : Nat} {call : BuildCall}
  {dir : Location}

/-- A call over a local socket reaches the server whose file its path leads to. -/
theorem ledger_sendLocal (hquiet : s.host.interference = []) (hkeeps : s.Keeps n ledger)
    (hoffered : s.servers.lookup n = some (server, service))
    (hcall : (Archive.pack (requestLayout call)).length ≤ maxLength) :
    ledger (s.sendLocal e p call).2.state =
      if s.host.files.connect p = .ok n then ledger s.state ++ [call] else ledger s.state := by
  have hconnect : Access.connectSocket p s.host = (s.host.files.connect p, s.host) :=
    Access.look_quiet _ hquiet
  rw [sendLocal, hconnect]
  rcases hleads : s.host.files.connect p with cause | m
  · rfl
  · dsimp only
    by_cases hm : m = n
    · subst hm
      rw [hoffered, if_pos rfl]
      have hwhole (bytes : Bytes) : (List.singleton bytes).flatten = bytes := List.append_nil bytes
      exact (hkeeps.enters _ _ hoffered).overSocket hwhole hcall _
    · rw [if_neg fun h => hm (Except.ok.inj h)]
      rcases hlookup : s.servers.lookup m with _ | ⟨other, service'⟩
      · rfl
      · exact (hkeeps.leaves m _ _ hm hlookup).overSocket _

/-- The path of an owner's socket file leads a client to the server exactly if the owner is the
server's, and the path leads to the same place from where the client works. -/
theorem connect_seenFrom_iff (hruns : s.Runs n server service) (a : Nat) (dir : Location)
    (hendpoint : server.endpoint = .localSocket b (Endpoint.socketPath t b)) :
    (s.seenFrom dir).host.files.connect (Endpoint.socketPath t a) = .ok n ↔
      a = b ∧ (s.seenFrom dir).host.files.locate (Endpoint.socketPath t b) =
        s.host.files.locate (Endpoint.socketPath t b) := by
  have hlistens := hruns.listens
  rw [hendpoint] at hlistens
  obtain ⟨hfits, hapart, loc, hlocate, hat⟩ := Files.connect_eq_ok_iff.mp hlistens
  constructor
  · intro hconnect
    obtain ⟨-, -, other, hother, hatOther⟩ := Files.connect_eq_ok_iff.mp hconnect
    obtain rfl : loc = other := hruns.alone loc other hat hatOther
    have hplace : s.host.files.place (Endpoint.socketPath t b) =
        (s.seenFrom dir).host.files.place (Endpoint.socketPath t a) :=
      (Files.locate_eq_ok hlocate).symm.trans (Files.locate_eq_ok hother)
    obtain rfl := Endpoint.eq_of_place_socketPath hplace
    exact ⟨rfl, hother.trans hlocate.symm⟩
  · rintro ⟨rfl, hsame⟩
    exact Files.connect_eq_ok_iff.mpr ⟨hfits, hapart, loc, hsame.trans hlocate, hat⟩

/-- At a port where nobody listens, a client reaches nobody. -/
theorem sendHttp_of_lookup_none (hquiet : s.host.interference = [])
    (hport : s.host.ports.lookup port = none) (call : BuildCall) :
    ∃ reason, s.sendHttp e port call = (.error (.unreachable reason), s) := by
  have hconnect : Access.connectPort port s.host = (.error .connectionRefused, s.host) := by
    rw [Access.connectPort, Host.enter_of_interference_eq_nil hquiet]
    simp only [hport]
  rw [sendHttp, hconnect]
  exact ⟨_, rfl⟩

/-- At the port of a server, a call is an exchange with that server, whatever owner it is for. -/
theorem sendHttp_of_lookup (hquiet : s.host.interference = []) (hopen : s.host.loopbackOpen = true)
    (hport : s.host.ports.lookup port = some n)
    (hoffered : s.servers.lookup n = some (server, service)) (call : BuildCall) :
    (s.sendHttp e port call).1 =
        (Exchange.overHttp service server.owner e call (s.state, s.host)).1 ∧
      (s.sendHttp e port call).2.state =
        (Exchange.overHttp service server.owner e call (s.state, s.host)).2.1 := by
  have hconnect : Access.connectPort port s.host = (.ok n, s.host) := by
    rw [Access.connectPort, Host.enter_of_interference_eq_nil hquiet]
    simp only [hport, hopen, if_true]
  rw [sendHttp, hconnect]
  simp only [hoffered]
  exact ⟨trivial, trivial⟩

/-- A call reached the service whose calls stand in the ledger: there is one entry more. -/
def Reached (ledger : τ → List BuildCall) (call : BuildCall) (before after : Site τ) : Prop :=
  ledger after.state = ledger before.state ++ [call]

/-- A ledger that was left alone shows that no call reached its service. -/
theorem not_reached {before after : Site τ} (h : ledger after.state = ledger before.state) :
    ¬ Reached ledger call before after := by
  intro hreached
  have hlength := congrArg List.length (h.symm.trans hreached)
  rw [List.length_append, List.length_singleton] at hlength
  omega

/-- Over local sockets, a client meets the server at its file, if its path leads there. -/
theorem meet_localSocket (hquiet : s.host.interference = []) (hruns : s.Runs n server service)
    (hkeeps : s.Keeps n ledger) (hkind : server.transport.kind = .localSocket)
    (hcarries : server.transport.Carries call) (a : Nat) (dir : Location) :
    let p := Endpoint.socketPath server.transport server.owner
    let client := s.seenFrom dir
    let after := (client.send (.ofOwner server.transport a) call).2
    (Reached ledger call s after ↔
      a = server.owner ∧ client.host.files.locate p = s.host.files.locate p) ∧
    (¬ Reached ledger call s after → ledger after.state = ledger s.state) := by
  intro p client after
  have hendpoint (owner : Nat) : Endpoint.ofOwner server.transport owner =
      .localSocket owner (Endpoint.socketPath server.transport owner) := by
    rw [Endpoint.ofOwner, hkind]
  have hcall : (Archive.pack (requestLayout call)).length ≤ maxLength := by
    rwa [Transport.Carries, hkind] at hcarries
  have hledger : ledger after.state =
      if client.host.files.connect (Endpoint.socketPath server.transport a) = .ok n then
        ledger s.state ++ [call] else ledger s.state := by
    have hclient : client.Keeps n ledger := ⟨hkeeps.enters, hkeeps.leaves⟩
    have hsend : after = (client.sendLocal (.ofOwner server.transport a)
        (Endpoint.socketPath server.transport a) call).2 := by
      rw [hendpoint a]
      exact congrArg (fun e => (client.send e call).2) (hendpoint a)
    rw [hsend]
    exact ledger_sendLocal hquiet hclient hruns.offered hcall
  have hmeet := connect_seenFrom_iff hruns a dir (hendpoint server.owner)
  rw [← hmeet]
  by_cases hconnect : client.host.files.connect (Endpoint.socketPath server.transport a) = .ok n
  · rw [if_pos hconnect] at hledger
    exact ⟨iff_of_true hledger hconnect, fun hnot => absurd hledger hnot⟩
  · rw [if_neg hconnect] at hledger
    exact ⟨iff_of_false (not_reached hledger) hconnect, fun _ => hledger⟩

/-- Over the loopback transport, a client meets the server at its port, if that is the one that both
ask for, and on its route. -/
theorem meet_loopbackHttp (hquiet : s.host.interference = []) (hnumbered : s.host.Numbered)
    (hruns : s.Runs n server service) (hkeeps : s.Keeps n ledger)
    (hkind : server.transport.kind = .loopbackHttp) (hopen : s.host.loopbackOpen = true)
    (ha : a < Decimal.word) (hcarries : server.transport.Carries call) (dir : Location) :
    let outcome := (s.seenFrom dir).send (.ofOwner server.transport a) call
    (Reached ledger call s outcome.2 ↔ a = server.owner ∧ server.transport.port ≠ 0) ∧
    (¬ Reached ledger call s outcome.2 →
      ledger outcome.2.state = ledger s.state ∧
        ∃ reason, outcome.1 = .error (.unreachable reason)) := by
  intro outcome
  have hendpoint (owner : Nat) : Endpoint.ofOwner server.transport owner =
      .loopbackHttp owner server.transport.port := by
    rw [Endpoint.ofOwner, hkind]
  have hcall : (Exchange.requestOf (.ofOwner server.transport a) call).body.length ≤
      Route.maxBody := by
    rwa [Transport.Carries, hkind] at hcarries
  have hsend : outcome = (s.seenFrom dir).sendHttp (.ofOwner server.transport a)
      server.transport.port call := by
    rw [hendpoint a]
    exact congrArg (fun e => (s.seenFrom dir).send e call) (hendpoint a)
  have hlistens := hruns.listens
  rw [Server.endpoint, hendpoint] at hlistens
  obtain ⟨q, hq, hport⟩ := hlistens
  rw [hsend]
  by_cases hzero : server.transport.port = 0
  · have hnobody : (s.seenFrom dir).host.ports.lookup server.transport.port = none := by
      rw [hzero]
      exact hnumbered.zero
    obtain ⟨reason, hsent⟩ := sendHttp_of_lookup_none (s := s.seenFrom dir)
      (e := .ofOwner server.transport a) hquiet hnobody call
    rw [hsent]
    exact ⟨iff_of_false (not_reached rfl) fun h => h.2 hzero, fun _ => ⟨rfl, reason, rfl⟩⟩
  · rw [Host.portsFor, if_neg hzero, List.mem_singleton] at hq
    rw [hq] at hport
    obtain ⟨hresult, hstate⟩ := sendHttp_of_lookup (s := s.seenFrom dir)
      (e := .ofOwner server.transport a) hquiet hopen hport hruns.offered call
    have hasks : (Endpoint.ofOwner server.transport a).owner = a := by rw [hendpoint a]; rfl
    rw [hresult, Reached, hstate]
    by_cases howner : a = server.owner
    · have hserved := Exchange.overHttp_of_le (e := .ofOwner server.transport a) service
        (hasks.symm ▸ ha) hcall ((s.seenFrom dir).state, (s.seenFrom dir).host)
      rw [hasks, howner] at hserved
      rw [howner, hserved]
      have hentered := (hkeeps.enters _ _ hruns.offered).dispatch call
        ((s.seenFrom dir).state, (s.seenFrom dir).host)
      exact ⟨iff_of_true hentered ⟨rfl, hzero⟩, fun hnot => absurd hentered hnot⟩
    · have hrefused := Exchange.overHttp_of_ne (e := .ofOwner server.transport a) service
        (hasks.symm ▸ ha) (hasks.symm ▸ howner) hcall
        ((s.seenFrom dir).state, (s.seenFrom dir).host)
      rw [hrefused]
      exact ⟨iff_of_false (not_reached rfl) fun h => howner h.1,
        fun _ => ⟨rfl, _, rfl⟩⟩

/-- **Client and server meet** if they have the same owner, and only then. A server of some owner
runs under a transport, and a client under the same transport sends it a call of a size that the
transport carries, from any directory. Over local sockets the call reaches the service of the server
exactly if the client's owner is the server's, provided that the path of the socket file leads the
client where it led the server, as it does in the server's directory and if the directory of socket
files is absolute; another owner's socket file has another path. Over the loopback transport it
reaches the service exactly if the owners are the same and a port is asked for. Where it does not,
the client is told that its server is not reachable; the route for another owner names that owner,
and is answered with a status. Unless the service is reached, it is not called. -/
theorem meet_iff (hquiet : s.host.interference = []) (hnumbered : s.host.Numbered)
    (hruns : s.Runs n server service) (hkeeps : s.Keeps n ledger) (ha : a < Decimal.word)
    (hcarries : server.transport.Carries call) (dir : Location) :
    let t := server.transport
    let client := s.seenFrom dir
    let outcome := client.send (.ofOwner t a) call
    (t.kind = .localSocket →
      let p := Endpoint.socketPath t server.owner
      (Reached ledger call s outcome.2 ↔
        a = server.owner ∧ client.host.files.locate p = s.host.files.locate p) ∧
      (¬ Reached ledger call s outcome.2 → ledger outcome.2.state = ledger s.state) ∧
      (dir = s.host.files.workDir ∨ t.socketRoot.isAbsolute = true →
        client.host.files.locate p = s.host.files.locate p) ∧
      (a ≠ server.owner → (Endpoint.socketPath t a).same p = false)) ∧
    (t.kind = .loopbackHttp → s.host.loopbackOpen = true →
      (Reached ledger call s outcome.2 ↔ a = server.owner ∧ t.port ≠ 0) ∧
      (¬ Reached ledger call s outcome.2 → ledger outcome.2.state = ledger s.state ∧
        ∃ reason, outcome.1 = .error (.unreachable reason)) ∧
      (a ≠ server.owner →
        (∃ segment, Route.of (Http.pathOf (Endpoint.ofOwner t a).route.toList) =
          some (.build segment) ∧ Route.ownerOf? segment = some a) ∧
        ∀ state, Route.answer service server.owner
          (Exchange.requestOf (.ofOwner t a) call) state = (⟨404, none⟩, state))) := by
  intro t client outcome
  refine ⟨fun hkind => ?_, fun hkind hopen => ?_⟩
  · obtain ⟨hreached, hleft⟩ := meet_localSocket hquiet hruns hkeeps hkind hcarries a dir
    refine ⟨hreached, hleft, ?_, Endpoint.not_same_socketPath⟩
    rintro (rfl | habsolute)
    · rfl
    · exact Files.locate_of_isAbsolute (Endpoint.isAbsolute_socketPath habsolute server.owner) dir
  · obtain ⟨hreached, hleft⟩ :=
      meet_loopbackHttp hquiet hnumbered hruns hkeeps hkind hopen ha hcarries dir
    refine ⟨hreached, hleft, fun hne => ?_⟩
    have hasks : (Endpoint.ofOwner t a).owner = a := by
      rw [Endpoint.ofOwner, hkind]
      rfl
    have hcall : (Exchange.requestOf (.ofOwner t a) call).body.length ≤ Route.maxBody := by
      rwa [Transport.Carries, hkind] at hcarries
    refine ⟨⟨_, Route.of_route _, ?_⟩, ?_⟩
    · rw [hasks]
      exact Route.ownerOf?_toString ha
    · exact Exchange.answer_of_ne service (hasks.symm ▸ ha) (hasks.symm ▸ hne) hcall

end Send
end Site

/-! ### Clients that meet a server, and clients that miss it -/

namespace Met

/-- A call. -/
def call : BuildCall := { project := "/p", options := { output := "g.dll" } }

/-- The first server enters its calls into a ledger, and the others leave it. -/
def service (number : Nat) : Service ((List BuildCall × Nat) × Host) :=
  if number = 0 then Service.echo.recorded.beside
  else fun _ _ state => (.ok { succeeded := true }, state)

/-- A site on which two owners are running. -/
def empty : Site (List BuildCall × Nat) :=
  { host := { processes := [(7, "editor"), (42, "editor")] }, state := ([], 0) }

/-- A server of an owner. -/
def server (t : Transport) (owner : Nat) : Server := { owner, transport := t }

/-- The site with a server of the first owner. -/
def site (t : Transport) : Site (List BuildCall × Nat) := (empty.open (server t 7) service).2.2

/-- Socket files in a directory. -/
def sockets : Transport := { kind := .localSocket, socketDir := some ⟨"/"⟩ }

/-- Socket files in a directory that is named relative to the work directory. -/
def relative : Transport := { kind := .localSocket, socketDir := some ⟨"s"⟩ }

/-- A port that is asked for. -/
def port : Transport := { kind := .loopbackHttp }

/-- No port in particular. -/
def anyPort : Transport := { kind := .loopbackHttp, port := 0 }

/-- A client with the server's owner misses it at a port that the server did not ask for, and in a
relative directory if the client works elsewhere. The server is there all the same. -/
theorem missed_with_same_owner :
    (empty.open (server anyPort 7) service).1 = .ok () ∧
    ((site anyPort).send (.ofOwner anyPort 7) call).1 =
      .error (.unreachable ("http://127.0.0.1:0/kiln.build/7: error sending request for url " ++
        "(http://127.0.0.1:0/kiln.build/7)")) ∧
    ((site anyPort).send (.ofOwner anyPort 7) call).2.state.1 = [] ∧
    (empty.open (server relative 7) service).1 = .ok () ∧
    (((site relative).seenFrom ["elsewhere"]).send (.ofOwner relative 7) call).2.state.1 = [] ∧
    ((site relative).send (.ofOwner relative 7) call).2.state.1 = [call] := by
  decide +kernel

/-- What began to listen is the first server. -/
theorem runs_first {t : Transport} (hopen : (empty.open (server t 7) service).1 = .ok ())
    (hservers : (site t).servers = [(0, (empty.open (server t 7) service).2.1, service 0)]) :
    (site t).host.interference = [] ∧ (site t).host.Numbered ∧
      (site t).Runs 0 (empty.open (server t 7) service).2.1 (service 0) ∧
      (site t).Keeps 0 Prod.fst := by
  have hempty : empty.host.Numbered := by
    refine ⟨fun loc n hat => ?_, rfl⟩
    rw [Files.at?] at hat
    split at hat <;> cases hat
  obtain ⟨hquiet, hnumbered, n, hruns⟩ := Site.runs_of_open (s := empty) rfl hempty
    (show empty.open (server t 7) service = (.ok (), _, _) from Prod.ext hopen rfl)
  have hlookup (m : Nat) (hm : m ≠ 0) : (site t).servers.lookup m = none := by
    rw [hservers, List.lookup_cons, beq_false_of_ne hm]
    rfl
  obtain rfl : n = 0 := by
    by_contra hn
    exact absurd (hruns.offered.symm.trans (hlookup n hn)) (by simp)
  refine ⟨hquiet, hnumbered, hruns, fun first offered hoffered => ?_,
    fun m other offered hm hoffered => ?_⟩
  · rw [hservers, List.lookup_cons_self] at hoffered
    obtain ⟨-, rfl⟩ := Prod.mk.inj (Option.some.inj hoffered)
    exact (Service.recorded_enters Service.echo).beside
  · rw [hlookup m hm] at hoffered
    cases hoffered

/-- Clients of the server's owner reach it, and those of the other owner do not. -/
theorem met_by_owner :
    Site.Reached Prod.fst call (site sockets)
      (((site sockets).seenFrom ["elsewhere"]).send (.ofOwner sockets 7) call).2 ∧
    ¬ Site.Reached Prod.fst call (site sockets)
      (((site sockets).seenFrom ["elsewhere"]).send (.ofOwner sockets 42) call).2 ∧
    Site.Reached Prod.fst call (site port)
      (((site port).seenFrom []).send (.ofOwner port 7) call).2 ∧
    ∃ reason, (((site port).seenFrom []).send (.ofOwner port 42) call).1 =
      .error (.unreachable reason) := by
  have hsocket : sockets.Carries call := by
    rw [Transport.Carries, sockets, Archive.pack, Archive.Layout.length_whole]
    decide
  have hport : port.Carries call := by
    rw [Transport.Carries, port]
    decide +kernel
  obtain ⟨hquiet, hnumbered, hruns, hkeeps⟩ := runs_first (t := sockets) rfl rfl
  obtain ⟨hquiet', hnumbered', hruns', hkeeps'⟩ := runs_first (t := port) rfl rfl
  have hmet (a : Nat) (ha : a < Decimal.word) := (Site.meet_iff hquiet hnumbered hruns hkeeps ha
    hsocket ["elsewhere"]).1 rfl
  have hmet' (a : Nat) (ha : a < Decimal.word) := (Site.meet_iff hquiet' hnumbered' hruns' hkeeps'
    ha hport []).2 rfl rfl
  obtain ⟨hseven, -, hplace, -⟩ := hmet 7 (by decide)
  obtain ⟨hother, -⟩ := hmet 42 (by decide)
  obtain ⟨hseven', -⟩ := hmet' 7 (by decide)
  obtain ⟨hother', hunreached, -⟩ := hmet' 42 (by decide)
  refine ⟨hseven.mpr ⟨rfl, hplace (.inr rfl)⟩, fun h => absurd (hother.mp h).1 (by decide),
    hseven'.mpr ⟨rfl, by decide⟩, ?_⟩
  exact (hunreached fun h => absurd (hother'.mp h).1 (by decide)).2

end Met

end IncrementalBuild
