import IncrementalBuild.Proofs.Host.Alike
import IncrementalBuild.Proofs.Text.Decimal
import IncrementalBuild.Server
/-!
# Servers of different owners

Under one transport every owner has an endpoint of its own. Whether a server gets in the way of
another owner's depends on what the endpoints are bound to. Socket files of different owners are at
different places, so a server that starts at its own finds the same whether or not the other one
listens. A port of the loopback interface is one for all owners: as long as one server listens
there, no other owner's server starts.

## Main definitions

* `Host.Listens` — a server that listens at an endpoint.
* `Host.without` — the host as it would be without that server.

## Main results

* `Endpoint.socketPath_place_ne` — socket files of different owners are at different places.
* `Server.likewise_open` — opening a socket file goes by its own place only.
* `Server.listens_of_start` — a server that starts listens at its endpoint.
* `Server.start_beside` — when a server of one owner gets in the way of another owner's.
-/

namespace IncrementalBuild

/-! ### Socket files of owners -/

namespace Endpoint

/-- The name of the socket file of an owner. -/
def socketName (owner : Nat) : List Char := (toString owner).toList ++ ".sock".toList

/-- The socket files of all owners are in one directory, under names that tell the owners. -/
theorem exists_socketPath_endsIn (t : Transport) : ∃ dir, ∀ owner,
    (socketPath t owner).EndsIn dir addressSpace.toList (socketName owner) := by
  have hfolder : Path.IsName addressSpace.toList := ⟨by decide, by decide, by decide⟩
  have hseparator : '/' ∉ addressSpace.toList := by decide
  obtain ⟨dir, hdir⟩ : ∃ dir, Path.joinText t.socketRoot.text.toList addressSpace.toList =
      Path.textIn dir addressSpace.toList := by
    rw [Path.joinText, if_neg (by decide)]
    split
    · next hroot =>
        rcases hroot with hnil | hlast
        · exact ⟨none, by rw [hnil]; rfl⟩
        · obtain ⟨root, hroot⟩ := List.getLast?_eq_some_iff.mp hlast
          exact ⟨some root, by rw [hroot, List.append_assoc]; rfl⟩
    · exact ⟨some t.socketRoot.text.toList, rfl⟩
  refine ⟨dir, fun owner => ?_⟩
  have hname : '/' ∉ socketName owner := by
    rw [socketName, List.mem_append, not_or]
    exact ⟨Decimal.not_mem_toString (by decide) owner, by decide⟩
  have htext : (socketPath t owner).text.toList =
      Path.textIn (some (Path.textIn dir addressSpace.toList)) (socketName owner) := by
    have hsocket : s!"{owner}.sock".toList = socketName owner := by
      rw [socketName, ← String.toList_append]
      rfl
    rw [socketPath, Path.join, Path.join, String.toList_ofList, String.toList_ofList, hdir, hsocket]
    exact Path.joinText_textIn dir hfolder hseparator hname
  exact ⟨⟨htext, hname⟩, Path.isName_append _ (by decide), hfolder, hseparator⟩

/-- The name of a socket file tells its owner. -/
theorem socketName_injective {a b : Nat} (h : socketName a = socketName b) : a = b := by
  have hnumber : (toString a).toList = (toString b).toList := List.append_cancel_right h
  have ha := Decimal.read?_toString (Nat.lt_succ_of_le (Nat.le_max_left a b))
  have hb := Decimal.read?_toString (Nat.lt_succ_of_le (Nat.le_max_right a b))
  rw [hnumber, hb] at ha
  exact (Option.some.inj ha).symm

/-- Socket files of different owners are at different places, wherever paths start. -/
theorem socketPath_place_ne (t : Transport) {a b : Nat} (hne : a ≠ b) (fs : Files) :
    fs.place (socketPath t a) ≠ fs.place (socketPath t b) := by
  obtain ⟨dir, hends⟩ := exists_socketPath_endsIn t
  have hnames : socketName a ≠ socketName b := fun h => hne (socketName_injective h)
  exact Files.place_ne (hends a).named (hends b).named (hends b).isName hnames

end Endpoint

/-! ### A server that listens -/

namespace Host

/-- A server that listens at an endpoint, under its number. -/
def Listens (h : Host) : Endpoint → Nat → Prop
  | .localSocket _ p, n => h.files.connect p = .ok n
  | .loopbackHttp _ port, n => ∃ q ∈ portsFor port, h.ports.lookup q = some n

/-- The host as it would be if a server did not listen at an endpoint. -/
def without (h : Host) (e : Endpoint) (n : Nat) : Host :=
  match e with
  | .localSocket _ p => { h with files := h.files.drop (h.files.place p) }
  | .loopbackHttp _ _ => { h with ports := h.ports.filter fun x => x.2 != n }

/-- The processes are the same without a server. -/
theorem isRunning_without (h : Host) (e : Endpoint) (n process : Nat) :
    (h.without e n).isRunning process = h.isRunning process := by
  cases e <;> rfl

/-- Without a server an access meets the same failure of its own. -/
theorem enter_without (h : Host) (e : Endpoint) (n : Nat) :
    (h.without e n).enter.1 = h.enter.1 := by
  cases e <;>
  · simp only [without, enter]
    cases h.interference <;> rfl

/-- A port where a server listens is not free. -/
theorem isFree_of_lookup {h : Host} {port n : Nat} (hport : h.ports.lookup port = some n) :
    h.isFree port = false := by
  rw [isFree, hport]
  rfl

/-- Whether a server comes to listen at a port depends on whether one is free. -/
theorem listenPort_fst (h : Host) (port : Nat) :
    (Access.listenPort port h).1 = match h.enter.1 with
      | some cause => .error cause
      | none => if (portsFor port).any h.isFree then .ok h.servers else .error .addressInUse := by
  have hfound : (h.portFor? port).isSome = (portsFor port).any h.isFree := by
    rw [portFor?, List.isSome_find?]
  have hentered : h.enter.2.portFor? port = h.portFor? port ∧ h.enter.2.servers = h.servers := by
    rw [enter]
    cases h.interference <;> exact ⟨rfl, rfl⟩
  rw [Access.listenPort, ← hfound]
  rcases henter : h.enter with ⟨_ | cause, after⟩
  · rw [henter] at hentered
    dsimp only at hentered ⊢
    rw [hentered.1]
    cases h.portFor? port with
    | none => rfl
    | some q => exact congrArg Except.ok hentered.2
  · rfl

end Host

namespace Server

/-! ### Opening a socket file -/

section Likewise

variable {p : Path} {dir : Option (List Char)} {folder name : List Char} (e : Endpoint)

/-- A step has one outcome on alike hosts if its access has. -/
theorem likewise_step {α : Type} {f : Access α} (hf : Host.Likewise p f) :
    Host.Likewise p (step e f) := by
  intro h h' hh
  obtain ⟨v, after, after', hv, hv', hhosts⟩ := hf h h' hh
  rw [step, step, hv, hv']
  cases v with
  | error cause => exact ⟨_, _, _, rfl, rfl, hhosts⟩
  | ok v => exact ⟨_, _, _, rfl, rfl, hhosts⟩

/-- On alike hosts something stands at the path, or nothing does. -/
theorem likewise_isThere : Host.Likewise p (isThere p) := by
  have hlook : isThere p = fun h => ((Access.stat p h).1.toBool, (Access.stat p h).2) := by
    funext h
    rw [isThere]
    rcases Access.stat p h with ⟨_ | _, _⟩ <;> rfl
  rw [hlook]
  exact Host.likewise_look fun a b hab => hab.toBool_stat

/-- A knock at the path is answered on alike hosts, or on none. -/
theorem likewise_isLive : Host.Likewise p (isLive p) := by
  have hlook : isLive p =
      fun h => ((Access.connectSocket p h).1.toBool, (Access.connectSocket p h).2) := by
    funext h
    rw [isLive]
    rcases Access.connectSocket p h with ⟨_ | _, _⟩ <;> rfl
  rw [hlook]
  exact Host.likewise_look fun a b hab => congrArg Except.toBool hab.connect_eq

/-- The path is cleared on alike hosts, or left alone. -/
theorem likewise_clear : Host.Likewise p (clear e p) := by
  intro h h' hh
  obtain ⟨there, seen, seen', hv, hv', hseen⟩ := likewise_isThere h h' hh
  rw [clear, clear, hv, hv']
  cases there with
  | false => exact ⟨_, _, _, rfl, rfl, hseen⟩
  | true =>
      dsimp only
      obtain ⟨live, knocked, knocked', hv, hv', hknocked⟩ := likewise_isLive _ _ hseen
      rw [hv, hv']
      cases live with
      | true => exact ⟨_, _, _, rfl, rfl, hknocked⟩
      | false =>
          have hremove : Host.Likewise p (Access.remove p) :=
            Host.likewise_change fun a b hab => hab.remove
          exact likewise_step e hremove _ _ hknocked

/-- A new socket file comes to stand at the path on alike hosts, or none does. -/
theorem likewise_listenSocket : Host.Likewise p (Access.listenSocket p) := by
  intro h h' hh
  have hlisten : Host.Likewise p (Access.change fun fs => fs.listen p h.servers) :=
    Host.likewise_change fun a b hab => hab.listen h.servers
  obtain ⟨v, after, after', hv, hv', hhosts⟩ := hlisten h h' hh
  have hservers : h'.servers = h.servers := by rw [hh.rest]
  simp only [Access.listenSocket, hservers, hv, hv']
  cases v with
  | error cause => exact ⟨_, _, _, rfl, rfl, hhosts⟩
  | ok =>
      refine ⟨_, _, _, rfl, rfl, hhosts.files, ?_⟩
      have hrest := hhosts.rest
      rw [hrest]

/-- The directory of the path, which is there, is not made again. -/
theorem likewise_makeDirectory (hp : p.EndsIn dir folder name) :
    Host.Likewise p (makeDirectory p) := by
  intro h h' hh
  obtain ⟨failure, after, after', hv, hv', hhosts⟩ := Host.likewise_enter h h' hh
  have hmade := Files.createDirectories_parent hhosts.files.leads hp
  have hmade' := Files.createDirectories_parent hhosts.files.leads_right hp
  simp only [makeDirectory, hp.parent?_eq, Access.createDirectories, hv, hv']
  cases failure with
  | some cause => exact ⟨_, _, _, rfl, rfl, hhosts⟩
  | none =>
      dsimp only
      rw [hmade, hmade']
      exact ⟨_, _, _, rfl, rfl, hhosts⟩

/-- **Opening** a socket file whose directory is there goes by what stands at its own place. -/
theorem likewise_open (owner : Nat) (hp : p.EndsIn dir folder name) :
    Host.Likewise p (Server.open (.localSocket owner p)) := by
  intro h h' hh
  obtain ⟨made, after, after', hv, hv', hmade⟩ :=
    likewise_step (.localSocket owner p) (likewise_makeDirectory hp) h h' hh
  rw [Server.open, Server.open, hv, hv']
  cases made with
  | error cause => exact ⟨_, _, _, rfl, rfl, hmade⟩
  | ok =>
      dsimp only
      obtain ⟨cleared, after, after', hv, hv', hcleared⟩ :=
        likewise_clear (.localSocket owner p) _ _ hmade
      rw [hv, hv']
      cases cleared with
      | error cause => exact ⟨_, _, _, rfl, rfl, hcleared⟩
      | ok => exact likewise_step (.localSocket owner p) likewise_listenSocket _ _ hcleared

end Likewise

/-! ### Starting beside another server -/

section Start

variable {t : Transport} {a b n : Nat} {h h' : Host} {fs : Files}

/-- The name of a socket file has room for all its digits. -/
theorem byteLength_socketName (hb : b < Decimal.word) :
    Path.byteLength (Endpoint.socketName b) ≤ 60 := by
  have hbytes := Path.byteLength_le (Endpoint.socketName b)
  have hlength : (Endpoint.socketName b).length ≤ 15 := by
    have hdigits := Decimal.length_toString_le hb
    have hsuffix : ".sock".toList.length = 5 := by decide
    rw [Endpoint.socketName, List.length_append, hsuffix]
    omega
  omega

/-- Where one owner's server accepts connections, the path of another owner's socket file leads
into the same directory. -/
theorem leads_of_connect (hb : b < Decimal.word)
    (hconnect : fs.connect (Endpoint.socketPath t a) = .ok n) :
    Files.Leads fs (Endpoint.socketPath t b) (fs.place (Endpoint.socketPath t b)) := by
  obtain ⟨dir, hends⟩ := Endpoint.exists_socketPath_endsIn t
  obtain ⟨hfits, hleads, -⟩ := Files.connect_eq_ok hconnect
  obtain ⟨mid, hmid, hdir⟩ := hleads.parent (hends a)
  have hname := byteLength_socketName hb
  have hcheck : Files.checkPath (Endpoint.socketPath t b) =
      .ok (Endpoint.socketPath t b).text.toList := by
    have hshort := Files.byteLength_lt_of_fits hfits hleads
    obtain ⟨hnul, -, -⟩ := Files.checkPath_iff.mp hleads.check
    rw [(hends a).named.text, Path.textIn] at hnul hshort
    rw [Path.byteLength_append] at hshort
    rw [Files.checkPath_iff, (hends b).named.text, Path.textIn]
    refine ⟨?_, by simp, ?_⟩
    · have hfolder : '\x00' ∉ Path.textIn dir addressSpace.toList :=
        fun hmem => hnul (List.mem_append_left _ hmem)
      have hdigits : '\x00' ∉ (toString b).toList := Decimal.not_mem_toString (by decide) b
      have hsuffix : '\x00' ∉ ".sock".toList := by decide
      simp only [List.mem_append, List.mem_cons, Endpoint.socketName, hfolder, hdigits, hsuffix,
        or_false, false_or]
      decide
    · have hslash : Path.byteLength ('/' :: Endpoint.socketName b) =
          1 + Path.byteLength (Endpoint.socketName b) := rfl
      have hroom : socketRoom = 108 := rfl
      have hmax : Files.maxPath = 4096 := rfl
      rw [Path.byteLength_append, hslash]
      omega
  exact hmid.child hdir (hends b) hcheck (Nat.le_trans hname (by decide))

/-- What the start of a server comes to is what opening its endpoint comes to. -/
theorem start_congr {s : Server} (hrunning : h'.isRunning s.owner = h.isRunning s.owner)
    (hopen : (Server.open s.endpoint h').1 = (Server.open s.endpoint h).1) :
    (s.start h').1 = (s.start h).1 ∧ (s.start h').2.1 = (s.start h).2.1 := by
  have hendpoint : (s.enter .starting).endpoint = s.endpoint := rfl
  have howner : (s.enter .starting).owner = s.owner := rfl
  rw [start, start]
  dsimp only
  rw [hendpoint, howner, hrunning]
  split
  · exact ⟨rfl, rfl⟩
  · rcases hv : Server.open s.endpoint h with ⟨cause | v, after⟩ <;>
      rcases hv' : Server.open s.endpoint h' with ⟨cause' | v', after'⟩ <;> rw [hv, hv'] at hopen
    · obtain rfl := Except.error.inj hopen
      exact ⟨rfl, rfl⟩
    · exact absurd hopen (by simp)
    · exact absurd hopen (by simp)
    · obtain rfl := Except.ok.inj hopen
      exact ⟨rfl, rfl⟩

/-- A server whose owner is running starts if it can open its endpoint. -/
theorem start_fst {s : Server} (hup : ¬ (s.owner ≠ 0 ∧ !h.isRunning s.owner)) :
    (s.start h).1 = match (Server.open s.endpoint h).1 with
      | .ok _ => .ok ()
      | .error cause => .error cause := by
  have hendpoint : (s.enter .starting).endpoint = s.endpoint := rfl
  have howner : (s.enter .starting).owner = s.owner := rfl
  rw [start]
  dsimp only
  rw [hendpoint, howner, if_neg hup]
  rcases Server.open s.endpoint h with ⟨_ | _, _⟩ <;> rfl

/-- A step of opening an endpoint fails as its access does. -/
theorem step_fst {α : Type} (e : Endpoint) (f : Access α) :
    (step e f h).1 = match (f h).1 with
      | .ok v => .ok v
      | .error cause => .error (.bind e.display cause.message) := by
  rw [step]
  rcases f h with ⟨_ | _, _⟩ <;> rfl

/-- A server that starts has an owner that is running, if it has one, and opened its endpoint. -/
theorem start_eq_ok {s s' : Server} (hstart : s.start h = (.ok (), s', h')) :
    ¬ (s.owner ≠ 0 ∧ !h.isRunning s.owner) ∧
      ∃ n, s'.number = some n ∧ Server.open s.endpoint h = (.ok n, h') := by
  have hendpoint : (s.enter .starting).endpoint = s.endpoint := rfl
  have howner : (s.enter .starting).owner = s.owner := rfl
  rw [start] at hstart
  dsimp only at hstart
  rw [hendpoint, howner] at hstart
  split at hstart
  · exact absurd (congrArg Prod.fst hstart) (by simp)
  · next hrunning =>
    rcases hopen : Server.open s.endpoint h with ⟨cause | n, after⟩
    · rw [hopen] at hstart
      exact absurd (congrArg Prod.fst hstart) (by simp)
    · rw [hopen] at hstart
      obtain ⟨-, hrest⟩ := Prod.mk.inj hstart
      obtain ⟨rfl, rfl⟩ := Prod.mk.inj hrest
      exact ⟨hrunning, n, rfl, rfl⟩

/-- A step of opening an endpoint that succeeds is an access that does. -/
theorem step_eq_ok {α : Type} {e : Endpoint} {f : Access α} {v : α}
    (hstep : step e f h = (.ok v, h')) : f h = (.ok v, h') := by
  rw [step] at hstep
  rcases hf : f h with ⟨cause | v', after⟩
  · rw [hf] at hstep
    exact absurd (congrArg Prod.fst hstep) (by simp)
  · rw [hf] at hstep
    obtain ⟨hv, rfl⟩ := Prod.mk.inj hstep
    obtain rfl := Except.ok.inj hv
    rfl

/-- A server whose socket file is new listens at it. -/
theorem listens_of_listenSocket (owner : Nat) {p : Path}
    (hlisten : Access.listenSocket p h = (.ok n, h')) : h'.Listens (.localSocket owner p) n := by
  rw [Access.listenSocket, Access.change] at hlisten
  rcases henter : h.enter with ⟨_ | cause, entered⟩
  · rw [henter] at hlisten
    dsimp only at hlisten
    rcases hfiles : entered.files.listen p h.servers with cause | files
    · rw [hfiles] at hlisten
      exact absurd (congrArg Prod.fst hlisten) (by simp)
    · rw [hfiles] at hlisten
      obtain ⟨hn, rfl⟩ := Prod.mk.inj hlisten
      have hlistens := Files.listen_eq_ok hfiles
      rw [Except.ok.inj hn] at hlistens
      exact Files.connect_of_leads hlistens.fits (hlistens.leads.spares hlistens.spares)
        hlistens.at?_place
  · rw [henter] at hlisten
    exact absurd (congrArg Prod.fst hlisten) (by simp)

/-- What opens an endpoint lets the server listen there. -/
theorem listens_of_open {e : Endpoint} (hopen : Server.open e h = (.ok n, h')) :
    h'.Listens e n := by
  cases e with
  | localSocket owner p =>
      obtain ⟨cleared, hlisten⟩ : ∃ cleared, Access.listenSocket p cleared = (.ok n, h') := by
        rw [Server.open] at hopen
        rcases hmade : step (.localSocket owner p) (makeDirectory p) h with ⟨cause | _, made⟩
        · rw [hmade] at hopen
          exact absurd (congrArg Prod.fst hopen) (by simp)
        · rw [hmade] at hopen
          dsimp only at hopen
          rcases hclear : clear (.localSocket owner p) p made with ⟨cause | _, cleared⟩
          · rw [hclear] at hopen
            exact absurd (congrArg Prod.fst hopen) (by simp)
          · rw [hclear] at hopen
            exact ⟨cleared, step_eq_ok hopen⟩
      exact listens_of_listenSocket owner hlisten
  | loopbackHttp owner port =>
      have hlisten : Access.listenPort port h = (.ok n, h') := step_eq_ok hopen
      rw [Access.listenPort] at hlisten
      rcases henter : h.enter with ⟨_ | cause, entered⟩
      · rw [henter] at hlisten
        dsimp only at hlisten
        rcases hport : entered.portFor? port with _ | q
        · rw [hport] at hlisten
          exact absurd (congrArg Prod.fst hlisten) (by simp)
        · rw [hport] at hlisten
          obtain ⟨hn, rfl⟩ := Prod.mk.inj hlisten
          refine ⟨q, List.mem_of_find?_eq_some hport, ?_⟩
          rw [Except.ok.inj hn]
          exact List.lookup_cons_self
      · rw [henter] at hlisten
        exact absurd (congrArg Prod.fst hlisten) (by simp)

/-- A server that starts listens at its endpoint. -/
theorem listens_of_start {s s' : Server} (hstart : s.start h = (.ok (), s', h')) :
    ∃ n, s'.number = some n ∧ h'.Listens s.endpoint n := by
  obtain ⟨-, n, hnumber, hopen⟩ := start_eq_ok hstart
  exact ⟨n, hnumber, listens_of_open hopen⟩

/-- Opening a socket file goes the same way where another owner's server listens, and where it
does not. -/
theorem open_without (hne : a ≠ b) (hb : b < Decimal.word)
    (hconnect : h.files.connect (Endpoint.socketPath t a) = .ok n) :
    (Server.open (.localSocket b (Endpoint.socketPath t b)) h).1 =
      (Server.open (.localSocket b (Endpoint.socketPath t b))
        (h.without (.localSocket a (Endpoint.socketPath t a)) n)).1 := by
  obtain ⟨dir, hends⟩ := Endpoint.exists_socketPath_endsIn t
  have hplace := Endpoint.socketPath_place_ne t hne h.files
  have hfree : h.files.isDirectoryAt (h.files.place (Endpoint.socketPath t a)) = false := by
    rw [Files.isDirectoryAt, Files.at?_of_connect hconnect]
    rfl
  have hname : (Endpoint.socketPath t b).HasName :=
    ⟨_, _, (hends b).named, (hends b).isName⟩
  have halike : Host.Alike (Endpoint.socketPath t b) h
      (h.without (.localSocket a (Endpoint.socketPath t a)) n) :=
    ⟨.of_replaced hname (leads_of_connect hb hconnect) (.drop hfree) hplace.symm, rfl⟩
  obtain ⟨v, after, after', hv, hv', -⟩ := likewise_open b (hends b) _ _ halike
  rw [hv, hv']

/-- A server over the loopback transport listens at a port. -/
theorem listens_loopback (hkind : t.kind = .loopbackHttp) (hlistens : h.Listens (.ofOwner t a) n) :
    ∃ q ∈ Host.portsFor t.port, h.ports.lookup q = some n := by
  rw [Endpoint.ofOwner, hkind] at hlistens
  exact hlistens

/-- Where a server starts over the loopback transport, it would start just as well if other ports
were taken, as long as one that it asks for were free. -/
theorem start_loopback {s : Server} (hkind : s.transport.kind = .loopbackHttp)
    (hrunning : h'.isRunning s.owner = h.isRunning s.owner) (henter : h'.enter.1 = h.enter.1)
    (hstart : (s.start h).1 = .ok ()) :
    (s.start h').1 = if (Host.portsFor s.transport.port).any h'.isFree then .ok ()
      else .error (.bind s.endpoint.display FileError.addressInUse.message) := by
  have hendpoint : s.endpoint = .loopbackHttp s.owner s.transport.port := by
    rw [endpoint, Endpoint.ofOwner, hkind]
  have hopen (x : Host) : Server.open s.endpoint x =
      step s.endpoint (Access.listenPort s.transport.port) x := by
    rw [hendpoint]
    rfl
  -- Nothing came in between where it starts.
  obtain ⟨hup, n, -, hlistened⟩ := start_eq_ok (Prod.ext hstart rfl)
  rw [hopen] at hlistened
  have hfirst := congrArg Prod.fst (step_eq_ok hlistened)
  rw [Host.listenPort_fst] at hfirst
  have hquiet : h.enter.1 = none := by
    rcases hfailure : h.enter.1 with _ | cause
    · rfl
    · rw [hfailure] at hfirst
      exact absurd hfirst (by simp)
  rw [← hrunning] at hup
  have hport := h'.listenPort_fst s.transport.port
  rw [henter, hquiet] at hport
  dsimp only at hport
  rw [start_fst hup, hopen, step_fst, hport]
  cases (Host.portsFor s.transport.port).any h'.isFree <;> rfl

/-- **Servers of different owners.** While a server of one owner listens, the server of another
owner at a socket file starts, or fails to, as it would without the first one: their files are at
different places. At a port of the loopback interface it does not start at all, even where it would
without the first one, unless the transport asks for no port in particular and a port is left. -/
theorem start_beside (hne : a ≠ b) (hb : b < Decimal.word)
    (hlistens : h.Listens (.ofOwner t a) n) :
    let s : Server := { owner := b, transport := t }
    let alone := h.without (.ofOwner t a) n
    (t.kind = .localSocket →
      (∀ fs : Files, fs.place (Endpoint.socketPath t a) ≠ fs.place (Endpoint.socketPath t b)) ∧
        (s.start h).1 = (s.start alone).1 ∧ (s.start h).2.1 = (s.start alone).2.1) ∧
    (t.kind = .loopbackHttp → t.port ≠ 0 → (s.start alone).1 = .ok () →
      (s.start h).1 = .error (.bind s.endpoint.display FileError.addressInUse.message)) ∧
    (t.kind = .loopbackHttp → t.port = 0 → (s.start alone).1 = .ok () →
      (∃ q ∈ Host.portsFor 0, h.isFree q) → (s.start h).1 = .ok ()) := by
  intro s alone
  have hrunning := h.isRunning_without (.ofOwner t a) n
  have henter := h.enter_without (.ofOwner t a) n
  refine ⟨fun hkind => ?_, fun hkind hport halone => ?_, fun hkind hport halone hfree => ?_⟩
  · have ha : Endpoint.ofOwner t a = .localSocket a (Endpoint.socketPath t a) := by
      rw [Endpoint.ofOwner, hkind]
    have hs : s.endpoint = .localSocket b (Endpoint.socketPath t b) := by
      rw [endpoint, Endpoint.ofOwner, hkind]
    rw [ha] at hlistens
    have hopen := open_without hne hb hlistens
    rw [← ha, ← hs] at hopen
    exact ⟨Endpoint.socketPath_place_ne t hne, start_congr (hrunning b).symm hopen⟩
  · obtain ⟨q, hq, hlookup⟩ := listens_loopback hkind hlistens
    have htaken : (Host.portsFor t.port).any h.isFree = false := by
      rw [Host.portsFor, if_neg hport, List.mem_singleton] at hq
      rw [Host.portsFor, if_neg hport, List.any_cons, List.any_nil, ← hq,
        Host.isFree_of_lookup hlookup]
      rfl
    rw [start_loopback hkind (hrunning b).symm henter.symm halone, htaken]
    rfl
  · obtain ⟨q, hq, hqfree⟩ := hfree
    have hany : (Host.portsFor t.port).any h.isFree = true := by
      rw [hport]
      exact List.any_eq_true.mpr ⟨q, hq, hqfree⟩
    rw [start_loopback hkind (hrunning b).symm henter.symm halone, hany]
    rfl

end Start
end Server

/-! ### Two servers under one transport -/

namespace Neighbouring

open Server

/-- A host on which one owner is running. -/
def host : Host := { processes := [(7, "editor")] }

/-- The server without an owner, which starts first. -/
def first (kind : TransportKind) : Server := { owner := 0, transport := { kind } }

/-- The server of the owner. -/
def second (kind : TransportKind) : Server := { owner := 7, transport := { kind } }

/-- The host after the first server has started. -/
def shared (kind : TransportKind) : Host := ((first kind).start host).2.2

/-- Over local sockets the second server starts beside the first one; at the port that both are
bound to it does not. -/
theorem second_beside_first :
    ((second .localSocket).start (shared .localSocket)).1 = .ok () ∧
      ((second .loopbackHttp).start (shared .loopbackHttp)).1 =
        .error (.bind "http://127.0.0.1:52000/kiln.build/7"
          "Address already in use (os error 98)") := by
  have hlistens (kind : TransportKind) (hstart : ((first kind).start host).1 = .ok ())
      (hnumber : ((first kind).start host).2.1.number = some 0) :
      (shared kind).Listens (first kind).endpoint 0 := by
    obtain ⟨n, hn, hlistens⟩ := listens_of_start (Prod.ext hstart rfl)
    rw [hnumber] at hn
    rw [Option.some.inj hn]
    exact hlistens
  constructor
  · obtain ⟨hsockets, -, -⟩ := start_beside (b := 7) (by decide) (by decide)
      (hlistens .localSocket (by decide +kernel) (by decide +kernel))
    exact (hsockets rfl).2.1.trans (by decide +kernel)
  · obtain ⟨-, hports, -⟩ := start_beside (b := 7) (by decide) (by decide)
      (hlistens .loopbackHttp (by decide +kernel) (by decide +kernel))
    exact (hports rfl (by decide) (by decide +kernel)).trans (by decide +kernel)

/-- Although the second server would start if it were alone, it fails to bind its endpoint while the
first one listens. -/
theorem second_blocked_at_port :
    ((first .loopbackHttp).start host).1 = .ok () ∧
      ((second .loopbackHttp).start host).1 = .ok () ∧
      (first .loopbackHttp).owner ≠ (second .loopbackHttp).owner ∧
      (first .loopbackHttp).transport = (second .loopbackHttp).transport ∧
      ((second .loopbackHttp).start (shared .loopbackHttp)).1 =
        .error (.bind (second .loopbackHttp).endpoint.display FileError.addressInUse.message) := by
  decide +kernel

end Neighbouring
end IncrementalBuild
