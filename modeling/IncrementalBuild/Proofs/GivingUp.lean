import IncrementalBuild.Proofs.Client
import IncrementalBuild.Proofs.Contest
import IncrementalBuild.Proofs.Transports
/-!
# Giving up

Clients of one owner call at one endpoint, and launch servers for it that start and close side by
side. A client gives up when its own server has ended. It concludes so from two looks at different
times: first nobody answers at the endpoint, then its own server is found to have ended, and what
others do in between it does not see.

Here one client is followed through its calls, and all that others do comes between its own
actions: steps of servers, launches and calls of other clients, and time that passes.

## Main definitions

* `Crew`, `Scene` — the servers of one owner, and a host where they run and are called.
* `Happening`, `Scene.happen` — what others do there.
* `Crew.surroundings` — what a client can do there, with what others do in between.

## Main results

* `Exchange.isReported_overSocket`, `Site.send_ne_unreachable` — a server of the owner that accepts
  a connection is never reported as missing.
* `Server.Contest.grown_step` — who listens has begun to.
* `Crew.round_cases`, `Crew.gaveUp_rounds` — how a round ends, and what a call did that gave up.
* `Crew.gives_up_in_gap` — when a client gives up, nobody answered at its last attempt; whoever
  listens now began since, or listens where the endpoint does not lead.
-/

namespace IncrementalBuild

/-! ### Attempts that reach a server -/

namespace Exchange

variable {τ : Type} {call : BuildCall} {cause : CallError}

/-- Over a local socket, what goes wrong after a connection is accepted is reported. -/
theorem isReported_overSocket {there back : Bytes → List Bytes} {service : Service τ} {state : τ}
    (h : (overSocket there back service call state).1 = .error cause) : IsReported cause := by
  rw [overSocket] at h
  split at h
  · exact .inl ⟨_, (Except.error.inj h).symm⟩
  · rcases hframe : Frame.ofRequest call with fault | frame
    · rw [hframe] at h
      obtain rfl := Except.error.inj h
      exact .inl (Frame.protocol_of_ofLayout hframe)
    · rw [hframe] at h
      dsimp only at h
      rcases hserve : service.serve (there frame) state with ⟨_ | answer, state'⟩
      · rw [hserve] at h
        have hdropped : received [] = .error cause := h
        exact isReported_of_received hdropped
      · rw [hserve] at h
        have hanswered : received (back answer) = .error cause := h
        exact isReported_of_received hanswered

/-- So it is over the loopback transport, if the server is the owner's. -/
theorem isReported_overHttp {e : Endpoint} {owner : Nat} {service : Service τ} {state : τ}
    (howner : owner < Decimal.word) (he : e.owner = owner)
    (h : (overHttp service owner e call state).1 = .error cause) : IsReported cause := by
  subst he
  rcases Nat.lt_or_ge Route.maxBody (requestOf e call).body.length with hlong | hshort
  · rw [overHttp_of_lt service howner hlong] at h
    exact .inl ⟨_, (Except.error.inj h).symm⟩
  · rw [overHttp_of_le service howner hshort] at h
    exact isReported_of_toExcept h

end Exchange

namespace Site

variable {τ : Type} {s : Site τ} {e : Endpoint} {call : BuildCall} {reason : String}

/-- What goes wrong with a server of the owner that accepts a connection is reported. -/
theorem send_ne_unreachable {service : Service (τ × Host)} (howner : e.owner < Decimal.word)
    (hoffers : s.Offers e service) : (s.send e call).1 ≠ .error (.unreachable reason) := by
  have hreported : ∀ cause, (s.send e call).1 = .error cause → Exchange.IsReported cause := by
    intro cause h
    cases e with
    | localSocket owner path =>
      obtain ⟨number, server, hleads, hserver, -⟩ := hoffers
      have hconnect : Access.connectSocket path s.host = (.ok number, s.host.enter.2) :=
        Prod.ext hleads (Access.connect_snd (.localSocket owner path) s.host)
      rw [send, sendLocal, hconnect] at h
      simp only [hserver] at h
      exact Exchange.isReported_overSocket h
    | loopbackHttp owner port =>
      rw [send_loopbackHttp hoffers] at h
      dsimp only at h
      exact Exchange.isReported_overHttp howner rfl h
  intro h
  rcases hreported _ h with ⟨_, hcause⟩ | ⟨_, hcause⟩ <;> cases hcause

/-- An attempt never says that a launch failed. -/
theorem send_ne_launch : (s.send e call).1 ≠ .error (.launch reason) := by
  have hcause {cause : CallError} (h : Exchange.IsReported cause) : cause ≠ .launch reason := by
    rintro rfl
    rcases h with ⟨_, h⟩ | ⟨_, h⟩ <;> cases h
  intro h
  cases e with
  | localSocket owner path =>
    rw [send, sendLocal] at h
    rcases hconnect : Access.connectSocket path s.host with ⟨cause | number, host⟩
    · rw [hconnect] at h
      dsimp only at h
      split at h <;> cases h
    · rw [hconnect] at h
      dsimp only at h
      rcases hserver : s.servers.lookup number with _ | ⟨server, service⟩
      · simp only [hserver] at h
        exact hcause (Exchange.isReported_of_received h) rfl
      · simp only [hserver] at h
        exact hcause (Exchange.isReported_overSocket h) rfl
  | loopbackHttp owner port =>
    rw [send, sendHttp] at h
    rcases hconnect : Access.connectPort port s.host with ⟨cause | number, host⟩
    · rw [hconnect] at h
      cases h
    · rw [hconnect] at h
      dsimp only at h
      rcases hserver : s.servers.lookup number with _ | ⟨server, service⟩
      · simp only [hserver] at h
        cases h
      · simp only [hserver, Exchange.overHttp_eq] at h
        rcases Exchange.resultOf_cases _ _ with ⟨-, _, habsent⟩ | hreported
        · rw [habsent] at h
          cases h
        · exact hcause (hreported _ h) rfl

end Site

/-! ### Who listens has begun to -/

namespace Server.Contest

variable {c c' c'' : Contest} {i : Nat}

/-- A contest went on: its log got more entries, among them one for each server that began to
listen. -/
def Grown (c c' : Contest) : Prop :=
  ∃ later, c'.log = later ++ c.log ∧ ∀ j m, c'.stage j = .listening m →
    c.stage j = .listening m ∨ ⟨j, .began⟩ ∈ later

/-- Nothing need happen. -/
theorem Grown.refl (c : Contest) : Grown c c := ⟨[], rfl, fun _ _ h => .inl h⟩

/-- What went on went on further. -/
theorem Grown.trans (h : Grown c c') (h' : Grown c' c'') : Grown c c'' := by
  obtain ⟨later, hlog, hlistens⟩ := h
  obtain ⟨later', hlog', hlistens'⟩ := h'
  refine ⟨later' ++ later, by rw [hlog', hlog, List.append_assoc], fun j m hj => ?_⟩
  rcases hlistens' j m hj with hold | hnew
  · rcases hlistens j m hold with hold | hnew
    · exact .inl hold
    · exact .inr (List.mem_append_right _ hnew)
  · exact .inr (List.mem_append_left _ hnew)

/-- A server may go to any stage but that of one that listens. -/
theorem grown_move {x : Stage} (hstage : c'.stage = c.stage) (hlog : c'.log = c.log)
    (hx : ∀ m, x ≠ .listening m) : Grown c (c'.move i x) := by
  refine ⟨[], hlog, fun j m hj => .inl ?_⟩
  by_cases hji : j = i
  · rw [hji, stage_move] at hj
    exact absurd hj (hx m)
  · rw [stage_move_of_ne _ i x hji, hstage] at hj
    exact hj

/-- A deed is entered. -/
theorem Grown.note (h : Grown c c') (a : Act) : Grown c (c'.note i a) := by
  obtain ⟨later, hlog, hlistens⟩ := h
  refine ⟨⟨i, a⟩ :: later, congrArg (List.cons _) hlog, fun j m hj => ?_⟩
  exact (hlistens j m hj).imp_right (List.mem_cons_of_mem _)

/-- **Steps.** Who listens after a step has listened before or begins to. -/
theorem grown_step (servers : Nat → Server) (c : Contest) (i : Nat) :
    Grown c (c.step servers i) := by
  have hmoves (host : Host) (x : Stage) (hx : ∀ m, x ≠ .listening m) :
      Grown c (({ c with host } : Contest).move i x) := grown_move rfl rfl hx
  rw [step]
  split
  · split
    · exact grown_move rfl rfl (by simp)
    · split <;> exact hmoves _ _ (by simp)
  · split
    · exact grown_move rfl rfl (by simp)
    · split <;> exact hmoves _ _ (by simp)
  · split
    · exact hmoves _ _ (by simp)
    · exact (hmoves _ _ (by simp)).note _
  · split
    · exact grown_move rfl rfl (by simp)
    · split
      · exact (hmoves _ _ (by simp)).note _
      · exact hmoves _ _ (by simp)
  · split
    · exact (grown_move rfl rfl (by simp)).note _
    · exact hmoves _ _ (by simp)
  · next n hstage =>
    refine ⟨[⟨i, .began⟩], rfl, fun j m hj => ?_⟩
    by_cases hji : j = i
    · rw [hji]
      exact .inr List.mem_cons_self
    · rw [stage_note, stage_move_of_ne c i _ hji] at hj
      exact .inl hj
  · exact (hmoves _ _ (by simp)).note _
  · split
    · exact grown_move rfl rfl (by simp)
    · split
      · exact (hmoves _ _ (by simp)).note _
      · exact hmoves _ _ (by simp)
  · exact .refl c

/-- The server that accepts a connection to an endpoint, by its own number. -/
def accepts? (c : Contest) (e : Endpoint) : Option Nat :=
  match c.connect e with
  | (.ok n, _) => c.numbers.lookup n
  | (.error _, _) => none

end Server.Contest

/-! ### Scenes -/

/-- What the servers of one owner have in common. -/
structure Crew (τ : Type) where
  owner : Nat
  transport : Transport
  /-- What a server offers, by the number under which it listens. -/
  service : (number : Nat) → Service (τ × Host)

/-- A host where servers of a crew run, with the state of what they offer. -/
structure Scene (τ : Type) where
  contest : Server.Contest
  state : τ
  /-- How many servers were launched; each gets the next number of its own. -/
  launches : Nat := 0

/-- Something that others do. -/
inductive Happening
  /-- A server that was launched takes its next step. -/
  | step (server : Nat)
  /-- Another client launches a server. -/
  | launch
  /-- Another client makes an attempt at a call. -/
  | call (call : BuildCall)
  /-- Time passes, in milliseconds. -/
  | pass (millis : Nat)

namespace Crew

variable {τ : Type} (k : Crew τ)

/-- A server of a crew that has not begun. -/
def server : Server := { owner := k.owner, transport := k.transport }

/-- Where servers of a crew listen. -/
def endpoint : Endpoint := .ofOwner k.transport k.owner

end Crew

namespace Scene

variable {τ : Type}

/-- A scene as clients see it. -/
def site (k : Crew τ) (s : Scene τ) : Site τ where
  host := s.contest.host
  state := s.state
  servers := s.contest.numbers.map fun x => (x.1, k.server, k.service x.1)

/-- A scene on another host. -/
def on (host : Host) (s : Scene τ) : Scene τ := { s with contest := { s.contest with host } }

/-- A scene at another time. -/
def «at» (time : Nat) (s : Scene τ) : Scene τ := s.on { s.contest.host with clock := time }

/-- A server that is launched comes later. -/
def launch (s : Scene τ) : Scene τ := { s with launches := s.launches + 1 }

/-- A scene as a client meets it who connects to the endpoint: a server that does not listen yet
is met like one that has stopped. -/
def met (k : Crew τ) (s : Scene τ) : Site τ :=
  match (Access.connect k.endpoint s.contest.host).1 with
  | .ok n =>
    if s.contest.silent n then { s.site k with host := s.contest.host.stopListening n }
    else s.site k
  | .error _ => s.site k

/-- One attempt at a call. -/
def send (k : Crew τ) (call : BuildCall) (s : Scene τ) : Except CallError BuildResult × Scene τ :=
  let (answer, site) := (s.met k).send k.endpoint call
  match s.contest.connect k.endpoint with
  | (.ok _, _) => (answer, { s.on site.host with state := site.state })
  | (.error _, host) => (answer, s.on host)

/-- What others do. -/
def happen (k : Crew τ) (s : Scene τ) : Happening → Scene τ
  | .step i =>
    if i < s.launches then { s with contest := s.contest.step (fun _ => k.server) i } else s
  | .launch => s.launch
  | .call call => (s.send k call).2
  | .pass millis => s.at (s.contest.host.clock + millis)

/-- What they do one after the other. -/
def after (k : Crew τ) (happenings : List Happening) (s : Scene τ) : Scene τ :=
  happenings.foldl (happen k) s

/-! ### What happens there -/

section Happens

variable {k : Crew τ} {s : Scene τ} {call : BuildCall}

/-- The answer to an attempt is that of the site as it is met. -/
theorem send_fst : (s.send k call).1 = ((s.met k).send k.endpoint call).1 := by
  rw [send]
  rcases (s.met k).send k.endpoint call with ⟨answer, site⟩
  dsimp only
  split <;> rfl

/-- An attempt moves no server. -/
theorem send_contest (s : Scene τ) (k : Crew τ) (call : BuildCall) :
    (s.send k call).2.contest.stage = s.contest.stage ∧
    (s.send k call).2.contest.log = s.contest.log ∧
    (s.send k call).2.launches = s.launches := by
  rw [send]
  rcases (s.met k).send k.endpoint call with ⟨answer, site⟩
  dsimp only
  split <;> exact ⟨rfl, rfl, rfl⟩

/-- What is found under a number, where every number has something. -/
theorem lookup_map {β : Type} (f : Nat → β) (numbers : List (Nat × Nat)) (n : Nat) :
    (numbers.map fun x => (x.1, f x.1)).lookup n = (numbers.lookup n).map fun _ => f n := by
  induction numbers with
  | nil => rfl
  | cons x rest ih =>
    rw [List.map_cons, List.lookup_cons, List.lookup_cons]
    by_cases hn : n = x.1
    · rw [hn]
      simp
    · rw [beq_eq_false_iff_ne.mpr hn]
      exact ih

/-- An attempt that found no server was accepted by none of the crew. -/
theorem accepts?_of_unreachable (howner : k.owner < Decimal.word) {reason : String}
    (h : (s.send k call).1 = .error (.unreachable reason)) :
    s.contest.accepts? k.endpoint = none := by
  rw [Server.Contest.accepts?, Server.Contest.connect]
  rcases hconnect : Access.connect k.endpoint s.contest.host with ⟨cause | n, host⟩
  · rfl
  · dsimp only
    cases hsilent : s.contest.silent n with
    | true => rfl
    | false =>
      -- Nobody is silent, so an attempt reaches the server that is found under the number.
      have hmet : s.met k = s.site k := by
        rw [met, hconnect]
        dsimp only
        rw [hsilent]
        rfl
      rw [send_fst, hmet] at h
      cases hlookup : s.contest.numbers.lookup n with
      | none => simpa using hlookup
      | some i =>
        have hoffers : (s.site k).Offers k.endpoint (k.service n) := by
          have hserver : (s.site k).servers.lookup n =
              (s.contest.numbers.lookup n).map fun _ => (k.server, k.service n) :=
            lookup_map (fun m => (k.server, k.service m)) _ n
          refine ⟨n, k.server, congrArg Prod.fst hconnect, ?_, ?_⟩
          · rw [hserver, hlookup]
            rfl
          · exact (Endpoint.owner_ofOwner k.transport k.owner).symm
        have howner : k.endpoint.owner < Decimal.word := by
          rwa [Crew.endpoint, Endpoint.owner_ofOwner]
        exact absurd h (Site.send_ne_unreachable howner hoffers)

/-- What happens lets the contest go on. -/
theorem grown_happen (s : Scene τ) (k : Crew τ) (happening : Happening) :
    s.contest.Grown (s.happen k happening).contest ∧
      s.launches ≤ (s.happen k happening).launches := by
  cases happening with
  | step i =>
    rw [happen]
    split
    · exact ⟨Server.Contest.grown_step _ _ i, Nat.le_refl _⟩
    · exact ⟨.refl _, Nat.le_refl _⟩
  | launch => exact ⟨.refl _, Nat.le_succ _⟩
  | call call =>
    obtain ⟨hstage, hlog, hlaunches⟩ := s.send_contest k call
    exact ⟨⟨[], hlog, fun j m hj => .inl (hstage ▸ hj)⟩, hlaunches.ge⟩
  | pass millis => exact ⟨⟨[], rfl, fun j m hj => .inl hj⟩, Nat.le_refl _⟩

/-- So does all that happens. -/
theorem grown_after (s : Scene τ) (k : Crew τ) (happenings : List Happening) :
    s.contest.Grown (s.after k happenings).contest ∧
      s.launches ≤ (s.after k happenings).launches := by
  induction happenings generalizing s with
  | nil => exact ⟨.refl _, Nat.le_refl _⟩
  | cons first rest ih =>
    obtain ⟨hgrown, hlaunches⟩ := s.grown_happen k first
    obtain ⟨hgrown', hlaunches'⟩ := ih (s.happen k first)
    exact ⟨hgrown.trans hgrown', hlaunches.trans hlaunches'⟩

end Happens

end Scene

namespace Crew

variable {τ : Type}

/-- What others do before a client's next action, and what they do later. -/
def meanwhile (k : Crew τ) : Scene τ × List (List Happening) → Scene τ × List (List Happening)
  | (s, []) => (s, [])
  | (s, first :: later) => (s.after k first, later)

/-- What a client can do on a scene, where a list of what others do precedes each of its actions.
A handle is the server's own number. -/
def surroundings (k : Crew τ) : Surroundings (Scene τ × List (List Happening)) Nat where
  launch _ w :=
    let (s, later) := k.meanwhile w
    (.ok s.launches, s.launch, later)
  hasExited i w :=
    let (s, later) := k.meanwhile w
    (s.contest.stage i == .ended, i, s, later)
  now w := w.1.contest.host.clock
  wait millis w :=
    let (s, later) := k.meanwhile w
    (s.at (s.contest.host.clock + millis), later)
  leave time w := (w.1.at time, w.2)
  send _ call w :=
    let (s, later) := k.meanwhile w
    let (answer, s) := s.send k call
    (answer, s, later)

/-! ### Calls -/

section Calls

open Client

variable {k : Crew τ} {c : ClientConfig} {call : BuildCall} {start : Nat} {s : Scene τ}
  {others : List (List Happening)}

/-- Surroundings that others and the client itself lead to from others. -/
def Reaches (k : Crew τ) (w w' : Scene τ × List (List Happening)) : Prop :=
  (∃ happenings, w'.1 = w.1.after k happenings) ∧ w'.2 ⊆ w.2

/-- One thing leads to another. -/
theorem Reaches.trans {w w' w'' : Scene τ × List (List Happening)} (h : Reaches k w w')
    (h' : Reaches k w' w'') : Reaches k w w'' := by
  obtain ⟨⟨happenings, hafter⟩, hothers⟩ := h
  obtain ⟨⟨happenings', hafter'⟩, hothers'⟩ := h'
  refine ⟨⟨happenings ++ happenings', ?_⟩, List.Subset.trans hothers' hothers⟩
  rw [hafter', hafter, Scene.after, Scene.after, Scene.after, List.foldl_append]

/-- What others do is done first. -/
theorem reaches_meanwhile (k : Crew τ) (w : Scene τ × List (List Happening)) :
    Reaches k w (k.meanwhile w) := by
  obtain ⟨s, _ | ⟨first, later⟩⟩ := w
  · exact ⟨⟨[], rfl⟩, List.Subset.refl _⟩
  · exact ⟨⟨first, rfl⟩, List.subset_cons_self first later⟩

/-- It is the first thing on the list. -/
theorem meanwhile_eq (k : Crew τ) (w : Scene τ × List (List Happening)) :
    ∃ first, (first = [] ∨ first ∈ w.2) ∧ (k.meanwhile w).1 = w.1.after k first := by
  obtain ⟨s, _ | ⟨first, later⟩⟩ := w
  · exact ⟨[], .inl rfl, rfl⟩
  · exact ⟨first, .inr List.mem_cons_self, rfl⟩

/-- What the client does is something that happens. -/
theorem reaches_happen (k : Crew τ) (happening : Happening) (w : Scene τ × List (List Happening)) :
    Reaches k w (w.1.happen k happening, w.2) :=
  ⟨⟨[happening], rfl⟩, List.Subset.refl _⟩

/-- How a call gave up that began in some surroundings, with what happened before its last attempt,
and between that and its look at its own server. -/
structure GaveUp (k : Crew τ) (call : BuildCall) (w : Scene τ × List (List Happening))
    (run : Client.Run (Scene τ × List (List Happening))) (earlier between : List Happening)
    (i : Nat) :
    Prop where
  attempt : ∃ reason, ((w.1.after k earlier).send k call).1 = .error (.unreachable reason) ∧
    [absent reason, .looked true] <:+ run.events
  after : run.after.1 = ((w.1.after k earlier).send k call).2.after k between
  others : between = [] ∨ between ∈ w.2
  ended : run.after.1.contest.stage i = .ended

/-- What gave up later gave up. -/
theorem GaveUp.of_reaches {w w' : Scene τ × List (List Happening)} {run run' : Client.Run _}
    {earlier between : List Happening} {i : Nat} (h : GaveUp k call w' run' earlier between i)
    (hreaches : Reaches k w w') (hevents : run'.events <:+ run.events)
    (hafter : run.after = run'.after) :
    ∃ earlier, GaveUp k call w run earlier between i := by
  obtain ⟨⟨happenings, hw⟩, hothers⟩ := hreaches
  have happend : w'.1.after k earlier = w.1.after k (happenings ++ earlier) := by
    rw [hw, Scene.after, Scene.after, Scene.after, List.foldl_append]
  refine ⟨happenings ++ earlier, ?_, ?_, h.others.imp_right fun hmem => hothers hmem, ?_⟩
  · obtain ⟨reason, hattempt, hsuffix⟩ := h.attempt
    exact ⟨reason, happend ▸ hattempt, hsuffix.trans hevents⟩
  · rw [hafter, h.after, happend]
  · rw [hafter]
    exact h.ended

/-- A pause ends for the time, or before the next attempt. -/
theorem pause_cases {ω η : Type} (c : ClientConfig) (s : Surroundings ω η)
    (start millis : Nat) (handle : η) (w : ω) :
    ∃ waited, (∃ cause, pause c s start millis handle w =
        .ended ⟨.error (.timeout cause), [.waited waited], s.wait waited w⟩) ∨
      pause c s start millis handle w =
        .goesOn [.waited waited] (some handle) (s.wait waited w) := by
  rw [pause]
  refine ⟨bounded c start (s.now w) millis, ?_⟩
  split
  · next cause hover =>
    obtain ⟨limit, -, rfl⟩ := over?_eq_some hover
    exact .inl ⟨limit, rfl⟩
  · exact .inr rfl

/-- A later scene has no fewer launches. -/
theorem Reaches.launches_le {w w' : Scene τ × List (List Happening)} (h : Reaches k w w') :
    w.1.launches ≤ w'.1.launches := by
  obtain ⟨⟨happenings, hw⟩, -⟩ := h
  rw [hw]
  exact (w.1.grown_after k happenings).2

/-- After an attempt that found no server, a client finds that its own server has ended, or it
gives up for the time, or another attempt is next. -/
inductive Retries (k : Crew τ) (first : Nat) (w : Scene τ × List (List Happening))
    (launched : Option Nat) :
    Round (Scene τ × List (List Happening)) Nat → Prop
  | exited {i : Nat} (hlaunched : launched = some i)
    (hended : (k.meanwhile w).1.contest.stage i = .ended) :
    Retries k first w launched
      (.ended ⟨.error (exitedEarly k.endpoint), [.looked true], k.meanwhile w⟩)
  | expired {events : List Event} {millis : Nat} {w' : Scene τ × List (List Happening)} :
    Retries k first w launched (.ended ⟨.error (.timeout millis), events, w'⟩)
  | goesOn {events : List Event} {i : Nat} {w' : Scene τ × List (List Happening)}
    (hi : first ≤ i) (hreaches : Reaches k w w') :
    Retries k first w launched (.goesOn events (some i) w')

/-- A wait is time that passes. -/
theorem reaches_wait (millis : Nat) (w : Scene τ × List (List Happening)) :
    Reaches k w (k.surroundings.wait millis w) :=
  (reaches_meanwhile k w).trans (reaches_happen k (.pass millis) _)

/-- A pause leads to the next attempt, if the time is not up. -/
theorem retries_pause {first i millis : Nat} {launched : Option Nat}
    {w w' : Scene τ × List (List Happening)} (hi : first ≤ i) (hreaches : Reaches k w w')
    (earlier : List Event) :
    Retries k first w launched
      ((pause c k.surroundings start millis i w').prepend earlier) := by
  obtain ⟨waited, ⟨cause, hpause⟩ | hpause⟩ := pause_cases c k.surroundings start millis i w'
  · rw [hpause]
    exact .expired
  · rw [hpause]
    exact .goesOn hi (hreaches.trans (reaches_wait waited w'))

/-- What follows an attempt that found no server. -/
theorem retries_retry {first : Nat} {launched : Option Nat}
    {w : Scene τ × List (List Happening)} (hlaunched : ∀ i ∈ launched, first ≤ i)
    (hfirst : first ≤ w.1.launches) :
    Retries k first w launched (retry c k.surroundings k.endpoint start launched w) := by
  have hmeanwhile := reaches_meanwhile k w
  cases launched with
  | none =>
    exact retries_pause (hfirst.trans hmeanwhile.launches_le)
      (hmeanwhile.trans (reaches_happen k .launch _)) _
  | some i =>
    have hexited : k.surroundings.hasExited i w =
        ((k.meanwhile w).1.contest.stage i == .ended, i, k.meanwhile w) := rfl
    rw [retry, hexited]
    by_cases hended : (k.meanwhile w).1.contest.stage i = .ended
    · rw [hended]
      exact .exited rfl hended
    · rw [beq_eq_false_iff_ne.mpr hended]
      exact retries_pause (hlaunched i rfl) hmeanwhile _

/-- An attempt is made after what others do first. -/
theorem exists_send_eq (k : Crew τ) (call : BuildCall) (w : Scene τ × List (List Happening)) :
    ∃ before w', k.surroundings.send k.endpoint call w =
        (((w.1.after k before).send k call).1, w') ∧
      w'.1 = ((w.1.after k before).send k call).2 ∧ Reaches k w w' := by
  obtain ⟨before, -, hmeanwhile⟩ := meanwhile_eq k w
  have hcall := reaches_happen k (.call call) (k.meanwhile w)
  rw [Scene.happen, hmeanwhile] at hcall
  refine ⟨before, _, ?_, rfl, (reaches_meanwhile k w).trans hcall⟩
  rw [← hmeanwhile]
  rfl

/-- **Round.** A round either found no server and what follows is as after such an attempt, or it
ends, but not since the client's own server exited early. -/
theorem round_cases {first : Nat} {launched : Option Nat} {w : Scene τ × List (List Happening)}
    (hlaunched : ∀ i ∈ launched, first ≤ i) (hfirst : first ≤ w.1.launches) {r : Round _ Nat}
    (hround : round c k.surroundings k.endpoint call start launched w = r) :
    (∃ run, r = .ended run ∧ run.result ≠ .error (exitedEarly k.endpoint)) ∨
    ∃ before reason w' next, ((w.1.after k before).send k call).1 = .error (.unreachable reason) ∧
      w'.1 = ((w.1.after k before).send k call).2 ∧ Reaches k w w' ∧
      Retries k first w' launched next ∧ r = next.prepend [absent reason] := by
  obtain ⟨before, w', hsend, hw', hreaches⟩ := exists_send_eq k call w
  rw [← hround]
  cases hlate : late? c start (k.surroundings.now w') with
  | some late =>
    obtain ⟨cause, deadline⟩ := late
    obtain ⟨millis, -, rfl⟩ := late?_eq_some hlate
    exact .inl ⟨_, round_of_late hsend hlate, fun h => by cases h⟩
  | none =>
    by_cases hfinal : ∀ reason, ((w.1.after k before).send k call).1 ≠ .error (.unreachable reason)
    · refine .inl ⟨_, round_of_final hsend hlate hfinal, ?_⟩
      rw [Scene.send_fst]
      exact Site.send_ne_launch
    · push Not at hfinal
      obtain ⟨reason, hanswer⟩ := hfinal
      rw [hanswer] at hsend
      exact .inr ⟨before, reason, w', _, hanswer, hw', hreaches,
        retries_retry hlaunched (hfirst.trans hreaches.launches_le), round_of_absent hsend hlate⟩

/-- A round after which the client says that its server exited early gave up so. -/
theorem gaveUp_round {first : Nat} {launched : Option Nat} {w : Scene τ × List (List Happening)}
    (hlaunched : ∀ i ∈ launched, first ≤ i) (hfirst : first ≤ w.1.launches) {run : Client.Run _}
    (hrun : round c k.surroundings k.endpoint call start launched w = .ended run)
    (hresult : run.result = .error (exitedEarly k.endpoint)) :
    ∃ earlier between i, first ≤ i ∧ GaveUp k call w run earlier between i := by
  rcases round_cases hlaunched hfirst hrun with
    ⟨run', hended, hne⟩ | ⟨before, reason, w', next, hanswer, hw', hreaches, hretries, hnext⟩
  · obtain rfl := Round.ended.inj hended
    exact absurd hresult hne
  · cases hretries with
    | @exited i hi hended =>
      obtain rfl := Round.ended.inj hnext
      obtain ⟨between, hbetween, hlast⟩ := meanwhile_eq k w'
      exact ⟨before, between, i, hlaunched i hi,
        { attempt := ⟨reason, hanswer, List.suffix_refl _⟩
          after := hw' ▸ hlast
          others := hbetween.imp_right fun hmem => hreaches.2 hmem
          ended := hended }⟩
    | expired =>
      obtain rfl := Round.ended.inj hnext
      cases hresult
    | goesOn => cases hnext

/-- A round that does not end the call leads to the next one, where a server was launched since the
call began. -/
theorem reaches_round {first : Nat} {launched launched' : Option Nat}
    {w w' : Scene τ × List (List Happening)} (hlaunched : ∀ i ∈ launched, first ≤ i)
    (hfirst : first ≤ w.1.launches) {events : List Event}
    (hround : round c k.surroundings k.endpoint call start launched w =
      .goesOn events launched' w') :
    (∀ i ∈ launched', first ≤ i) ∧ Reaches k w w' := by
  rcases round_cases hlaunched hfirst hround with
    ⟨run, hended, -⟩ | ⟨before, reason, w'', next, -, -, hreaches, hretries, hnext⟩
  · cases hended
  · cases hretries with
    | exited => cases hnext
    | expired => cases hnext
    | goesOn hi hlater =>
      cases hnext
      exact ⟨fun _ h => Option.some.inj h ▸ hi, hreaches.trans hlater⟩

/-- **Rounds.** A call that says that its server exited early gave up so. -/
theorem gaveUp_rounds (n first : Nat) {launched : Option Nat}
    {w : Scene τ × List (List Happening)}
    (hlaunched : ∀ i ∈ launched, first ≤ i) (hfirst : first ≤ w.1.launches) {run : Client.Run _}
    (hrun : rounds c k.surroundings k.endpoint call start n launched w = .ended run)
    (hresult : run.result = .error (exitedEarly k.endpoint)) :
    ∃ earlier between i, first ≤ i ∧ GaveUp k call w run earlier between i := by
  induction n generalizing launched w run with
  | zero => cases hrun
  | succ n ih =>
    rw [rounds] at hrun
    rcases hround : round c k.surroundings k.endpoint call start launched w with
      run' | ⟨events, launched', w'⟩
    · rw [hround] at hrun
      obtain rfl := Round.ended.inj hrun
      exact gaveUp_round hlaunched hfirst hround hresult
    · obtain ⟨hlaunched', hreaches⟩ := reaches_round hlaunched hfirst hround
      rcases hrest : rounds c k.surroundings k.endpoint call start n launched' w' with
        run' | ⟨events', launched'', last⟩
      · simp only [hround, hrest, Round.prepend] at hrun
        obtain rfl := Round.ended.inj hrun
        obtain ⟨earlier, between, i, hi, hgave⟩ :=
          ih hlaunched' (hfirst.trans hreaches.launches_le) hrest hresult
        obtain ⟨earlier, hgave⟩ : ∃ earlier, GaveUp k call w
            { run' with events := events ++ run'.events } earlier between i :=
          hgave.of_reaches hreaches (List.suffix_append _ _) rfl
        exact ⟨earlier, between, i, hi, hgave⟩
      · simp only [hround, hrest, Round.prepend] at hrun
        cases hrun

/-- **Giving up.** Servers of an owner start and close on a host, clients launch and call them, and
all this comes between the actions of one client in any order. If the client says that its server
exited early, then at its last attempt none of the servers accepted a connection to the endpoint,
and what happened after that attempt it did not see but for the end of a server that was launched
since the call began. Whoever listens by then began to listen after the attempt, or listened already
where the endpoint did not lead. -/
theorem gives_up_in_gap (howner : k.owner < Decimal.word) (hc : c.transport = k.transport)
    (n : Nat) {run : Client.Run (Scene τ × List (List Happening))}
    (hrun : tryBuild c k.surroundings n k.owner call (s, others) = some run)
    (hresult : run.result = .error (exitedEarly k.endpoint)) :
    ∃ earlier between i,
      let before := s.after k earlier
      let last := run.after.1
      (∃ reason, (before.send k call).1 = .error (.unreachable reason) ∧
        [.sent (some (.error (.unreachable reason))), .looked true] <:+ run.events) ∧
      last = (before.send k call).2.after k between ∧
      (between = [] ∨ between ∈ others) ∧
      s.launches ≤ i ∧ last.contest.stage i = .ended ∧
      before.contest.accepts? k.endpoint = none ∧
      ∃ later, last.contest.log = later ++ before.contest.log ∧
        ∀ j m, last.contest.stage j = .listening m →
          before.contest.stage j = .listening m ∨ ⟨j, .began⟩ ∈ later := by
  have hrounds : rounds c k.surroundings k.endpoint call (k.surroundings.now (s, others)) n none
      (s, others) = .ended run := by
    rw [tryBuild, callRounds, hc] at hrun
    change (rounds c k.surroundings k.endpoint call _ n none (s, others)).run? = some run at hrun
    generalize rounds c k.surroundings k.endpoint call _ n none (s, others) = r at hrun
    cases r with
    | ended run' => exact congrArg Round.ended (Option.some.inj hrun)
    | goesOn => cases hrun
  obtain ⟨earlier, between, i, hi, hgave⟩ :=
    gaveUp_rounds n s.launches (by simp) (Nat.le_refl _) hrounds hresult
  obtain ⟨reason, hattempt, hsuffix⟩ := hgave.attempt
  refine ⟨earlier, between, i, ⟨reason, hattempt, hsuffix⟩, hgave.after, hgave.others, hi,
    hgave.ended, Scene.accepts?_of_unreachable howner hattempt, ?_⟩
  obtain ⟨hstage, hlog, -⟩ := (s.after k earlier).send_contest k call
  obtain ⟨later, hlater, hlistens⟩ := (((s.after k earlier).send k call).2.grown_after k between).1
  rw [← hgave.after] at hlater hlistens
  rw [hlog] at hlater
  rw [hstage] at hlistens
  exact ⟨later, hlater, hlistens⟩

end Calls

end Crew

namespace Latecomer

/-- A crew of owner zero at a port. -/
def crew : Crew (List BuildCall × Nat) where
  owner := 0
  transport := { kind := .loopbackHttp }
  service _ := Service.echo.recorded.beside

/-- A scene where nobody has been launched. -/
def scene : Scene (List BuildCall × Nat) := { contest := { host := {} }, state := ([], 0) }

/-- A call. -/
def call : BuildCall := { project := "/p", options := { output := "Game.dll" } }

/-- The client's call, with what others do before each of its actions. -/
def round (scene : Scene (List BuildCall × Nat)) (others : List (List Happening)) :
    Client.Round (Scene (List BuildCall × Nat) × List (List Happening)) Nat :=
  Client.callRounds { transport := crew.transport } crew.surroundings 2 crew.owner call
    (scene, others)

/-- After the client's second attempt another client's server comes up, so its own ends. -/
def others : List (List Happening) :=
  [[], [], [], [], .launch :: List.map .step [1, 1, 1, 1, 0, 0, 0]]

/-- A scene on a host whose loopback interface lets no connection through. -/
def closed : Scene (List BuildCall × Nat) :=
  { scene with contest := { host := { loopbackOpen := false } } }

/-- Another client's server is up from the beginning, so the client's own ends. -/
def earlier : List (List Happening) :=
  [.launch :: List.map .step [0, 0, 0, 0], [], [], [], List.map .step [1, 1, 1]]

/-- **A client gives up while a server is up.** It may have come up since the last attempt, or it
was not reached. -/
theorem gives_up_while_up :
    ((round scene others).result? = some (.error (Client.exitedEarly crew.endpoint)) ∧
      (round scene others).after.1.contest.stage 1 = .listening 0 ∧
      (round scene others).after.1.contest.accepts? crew.endpoint = some 1) ∧
    ((round closed earlier).result? = some (.error (Client.exitedEarly crew.endpoint)) ∧
      (round closed earlier).after.1.contest.stage 0 = .listening 0) := by
  decide +kernel

/-- Of a server that came up late, the last attempt could not know. -/
theorem latecomer_unseen :
    ∃ run, Client.tryBuild { transport := crew.transport } crew.surroundings 2 crew.owner call
        (scene, others) = some run ∧
      run.result = .error (Client.exitedEarly crew.endpoint) ∧
      ∃ before, (scene.after crew before).contest.accepts? crew.endpoint = none := by
  have hround : (round scene others).result? =
      some (.error (Client.exitedEarly crew.endpoint)) := by decide +kernel
  obtain ⟨run, hrun, hresult⟩ := Option.map_eq_some_iff.mp hround
  obtain ⟨before, between, i, -, -, -, -, -, hunanswered, -⟩ :=
    Crew.gives_up_in_gap (k := crew) (by decide) rfl 2 hrun hresult
  exact ⟨run, hrun, hresult, before, hunanswered⟩

end Latecomer

end IncrementalBuild
