import IncrementalBuild.Proofs.Host.Sockets
import IncrementalBuild.Server
/-!
# The lives of a server

A server that is run has one of two lives. Either it never listens, since its owner is not running
or its endpoint cannot be opened, or it listens until something ends that, and closes. Whatever
happens around it and whichever of its accesses fail, the states that it publishes are those of one
life or of the other, as far as it has come.

## Ledger convention

The moments of a life are the states that the server publishes after `idle`, each with the host as
it is when the state is published. Forgetting the hosts gives the published states.

## Main definitions

* `Server.Obstacle`, `Server.Opens` — why an endpoint cannot be opened, and how it is opened.
* `Server.Answered` — something at the path of a socket file accepted a connection.
* `Server.Ends` — a notice that ends the serving of an owner's server, and how.
* `Server.Moment`, `Server.moments` — the moments of a life.
* `Server.Unheard`, `Server.Heard`, `Server.Lasting` — a server that never listened, one that
  listened and closed, and one that still listens.

## Main results

* `Server.open_eq_error_iff`, `Server.open_eq_ok_iff` — what opening an endpoint comes to.
* `Server.stopBy_eq_some_iff` — serving ends with the first notice that ends it.
* `Server.run_moments` — a run and its moments.
* `Server.lives` — the lives of a server.
-/

namespace IncrementalBuild.Server

/-! ### Opening an endpoint -/

/-- Something stood at the path of a socket file, and a server accepted a connection there. -/
def Answered (p : Path) (h : Host) (n : Nat) (h' : Host) : Prop :=
  ∃ made entry seen, makeDirectory p h = (.ok (), made) ∧ Access.stat p made = (.ok entry, seen) ∧
    Access.connectSocket p seen = (.ok n, h')

/-- The way for a socket file is free: nothing stood there, or a file that accepted no connection
was removed. -/
inductive Cleared (p : Path) : Host → Host → Prop
  | absent {h h' : Host} {fault : FileError} (nothing : Access.stat p h = (.error fault, h')) :
      Cleared p h h'
  | stale {h seen knocked h' : Host} {entry : Entry} {refusal : FileError}
      (there : Access.stat p h = (.ok entry, seen))
      (refused : Access.connectSocket p seen = (.error refusal, knocked))
      (removed : Access.remove p knocked = (.ok (), h')) : Cleared p h h'

/-- Why an endpoint cannot be opened, with the host afterwards: a port is taken; the directory of a
socket file cannot be made; a server answers at the file; a file where none answers cannot be
removed; or a new file cannot be bound. -/
inductive Obstacle (e : Endpoint) : Host → CallError → Host → Prop
  | port {h h' : Host} {owner port : Nat} {fault : FileError} (http : e = .loopbackHttp owner port)
      (taken : Access.listenPort port h = (.error fault, h')) :
      Obstacle e h (.bind e.display fault.message) h'
  | directory {h h' : Host} {owner : Nat} {p : Path} {fault : FileError}
      (socket : e = .localSocket owner p) (missing : makeDirectory p h = (.error fault, h')) :
      Obstacle e h (.bind e.display fault.message) h'
  | live {h h' : Host} {owner n : Nat} {p : Path} (socket : e = .localSocket owner p)
      (answered : Answered p h n h') :
      Obstacle e h (.bind e.display "another server is already listening") h'
  | stuck {h made seen knocked h' : Host} {owner : Nat} {p : Path} {entry : Entry}
      {refusal fault : FileError} (socket : e = .localSocket owner p)
      (directory : makeDirectory p h = (.ok (), made))
      (there : Access.stat p made = (.ok entry, seen))
      (refused : Access.connectSocket p seen = (.error refusal, knocked))
      (kept : Access.remove p knocked = (.error fault, h')) :
      Obstacle e h (.bind e.display fault.message) h'
  | unbound {h made cleared h' : Host} {owner : Nat} {p : Path} {fault : FileError}
      (socket : e = .localSocket owner p) (directory : makeDirectory p h = (.ok (), made))
      (free : Cleared p made cleared)
      (failed : Access.listenSocket p cleared = (.error fault, h')) :
      Obstacle e h (.bind e.display fault.message) h'

/-- How an endpoint is opened, with the number under which the server listens. -/
inductive Opens (e : Endpoint) : Host → Nat → Host → Prop
  | port {h h' : Host} {owner port n : Nat} (http : e = .loopbackHttp owner port)
      (bound : Access.listenPort port h = (.ok n, h')) : Opens e h n h'
  | socket {h made cleared h' : Host} {owner n : Nat} {p : Path} (socket : e = .localSocket owner p)
      (directory : makeDirectory p h = (.ok (), made)) (free : Cleared p made cleared)
      (bound : Access.listenSocket p cleared = (.ok n, h')) : Opens e h n h'

variable {h h' : Host} {e : Endpoint} {p : Path} {n : Nat} {cause : CallError}

/-- Making way succeeds if the way is free afterwards. -/
theorem clear_of_cleared (hcleared : Cleared p h h') : clear e p h = (.ok (), h') := by
  cases hcleared with
  | absent absent => rw [clear, isThere, absent]
  | stale there refused removed =>
      simp only [clear, isThere, isLive, step, there, refused, removed]

/-- Opening an endpoint fails at an obstacle. -/
theorem open_of_obstacle (hobstacle : Obstacle e h cause h') :
    Server.open e h = (.error cause, h') := by
  cases hobstacle with
  | port http taken => simp only [http, Server.open, step, taken]
  | directory socket missing => simp only [socket, Server.open, step, missing]
  | live socket answered =>
      obtain ⟨made, entry, seen, hmade, hthere, hconnect⟩ := answered
      simp only [socket, Server.open, clear, isThere, isLive, step, hmade, hthere, hconnect]
  | stuck socket directory there refused kept =>
      simp only [socket, Server.open, clear, isThere, isLive, step, directory, there, refused, kept]
  | unbound socket directory free failed =>
      simp only [socket, Server.open, step, directory, clear_of_cleared free, failed]

/-- Opening an endpoint succeeds where nothing is in the way. -/
theorem open_of_opens (hopens : Opens e h n h') : Server.open e h = (.ok n, h') := by
  cases hopens with
  | port http bound => simp only [http, Server.open, step, bound]
  | socket socket directory free bound =>
      simp only [socket, Server.open, step, directory, clear_of_cleared free, bound]

/-- At an obstacle nothing is opened. -/
theorem Obstacle.not_opens {after : Host} (hobstacle : Obstacle e h cause h') :
    ¬ Opens e h n after := fun hopens =>
  absurd ((open_of_obstacle hobstacle).symm.trans (open_of_opens hopens)) (by simp)

/-- An endpoint is opened, or there is an obstacle. -/
theorem obstacle_or_opens (e : Endpoint) (h : Host) :
    (∃ cause h', Obstacle e h cause h') ∨ ∃ n h', Opens e h n h' := by
  rcases e with ⟨owner, p⟩ | ⟨owner, port⟩
  · rcases hmade : makeDirectory p h with ⟨fault | _, made⟩
    · exact .inl ⟨_, made, .directory rfl hmade⟩
    have hfree (cleared : Host) (hcleared : Cleared p made cleared) :
        (∃ cause h', Obstacle (.localSocket owner p) h cause h') ∨
          ∃ n h', Opens (.localSocket owner p) h n h' := by
      rcases hlisten : Access.listenSocket p cleared with ⟨fault | n, h'⟩
      · exact .inl ⟨_, h', .unbound rfl hmade hcleared hlisten⟩
      · exact .inr ⟨n, h', .socket rfl hmade hcleared hlisten⟩
    rcases hthere : Access.stat p made with ⟨fault | entry, seen⟩
    · exact hfree seen (.absent hthere)
    rcases hconnect : Access.connectSocket p seen with ⟨refusal | n, knocked⟩
    · rcases hremove : Access.remove p knocked with ⟨fault | _, cleared⟩
      · exact .inl ⟨_, cleared, .stuck rfl hmade hthere hconnect hremove⟩
      · exact hfree cleared (.stale hthere hconnect hremove)
    · exact .inl ⟨_, knocked, .live rfl ⟨made, entry, seen, hmade, hthere, hconnect⟩⟩
  · rcases hlisten : Access.listenPort port h with ⟨fault | n, h'⟩
    · exact .inl ⟨_, h', .port rfl hlisten⟩
    · exact .inr ⟨n, h', .port rfl hlisten⟩

/-- **An endpoint cannot be opened** exactly if there is an obstacle. -/
theorem open_eq_error_iff : Server.open e h = (.error cause, h') ↔ Obstacle e h cause h' := by
  refine ⟨fun hopen => ?_, open_of_obstacle⟩
  rcases obstacle_or_opens e h with ⟨cause', after, hobstacle⟩ | ⟨n, after, hopens⟩
  · obtain ⟨hcause, rfl⟩ := Prod.mk.inj (hopen.symm.trans (open_of_obstacle hobstacle))
    obtain rfl := Except.error.inj hcause
    exact hobstacle
  · exact absurd (hopen.symm.trans (open_of_opens hopens)) (by simp)

/-- **An endpoint is opened** exactly if nothing is in the way. -/
theorem open_eq_ok_iff : Server.open e h = (.ok n, h') ↔ Opens e h n h' := by
  refine ⟨fun hopen => ?_, open_of_opens⟩
  rcases obstacle_or_opens e h with ⟨cause, after, hobstacle⟩ | ⟨n', after, hopens⟩
  · exact absurd (hopen.symm.trans (open_of_obstacle hobstacle)) (by simp)
  · obtain ⟨hn, rfl⟩ := Prod.mk.inj (hopen.symm.trans (open_of_opens hopens))
    obtain rfl := Except.ok.inj hn
    exact hopens

/-! ### Notices -/

/-- A notice that ends the serving of an owner's server, and how serving ends. -/
inductive Ends (owner : Nat) : Notice → Except CallError Unit → Prop
  | shutdown : Ends owner .shutdown (.ok ())
  | exited (owned : owner ≠ 0) : Ends owner (.ownerSeen false) (.ok ())
  | broken (cause : CallError) : Ends owner (.broken cause) (.error cause)

/-- A notice ends serving in one way. -/
theorem Ends.unique {owner : Nat} {notice : Notice} {served served' : Except CallError Unit}
    (h : Ends owner notice served) (h' : Ends owner notice served') : served = served' := by
  cases h <;> cases h' <;> rfl

/-- Serving goes on in spite of notices. -/
def GoesOn (owner : Nat) (notices : List Notice) : Prop :=
  ∀ notice ∈ notices, ∀ served, ¬ Ends owner notice served

/-- Serving ends with one of the notices, the first that ends it. -/
def StopsWith (owner : Nat) (notices : List Notice) (served : Except CallError Unit) : Prop :=
  ∃ before notice after, notices = before ++ notice :: after ∧ GoesOn owner before ∧
    Ends owner notice served

/-- A notice ends serving, or the next ones decide. -/
theorem stopBy_cons (owner : Nat) (notice : Notice) (rest : List Notice) :
    (∃ served, Ends owner notice served ∧ stopBy owner (notice :: rest) = some served) ∨
      (∀ served, ¬ Ends owner notice served) ∧
        stopBy owner (notice :: rest) = stopBy owner rest := by
  cases notice with
  | shutdown => exact .inl ⟨_, .shutdown, rfl⟩
  | broken cause => exact .inl ⟨_, .broken cause, rfl⟩
  | ownerSeen running =>
      by_cases hends : owner ≠ 0 ∧ !running
      · obtain ⟨howned, hrunning⟩ := hends
        rw [Bool.not_eq_true'] at hrunning
        subst hrunning
        exact .inl ⟨_, .exited howned, if_pos ⟨howned, rfl⟩⟩
      · refine .inr ⟨fun served hserved => ?_, if_neg hends⟩
        cases hserved with
        | exited howned => exact hends ⟨howned, rfl⟩

/-- Serving goes on if no notice ends it. -/
theorem stopBy_eq_none_iff {owner : Nat} {notices : List Notice} :
    stopBy owner notices = none ↔ GoesOn owner notices := by
  induction notices with
  | nil => exact iff_of_true rfl fun _ h => absurd h List.not_mem_nil
  | cons notice rest ih =>
      rcases stopBy_cons owner notice rest with ⟨served, hends, hstop⟩ | ⟨hnone, hstop⟩
      · rw [hstop]
        exact iff_of_false (by simp) fun h => h notice List.mem_cons_self served hends
      · rw [hstop, ih, GoesOn, GoesOn, List.forall_mem_cons]
        exact (and_iff_right hnone).symm

/-- **Serving ends** with the first notice that ends it. -/
theorem stopBy_eq_some_iff {owner : Nat} {notices : List Notice} {served : Except CallError Unit} :
    stopBy owner notices = some served ↔ StopsWith owner notices served := by
  constructor
  · intro h
    induction notices with
    | nil => exact absurd h (by simp [stopBy])
    | cons notice rest ih =>
        rcases stopBy_cons owner notice rest with ⟨served', hends, hstop⟩ | ⟨hnone, hstop⟩
        · obtain rfl := Option.some.inj (hstop.symm.trans h)
          exact ⟨[], notice, rest, rfl, fun _ h => absurd h List.not_mem_nil, hends⟩
        · obtain ⟨before, last, after, rfl, hgoes, hends⟩ := ih (hstop.symm.trans h)
          exact ⟨notice :: before, last, after, rfl, List.forall_mem_cons.mpr ⟨hnone, hgoes⟩, hends⟩
  · rintro ⟨before, notice, after, rfl, hgoes, hends⟩
    induction before with
    | nil =>
        rcases stopBy_cons owner notice after with ⟨served', hends', hstop⟩ | ⟨hnone, -⟩
        · rw [List.nil_append, hstop, hends.unique hends']
        · exact absurd hends (hnone served)
    | cons other before ih =>
        obtain ⟨hother, hgoes⟩ := List.forall_mem_cons.mp hgoes
        rcases stopBy_cons owner other (before ++ notice :: after) with
          ⟨served', hends', -⟩ | ⟨-, hstop⟩
        · exact absurd hends' (hother served')
        · exact hstop.trans (ih hgoes)

/-! ### Moments -/

/-- A state that a server publishes, with the host as it is when it is published. -/
structure Moment where
  state : ServerState
  host : Host

/-- The moments of a life. -/
def moments (s : Server) (notices : List Notice) (meanwhile : Host → Host) (h : Host) :
    List Moment :=
  ⟨.starting, h⟩ ::
    if s.owner ≠ 0 ∧ !h.isRunning s.owner then [⟨.terminated, h⟩]
    else
      match Server.open s.endpoint h with
      | (.error _, h) => [⟨.terminated, h⟩]
      | (.ok number, h) =>
        ⟨.listening, h⟩ ::
          match stopBy s.owner notices with
          | none => []
          | some _ =>
            let stopped := (meanwhile h).stopListening number
            [⟨.closing, stopped⟩, ⟨.terminated, removeSocket s.endpoint stopped⟩]

/-- The owner of a server is a process, and it is not running. -/
def Orphaned (s : Server) (h : Host) : Prop := s.owner ≠ 0 ∧ h.isRunning s.owner = false

/-- A server that listens under a number. -/
def listening (s : Server) (n : Nat) : Server :=
  { (s.enter .starting).enter .listening with number := some n }

section Cases

variable {s : Server} {served : Except CallError Unit} (notices : List Notice)
  (meanwhile : Host → Host)

/-- A server looks for its owner first. -/
theorem orphaned_iff : s.Orphaned h ↔ s.owner ≠ 0 ∧ !h.isRunning s.owner := by
  rw [Orphaned, Bool.not_eq_true']

/-- Without its owner a server terminates at once. -/
theorem life_of_orphaned (horphaned : s.Orphaned h) :
    s.run notices meanwhile h =
        (some (.error (.ownerNotFound s!"process {s.owner} is not running")),
          (s.enter .starting).enter .terminated, h) ∧
      s.moments notices meanwhile h = [⟨.starting, h⟩, ⟨.terminated, h⟩] := by
  have hgone := orphaned_iff.mp horphaned
  constructor
  · have hstart : s.start h = (.error (.ownerNotFound s!"process {s.owner} is not running"),
        (s.enter .starting).enter .terminated, h) := if_pos hgone
    rw [run, hstart]
  · rw [moments, if_pos hgone]

/-- At an obstacle it terminates as well. -/
theorem life_of_obstacle (hup : ¬ s.Orphaned h) (hobstacle : Obstacle s.endpoint h cause h') :
    s.run notices meanwhile h =
        (some (.error cause), (s.enter .starting).enter .terminated, h') ∧
      s.moments notices meanwhile h = [⟨.starting, h⟩, ⟨.terminated, h'⟩] := by
  have hpresent := hup ∘ orphaned_iff.mpr
  have hopen := open_of_obstacle hobstacle
  constructor
  · have hstart : s.start h = (.error cause, (s.enter .starting).enter .terminated, h') := by
      refine (if_neg hpresent).trans ?_
      rw [show (s.enter .starting).endpoint = s.endpoint from rfl, hopen]
    rw [run, hstart]
  · rw [moments, if_neg hpresent, hopen]

/-- Otherwise it listens. -/
theorem start_of_opens (hup : ¬ s.Orphaned h) (hopens : Opens s.endpoint h n h') :
    s.start h = (.ok (), s.listening n, h') := by
  refine (if_neg (hup ∘ orphaned_iff.mpr)).trans ?_
  rw [show (s.enter .starting).endpoint = s.endpoint from rfl, open_of_opens hopens]
  rfl

/-- While no notice ends that, it goes on listening. -/
theorem life_of_goesOn (hup : ¬ s.Orphaned h) (hopens : Opens s.endpoint h n h')
    (hgoes : GoesOn s.owner notices) :
    s.run notices meanwhile h = (none, s.listening n, meanwhile h') ∧
      s.moments notices meanwhile h = [⟨.starting, h⟩, ⟨.listening, h'⟩] := by
  have hstop : stopBy (s.listening n).owner notices = none := stopBy_eq_none_iff.mpr hgoes
  constructor
  · rw [run, start_of_opens hup hopens]
    dsimp only
    rw [hstop]
  · rw [moments, if_neg (hup ∘ orphaned_iff.mpr), open_of_opens hopens]
    dsimp only
    rw [show stopBy s.owner notices = none from hstop]

/-- When one does, it stops listening, closes and terminates. -/
theorem life_of_stopsWith (hup : ¬ s.Orphaned h) (hopens : Opens s.endpoint h n h')
    (hstops : StopsWith s.owner notices served) :
    let closing := (meanwhile h').stopListening n
    s.run notices meanwhile h =
        (some served, ((s.listening n).enter .closing).enter .terminated,
          removeSocket s.endpoint closing) ∧
      s.moments notices meanwhile h = [⟨.starting, h⟩, ⟨.listening, h'⟩, ⟨.closing, closing⟩,
        ⟨.terminated, removeSocket s.endpoint closing⟩] := by
  intro closing
  have hstop : stopBy (s.listening n).owner notices = some served := stopBy_eq_some_iff.mpr hstops
  constructor
  · rw [run, start_of_opens hup hopens]
    dsimp only
    rw [hstop]
    rfl
  · rw [moments, if_neg (hup ∘ orphaned_iff.mpr), open_of_opens hopens]
    dsimp only
    rw [show stopBy s.owner notices = some served from hstop]

end Cases

/-! ### What is left behind -/

/-- A connection that a server accepted shows that it listens there. -/
theorem connect_of_answered (h : Answered p h n h') : h'.files.connect p = .ok n := by
  obtain ⟨made, entry, seen, -, -, hconnect⟩ := h
  rw [Access.connectSocket, Access.look] at hconnect
  rcases henter : seen.enter with ⟨_ | fault, entered⟩
  · rw [henter] at hconnect
    obtain ⟨hfound, rfl⟩ := Prod.mk.inj hconnect
    exact hfound
  · rw [henter] at hconnect
    exact absurd (congrArg Prod.fst hconnect) (by simp)

/-- Nothing stands at the path of a file that was removed. -/
theorem exists?_of_remove (hremoved : Access.remove p h = (.ok (), h')) :
    h'.files.exists? p = false := by
  rw [Access.remove, Access.change] at hremoved
  rcases henter : h.enter with ⟨_ | fault, entered⟩
  · rw [henter] at hremoved
    dsimp only at hremoved
    rcases hfiles : entered.files.remove p with fault | left
    · rw [hfiles] at hremoved
      exact absurd (congrArg Prod.fst hremoved) (by simp)
    · rw [hfiles] at hremoved
      obtain ⟨-, rfl⟩ := Prod.mk.inj hremoved
      obtain ⟨hfree, rfl⟩ := Files.remove_eq_ok hfiles
      have hplace : (entered.files.drop (entered.files.place p)).place p = entered.files.place p :=
        Files.place_congr rfl p
      rw [Files.exists?]
      rcases hstat : (entered.files.drop (entered.files.place p)).stat p with fault | entry
      · rfl
      · have hat := Files.at?_of_stat hstat
        rw [hplace, Files.at?_drop (Files.ne_nil_of_isDirectoryAt hfree), if_pos rfl] at hat
        cases hat
  · rw [henter] at hremoved
    exact absurd (congrArg Prod.fst hremoved) (by simp)

/-- An obstacle makes a failure to open the endpoint. -/
theorem Obstacle.bind (hobstacle : Obstacle e h cause h') :
    ∃ reason, cause = .bind e.display reason := by
  cases hobstacle <;> exact ⟨_, rfl⟩

/-- Only a notice that serving is broken makes it fail. -/
theorem stopsWith_error_iff {owner : Nat} {notices : List Notice} :
    StopsWith owner notices (.error cause) ↔
      ∃ before after, notices = before ++ .broken cause :: after ∧ GoesOn owner before := by
  constructor
  · rintro ⟨before, notice, after, hnotices, hgoes, hends⟩
    cases hends
    exact ⟨before, after, hnotices, hgoes⟩
  · rintro ⟨before, after, hnotices, hgoes⟩
    exact ⟨before, .broken cause, after, hnotices, hgoes, .broken cause⟩

/-! ### Lives -/

/-- A server that never listened: it published that it started and that it terminated, and failed
for its owner or for its endpoint. Without the owner it left everything as it was. A server that
answered at the path of its socket file answers there when it has terminated. -/
structure Unheard (s : Server) (h : Host) (result : Option (Except CallError Unit))
    (life : List Moment) : Prop where
  states : life.map Moment.state = [.starting, .terminated]
  failed : (s.Orphaned h ∧ ∃ reason, result = some (.error (.ownerNotFound reason))) ∨
    ¬ s.Orphaned h ∧ ∃ reason, result = some (.error (.bind s.endpoint.display reason))
  untouched : s.Orphaned h → ∀ moment ∈ life, moment.host = h
  spared : ¬ s.Orphaned h → ∀ owner p n h', s.endpoint = .localSocket owner p →
    Answered p h n h' → ∀ moment ∈ life.getLast?,
      moment.host = h' ∧ moment.host.files.connect p = .ok n

/-- A server that listened until a notice ended that: it was told to shut down, or it saw that its
owner, a process, had exited, or it could not go on. It failed in the last case only. Between
closing and terminating it removed its socket file, and unless it could not, nothing stands there
any more. -/
structure Heard (s : Server) (notices : List Notice) (result : Option (Except CallError Unit))
    (life : List Moment) : Prop where
  states : life.map Moment.state = [.starting, .listening, .closing, .terminated]
  stopped : ∃ served, result = some served ∧ StopsWith s.owner notices served
  failed : ∀ cause, result = some (.error cause) ↔ ∃ before after,
    notices = before ++ .broken cause :: after ∧ GoesOn s.owner before
  removed : ∀ owner p, s.endpoint = .localSocket owner p → ∃ started listening closing terminated,
    life = [started, listening, closing, terminated] ∧
      terminated.host = (Access.remove p closing.host).2 ∧
      ((Access.remove p closing.host).1 = .ok () → terminated.host.files.exists? p = false)

/-- A server that still listens, since no notice has ended that. -/
structure Lasting (s : Server) (notices : List Notice) (result : Option (Except CallError Unit))
    (life : List Moment) : Prop where
  states : life.map Moment.state = [.starting, .listening]
  goesOn : result = none ∧ GoesOn s.owner notices

section Lives

variable {s : Server} {notices : List Notice} {meanwhile : Host → Host}
  {served : Except CallError Unit}

/-- A server without its owner is never heard. -/
theorem unheard_of_orphaned (horphaned : s.Orphaned h) :
    s.Unheard h (s.run notices meanwhile h).1 (s.moments notices meanwhile h) := by
  obtain ⟨hrun, hmoments⟩ := life_of_orphaned notices meanwhile horphaned
  rw [hrun, hmoments]
  exact {
    states := rfl
    failed := .inl ⟨horphaned, _, rfl⟩
    untouched := fun _ => by simp
    spared := fun hup => absurd horphaned hup }

/-- Nor is one that meets an obstacle, which leaves a live server where it is. -/
theorem unheard_of_obstacle (hup : ¬ s.Orphaned h) (hobstacle : Obstacle s.endpoint h cause h') :
    s.Unheard h (s.run notices meanwhile h).1 (s.moments notices meanwhile h) := by
  obtain ⟨hrun, hmoments⟩ := life_of_obstacle notices meanwhile hup hobstacle
  obtain ⟨reason, rfl⟩ := hobstacle.bind
  rw [hrun, hmoments]
  refine ⟨rfl, .inr ⟨hup, reason, rfl⟩, fun horphaned => absurd horphaned hup, ?_⟩
  intro _ owner p n after hsocket hanswered moment hlast
  obtain rfl := Option.mem_some.mp hlast
  -- The server that answers is the obstacle, and there is one obstacle only.
  have hopen := (open_of_obstacle (.live hsocket hanswered)).symm.trans (open_of_obstacle hobstacle)
  obtain rfl : after = h' := (Prod.mk.inj hopen).2
  exact ⟨rfl, connect_of_answered hanswered⟩

/-- A server that opened its endpoint lasts while no notice ends that. -/
theorem lasting_of_goesOn (hup : ¬ s.Orphaned h) (hopens : Opens s.endpoint h n h')
    (hgoes : GoesOn s.owner notices) :
    s.Lasting notices (s.run notices meanwhile h).1 (s.moments notices meanwhile h) := by
  obtain ⟨hrun, hmoments⟩ := life_of_goesOn notices meanwhile hup hopens hgoes
  rw [hrun, hmoments]
  exact ⟨rfl, rfl, hgoes⟩

/-- When one does, it was heard and has closed. -/
theorem heard_of_stopsWith (hup : ¬ s.Orphaned h) (hopens : Opens s.endpoint h n h')
    (hstops : StopsWith s.owner notices served) :
    s.Heard notices (s.run notices meanwhile h).1 (s.moments notices meanwhile h) := by
  obtain ⟨hrun, hmoments⟩ := life_of_stopsWith notices meanwhile hup hopens hstops
  rw [hrun, hmoments]
  refine ⟨rfl, ⟨served, rfl, hstops⟩, fun cause => ?_, fun owner p hsocket => ?_⟩
  · rw [← stopsWith_error_iff]
    refine ⟨fun hserved => Option.some.inj hserved ▸ hstops, fun hbroken => ?_⟩
    exact (stopBy_eq_some_iff.mpr hstops).symm.trans (stopBy_eq_some_iff.mpr hbroken)
  · refine ⟨_, _, _, _, rfl, by rw [hsocket, removeSocket], fun hremoved => ?_⟩
    rw [hsocket, removeSocket]
    exact exists?_of_remove (Prod.ext hremoved rfl)

/-- A server finds its owner gone, meets an obstacle, or opens its endpoint; and then a notice ends
its serving, or none does. -/
theorem owner_endpoint_notices (s : Server) (notices : List Notice) (h : Host) :
    s.Orphaned h ∨ ¬ s.Orphaned h ∧ ((∃ cause h', Obstacle s.endpoint h cause h') ∨
      ∃ n h', Opens s.endpoint h n h' ∧
        (GoesOn s.owner notices ∨ ∃ served, StopsWith s.owner notices served)) := by
  by_cases horphaned : s.Orphaned h
  · exact .inl horphaned
  rcases obstacle_or_opens s.endpoint h with hobstacle | ⟨n, h', hopens⟩
  · exact .inr ⟨horphaned, .inl hobstacle⟩
  refine .inr ⟨horphaned, .inr ⟨n, h', hopens, ?_⟩⟩
  rcases hstop : stopBy s.owner notices with _ | served
  · exact .inl (stopBy_eq_none_iff.mp hstop)
  · exact .inr ⟨served, stopBy_eq_some_iff.mp hstop⟩

/-- A run publishes the states of its moments, and a life that is over leaves the host of the last
one. -/
theorem run_moments (s : Server) (notices : List Notice) (meanwhile : Host → Host) (h : Host) :
    (s.run notices meanwhile h).2.1.published.reverse =
        s.published.reverse ++ (s.moments notices meanwhile h).map Moment.state ∧
      ((s.run notices meanwhile h).1.isSome → ∀ moment ∈ (s.moments notices meanwhile h).getLast?,
        moment.host = (s.run notices meanwhile h).2.2) := by
  rcases s.owner_endpoint_notices notices h with
    horphaned | ⟨hup, ⟨cause, h', hobstacle⟩ | ⟨n, h', hopens, hgoes | ⟨served, hstops⟩⟩⟩
  · obtain ⟨hrun, hmoments⟩ := life_of_orphaned notices meanwhile horphaned
    rw [hrun, hmoments]
    simp [enter]
  · obtain ⟨hrun, hmoments⟩ := life_of_obstacle notices meanwhile hup hobstacle
    rw [hrun, hmoments]
    simp [enter]
  · obtain ⟨hrun, hmoments⟩ := life_of_goesOn notices meanwhile hup hopens hgoes
    rw [hrun, hmoments]
    simp [enter, listening]
  · obtain ⟨hrun, hmoments⟩ := life_of_stopsWith notices meanwhile hup hopens hstops
    rw [hrun, hmoments]
    simp [enter, listening]

end Lives

/-- **The lives of a server.** A server of any owner is run at any endpoint, on a host whose
accesses may fail, with anything happening around it. It publishes the states of one of three lives:
it was never heard, it was heard and has closed, or it still listens. It is never heard exactly if
its owner is a process that is not running or its endpoint cannot be opened, and it still listens
exactly if it could listen and no notice has ended that. -/
theorem lives (owner : Nat) (t : Transport) (notices : List Notice) (meanwhile : Host → Host)
    (h : Host) :
    let s : Server := { owner, transport := t }
    let life := s.moments notices meanwhile h
    let result := (s.run notices meanwhile h).1
    (s.run notices meanwhile h).2.1.published.reverse = .idle :: life.map Moment.state ∧
    (result.isSome → ∀ moment ∈ life.getLast?, moment.host = (s.run notices meanwhile h).2.2) ∧
    (s.Unheard h result life ∨ s.Heard notices result life ∨ s.Lasting notices result life) ∧
    (s.Unheard h result life ↔
      s.Orphaned h ∨ ∃ cause h', Obstacle s.endpoint h cause h') ∧
    (s.Lasting notices result life ↔
      ¬ s.Orphaned h ∧ (∃ n h', Opens s.endpoint h n h') ∧ GoesOn s.owner notices) := by
  intro s life result
  obtain ⟨hpublished, hhost⟩ := s.run_moments notices meanwhile h
  refine ⟨hpublished, hhost, ?_⟩
  rcases s.owner_endpoint_notices notices h with
    horphaned | ⟨hup, ⟨cause, h', hobstacle⟩ | ⟨n, h', hopens, hgoes | ⟨served, hstops⟩⟩⟩
  · have hunheard : s.Unheard h result life := unheard_of_orphaned horphaned
    refine ⟨.inl hunheard, iff_of_true hunheard (.inl horphaned), iff_of_false ?_ ?_⟩
    · exact fun hlasting => absurd (hunheard.states.symm.trans hlasting.states) (by simp)
    · exact fun hlasts => hlasts.1 horphaned
  · have hunheard : s.Unheard h result life := unheard_of_obstacle hup hobstacle
    refine ⟨.inl hunheard, iff_of_true hunheard (.inr ⟨cause, h', hobstacle⟩), iff_of_false ?_ ?_⟩
    · exact fun hlasting => absurd (hunheard.states.symm.trans hlasting.states) (by simp)
    · rintro ⟨-, ⟨n, after, hopens⟩, -⟩
      exact hobstacle.not_opens hopens
  all_goals
    have hno : ¬ (s.Orphaned h ∨ ∃ cause h', Obstacle s.endpoint h cause h') := by
      rintro (horphaned | ⟨cause, after, hobstacle⟩)
      · exact hup horphaned
      · exact hobstacle.not_opens hopens
  · have hlasting : s.Lasting notices result life := lasting_of_goesOn hup hopens hgoes
    refine ⟨.inr (.inr hlasting), iff_of_false ?_ hno,
      iff_of_true hlasting ⟨hup, ⟨n, h', hopens⟩, hgoes⟩⟩
    exact fun hunheard => absurd (hunheard.states.symm.trans hlasting.states) (by simp)
  · have hheard : s.Heard notices result life := heard_of_stopsWith hup hopens hstops
    refine ⟨.inr (.inl hheard), iff_of_false ?_ hno, iff_of_false ?_ ?_⟩
    · exact fun hunheard => absurd (hunheard.states.symm.trans hheard.states) (by simp)
    · exact fun hlasting => absurd (hheard.states.symm.trans hlasting.states) (by simp)
    · rintro ⟨-, -, hgoes⟩
      rw [← stopBy_eq_none_iff, stopBy_eq_some_iff.mpr hstops] at hgoes
      cases hgoes

end IncrementalBuild.Server
