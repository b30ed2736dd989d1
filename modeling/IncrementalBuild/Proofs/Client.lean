import IncrementalBuild.Client
import IncrementalBuild.Proofs.Attempt
/-!
# A client calls once

However its attempts end, whatever becomes of the server that it launches, and wherever the
deadline cuts it off, a client launches one server at most and reaches a service at most once.
After an attempt that found a server there is no other, and its answer is the client's.

The course of a call says which events can follow each other. It covers calls that have not ended
as well, and it is told from the attempts alone: the surroundings are anything in which only
attempts reach services.

## Main definitions

* `Client.Faithful` — surroundings in which calls reach services through attempts only.
* `Client.SaysWhy` — a launcher whose failures are not those that the client tells of itself.
* `Client.Course` — how a call can go.
* `Client.Failure` — how it can fail.

## Main results

* `Client.course_rounds` — every call takes such a course.
* `Client.calls_once` — what a client does, what it gives back, and what reaches a service.
* `Site.faithful_threads`, `Site.faithful_spawning` — sites are such surroundings.
* `Site.saysWhy_threads`, `Site.saysWhy_spawning` — and their launchers say why they fail.
-/

namespace IncrementalBuild

/-- The endpoint of an owner belongs to it. -/
theorem Endpoint.owner_ofOwner (t : Transport) (owner : Nat) : (ofOwner t owner).owner = owner := by
  rw [ofOwner]
  split <;> rfl

namespace Client

variable {ω η : Type}

/-! ### Surroundings -/

/-- Surroundings that fit keep fitting, and the ledger gets no entry. -/
def Still (ledger : ω → List BuildCall) (fit : ω → Prop) (w w' : ω) : Prop :=
  ledger w' = ledger w ∧ fit w'

/-- Surroundings in which only attempts reach services. What this client's calls cause there is
entered into a ledger. -/
structure Faithful (s : Surroundings ω η) (ledger : ω → List BuildCall) (fit : ω → Prop) :
    Prop where
  send : ∀ {w}, fit w → ∀ e call,
    Attempt call (ledger w) e (s.send e call w).1 (ledger (s.send e call w).2) ∧
      fit (s.send e call w).2
  launch : ∀ {w}, fit w → ∀ owner, Still ledger fit w (s.launch owner w).2
  hasExited : ∀ {w}, fit w → ∀ handle, Still ledger fit w (s.hasExited handle w).2.2
  wait : ∀ {w}, fit w → ∀ millis, Still ledger fit w (s.wait millis w)
  leave : ∀ {w}, fit w → ∀ time, Still ledger fit w (s.leave time w)

/-! ### Courses -/

/-- An attempt that found no server. -/
def absent (reason : String) : Event := .sent (some (.error (.unreachable reason)))

/-- What a client does after such an attempt before it waits: the first time it launches a server,
from then on it looks and finds the server running. -/
def afterAbsent (owner : Nat) (launched : Bool) : Event :=
  if launched then .looked false else .launched owner

/-- How a call can go: whether a server was launched before, the ledger before, what the client
does, how the call ends if it has ended, and the ledger after. -/
inductive Course (c : ClientConfig) (s : Surroundings ω η) (e : Endpoint) (call : BuildCall) :
    (launched : Bool) → List BuildCall → List Event → Option (Except CallError BuildResult) →
      List BuildCall → Prop
  /-- The next attempt has not begun. -/
  | underway {launched : Bool} {calls : List BuildCall} :
    Course c s e call launched calls [] none calls
  /-- The deadline comes during an attempt. -/
  | late {launched : Bool} {calls calls' : List BuildCall} {answer : Except CallError BuildResult}
    {millis : Nat} (hattempt : Attempt call calls e answer calls')
    (hlimit : limit? c = some millis) :
    Course c s e call launched calls [.sent none] (some (.error (.timeout millis))) calls'
  /-- An attempt finds a server, or fails otherwise. -/
  | answered {launched : Bool} {calls calls' : List BuildCall}
    {answer : Except CallError BuildResult}
    (hattempt : Attempt call calls e answer calls')
    (hfinal : ∀ reason, answer ≠ .error (.unreachable reason)) :
    Course c s e call launched calls [.sent (some answer)] (some answer) calls'
  /-- No server can be launched. -/
  | unlaunched {calls calls' : List BuildCall} {reason : String} {cause : CallError} {w w' : ω}
    (hattempt : Attempt call calls e (.error (.unreachable reason)) calls')
    (hlaunch : s.launch e.owner w = (.error cause, w')) :
    Course c s e call false calls [absent reason, .launched e.owner] (some (.error cause)) calls'
  /-- The launched server has exited. -/
  | exited {calls calls' : List BuildCall} {reason : String}
    (hattempt : Attempt call calls e (.error (.unreachable reason)) calls') :
    Course c s e call true calls [absent reason, .looked true]
      (some (.error (exitedEarly e))) calls'
  /-- The deadline comes while the client waits. -/
  | expired {launched : Bool} {calls calls' : List BuildCall} {reason : String}
    {waited millis : Nat}
    (hattempt : Attempt call calls e (.error (.unreachable reason)) calls')
    (hlimit : limit? c = some millis) :
    Course c s e call launched calls
      [absent reason, afterAbsent e.owner launched, .waited waited]
      (some (.error (.timeout millis))) calls'
  /-- Another attempt follows. -/
  | next {launched : Bool} {calls calls' calls'' : List BuildCall} {reason : String} {waited : Nat}
    {events : List Event} {result : Option (Except CallError BuildResult)}
    (hattempt : Attempt call calls e (.error (.unreachable reason)) calls')
    (hrest : Course c s e call true calls' events result calls'') :
    Course c s e call launched calls
      (absent reason :: afterAbsent e.owner launched :: .waited waited :: events) result calls''

/-! ### Rounds -/

section Rounds

variable {c : ClientConfig} {s : Surroundings ω η} {e : Endpoint} {call : BuildCall}
  {ledger : ω → List BuildCall} {fit : ω → Prop} {start : Nat} {w : ω}

/-- How a call that has ended was answered. -/
def Round.result? (r : Round ω η) : Option (Except CallError BuildResult) := r.run?.map Run.result

/-- A call that has ended. -/
theorem Round.of_run? {r : Round ω η} {run : Run ω} (h : r.run? = some run) :
    r.events = run.events ∧ r.result? = some run.result := by
  cases r with
  | ended run' =>
    obtain rfl := Option.some.inj h
    exact ⟨rfl, rfl⟩
  | goesOn => cases h

/-- A round whose attempt found no server, and the rounds after it. -/
theorem course_prepend {launched : Bool} {calls calls' : List BuildCall} {reason : String}
    {waited : Nat} {r : Round ω η}
    (hattempt : Attempt call calls e (.error (.unreachable reason)) calls')
    (hrest : Course c s e call true calls' r.events r.result? (ledger r.after)) :
    let r' := r.prepend [absent reason, afterAbsent e.owner launched, .waited waited]
    Course c s e call launched calls r'.events r'.result? (ledger r'.after) := by
  cases r <;> exact .next hattempt hrest

/-- A limit is a timeout that is set and not zero. -/
theorem limit?_eq_some {millis : Nat} (h : limit? c = some millis) :
    c.timeout = some millis ∧ millis ≠ 0 := by
  simpa [limit?, Option.filter_eq_some_iff] using h

/-- A wait that is over ends the call at the limit. -/
theorem over?_eq_some {now : Nat} {cause : CallError} (h : over? c start now = some cause) :
    ∃ millis, limit? c = some millis ∧ cause = .timeout millis := by
  rw [over?] at h
  split at h
  next limit hlimit =>
    split at h
    · exact ⟨limit, hlimit, (Option.some.inj h).symm⟩
    · cases h
  next => cases h

/-- An attempt that is late ends the call at the limit. -/
theorem late?_eq_some {now deadline : Nat} {cause : CallError}
    (h : late? c start now = some (cause, deadline)) :
    ∃ millis, limit? c = some millis ∧ cause = .timeout millis := by
  rw [late?] at h
  split at h
  next limit hlimit =>
    split at h
    · obtain ⟨rfl, -⟩ := Prod.mk.inj (Option.some.inj h)
      exact ⟨limit, hlimit, rfl⟩
    · cases h
  next => cases h

/-- What follows an attempt that found no server, up to the next one. -/
inductive Retried (c : ClientConfig) (s : Surroundings ω η) (e : Endpoint)
    (ledger : ω → List BuildCall) (fit : ω → Prop) (w : ω) : Option η → Round ω η → Prop
  | unlaunched {cause : CallError} {w' : ω} (hlaunch : s.launch e.owner w = (.error cause, w'))
    (hstill : Still ledger fit w w') :
    Retried c s e ledger fit w none (.ended ⟨.error cause, [.launched e.owner], w'⟩)
  | exited {handle : η} {w' : ω} (hstill : Still ledger fit w w') :
    Retried c s e ledger fit w (some handle)
      (.ended ⟨.error (exitedEarly e), [.looked true], w'⟩)
  | expired {launched : Option η} {millis waited : Nat} {w' : ω} (hlimit : limit? c = some millis)
    (hstill : Still ledger fit w w') :
    Retried c s e ledger fit w launched (.ended ⟨.error (.timeout millis),
      [afterAbsent e.owner launched.isSome, .waited waited], w'⟩)
  | goesOn {launched : Option η} {waited : Nat} {handle : η} {w' : ω}
    (hstill : Still ledger fit w w') :
    Retried c s e ledger fit w launched
      (.goesOn [afterAbsent e.owner launched.isSome, .waited waited] (some handle) w')

/-- A pause ends at the deadline, or before the next attempt. -/
theorem retried_pause (h : Faithful s ledger fit) {launched : Option η} {w' : ω}
    (hstill : Still ledger fit w w') (millis : Nat) (handle : η) :
    Retried c s e ledger fit w launched
      ((pause c s start millis handle w').prepend [afterAbsent e.owner launched.isSome]) := by
  rw [pause]
  generalize bounded c start (s.now w') millis = waited
  have hwait : Still ledger fit w (s.wait waited w') :=
    let hstill' := h.wait hstill.2 waited
    ⟨hstill'.1.trans hstill.1, hstill'.2⟩
  split
  next cause hover =>
    obtain ⟨limit, hlimit, rfl⟩ := over?_eq_some hover
    exact .expired hlimit hwait
  next => exact .goesOn hwait

/-- After an attempt that found no server, the client launches one or looks at it, and waits. -/
theorem retried_retry (h : Faithful s ledger fit) (hfit : fit w) (launched : Option η) :
    Retried c s e ledger fit w launched (retry c s e start launched w) := by
  cases launched with
  | none =>
    have hstill := h.launch hfit e.owner
    rw [retry]
    rcases hlaunch : s.launch e.owner w with ⟨cause | handle, w'⟩
    · rw [hlaunch] at hstill
      exact .unlaunched hlaunch hstill
    · rw [hlaunch] at hstill
      exact retried_pause h hstill c.launchDelay handle
  | some handle =>
    have hstill := h.hasExited hfit handle
    rw [retry]
    rcases hexited : s.hasExited handle w with ⟨_ | _, handle', w'⟩
    · rw [hexited] at hstill
      exact retried_pause h hstill c.pollInterval handle'
    · rw [hexited] at hstill
      exact .exited hstill

/-- A round in which the deadline comes during the attempt. -/
theorem round_of_late {launched : Option η} {answer : Except CallError BuildResult} {w' : ω}
    {cause : CallError} {deadline : Nat} (hsend : s.send e call w = (answer, w'))
    (hlate : late? c start (s.now w') = some (cause, deadline)) :
    round c s e call start launched w =
      .ended ⟨.error cause, [.sent none], s.leave deadline w'⟩ := by
  simp only [round, hsend, hlate]

/-- A round whose attempt found no server. -/
theorem round_of_absent {launched : Option η} {reason : String} {w' : ω}
    (hsend : s.send e call w = (.error (.unreachable reason), w'))
    (hintime : late? c start (s.now w') = none) :
    round c s e call start launched w =
      (retry c s e start launched w').prepend [absent reason] := by
  simp only [round, hsend, hintime, absent]

/-- A round whose attempt ends the call. -/
theorem round_of_final {launched : Option η} {answer : Except CallError BuildResult} {w' : ω}
    (hsend : s.send e call w = (answer, w')) (hintime : late? c start (s.now w') = none)
    (hfinal : ∀ reason, answer ≠ .error (.unreachable reason)) :
    round c s e call start launched w = .ended ⟨answer, [.sent (some answer)], w'⟩ := by
  simp only [round, hsend, hintime]

/-- **Courses.** Every call takes a course, whether it has ended or not. -/
theorem course_rounds (h : Faithful s ledger fit) (c : ClientConfig) (e : Endpoint)
    (call : BuildCall) (start n : Nat) (launched : Option η) (hfit : fit w) :
    let r := rounds c s e call start n launched w
    Course c s e call launched.isSome (ledger w) r.events r.result? (ledger r.after) := by
  induction n generalizing launched w with
  | zero => exact .underway
  | succ n ih =>
    obtain ⟨hattempt, hsent⟩ := h.send hfit e call
    dsimp only
    rw [rounds]
    rcases hsend : s.send e call w with ⟨answer, w'⟩
    rw [hsend] at hattempt hsent
    cases hlate : late? c start (s.now w') with
    | some late =>
      obtain ⟨cause, deadline⟩ := late
      obtain ⟨millis, hlimit, rfl⟩ := late?_eq_some hlate
      rw [round_of_late hsend hlate]
      exact (h.leave hsent deadline).1 ▸ .late hattempt hlimit
    | none =>
      by_cases hfinal : ∀ reason, answer ≠ .error (.unreachable reason)
      · rw [round_of_final hsend hlate hfinal]
        exact .answered hattempt hfinal
      · obtain ⟨reason, rfl⟩ : ∃ reason, answer = .error (.unreachable reason) := by
          simpa using hfinal
        rw [round_of_absent hsend hlate]
        have hretried : Retried c s e ledger fit w' launched (retry c s e start launched w') :=
          retried_retry h hsent launched
        generalize retry c s e start launched w' = r at hretried
        cases hretried with
        | unlaunched hlaunch hstill => exact hstill.1 ▸ .unlaunched hattempt hlaunch
        | exited hstill => exact hstill.1 ▸ .exited hattempt
        | expired hlimit hstill => exact hstill.1 ▸ .expired hattempt hlimit
        | @goesOn _ waited handle w'' hstill =>
          have hrest := ih (some handle) hstill.2
          rw [hstill.1] at hrest
          exact course_prepend hattempt hrest

end Rounds

/-! ### Failures -/

/-- A call that ends because no server can be launched gives back the launcher's own failure. -/
def Run.IsUnlaunched (s : Surroundings ω η) (e : Endpoint) (run : Run ω) : Prop :=
  (∃ reason, run.events = [absent reason, .launched e.owner]) ∧
    ∃ cause w w', s.launch e.owner w = (.error cause, w') ∧ run.result = .error cause

/-- A launch that fails says why no server could be started. It does not say what the client says
itself: that its time is up, that it found no server, or that the server it launched has exited. -/
def SaysWhy (l : Launcher ω η) (e : Endpoint) : Prop :=
  ∀ w cause w', l.launch e.owner w = (.error cause, w') →
    (∀ millis, cause ≠ .timeout millis) ∧ (∀ reason, cause ≠ .unreachable reason) ∧
      cause ≠ exitedEarly e

/-- A call that ends so says nothing that the client says itself, if the launcher says why. -/
theorem Run.IsUnlaunched.own {s : Surroundings ω η} {e : Endpoint} {run : Run ω}
    (h : run.IsUnlaunched s e) (hwhy : SaysWhy s.toLauncher e) :
    run.result ≠ .error (exitedEarly e) ∧ (∀ millis, run.result ≠ .error (.timeout millis)) ∧
      ∀ reason, run.result ≠ .error (.unreachable reason) := by
  obtain ⟨-, cause, w, w', hlaunch, hresult⟩ := h
  obtain ⟨htimeout, habsent, hexited⟩ := hwhy w cause w' hlaunch
  rw [hresult]
  exact ⟨fun h => hexited (Except.error.inj h),
    fun millis h => htimeout millis (Except.error.inj h),
    fun reason h => habsent reason (Except.error.inj h)⟩

/-- How a call can fail: whether a server was launched before, what the client did, and why. -/
inductive Failure (c : ClientConfig) (s : Surroundings ω η) (e : Endpoint) (launched : Bool)
    (events : List Event) : CallError → Prop
  /-- The deadline has come. -/
  | late {millis : Nat} (hlimit : limit? c = some millis) :
    Failure c s e launched events (.timeout millis)
  /-- The last attempt failed. -/
  | sent {cause : CallError} (htimeout : ∀ millis, cause ≠ .timeout millis)
    (hlaunch : ∀ reason, cause ≠ .launch reason)
    (habsent : ∀ reason, cause ≠ .unreachable reason) : Failure c s e launched events cause
  /-- No server can be launched after the first attempt. -/
  | unlaunched {reason : String} {cause : CallError} {w w' : ω} (hfirst : launched = false)
    (hevents : events = [absent reason, .launched e.owner])
    (hlaunch : s.launch e.owner w = (.error cause, w')) : Failure c s e launched events cause
  /-- The launched server has exited, which is not looked at before another attempt found none. -/
  | exited (earlier : List Event) {last : String}
    (hevents : events = earlier ++ [absent last, .looked true])
    (hfirst : launched = false →
      ∃ first between, earlier = absent first :: .launched e.owner :: between) :
    Failure c s e launched events (exitedEarly e)

namespace Failure

variable {c : ClientConfig} {s : Surroundings ω η} {e : Endpoint} {launched : Bool}
  {run : Run ω}

/-- A call that fails in a later round has failed. -/
theorem next {events : List Event} {cause : CallError} {reason : String} {waited : Nat}
    (h : Failure c s e true events cause) :
    Failure c s e launched
      (absent reason :: afterAbsent e.owner launched :: .waited waited :: events) cause := by
  cases h with
  | late hlimit => exact .late hlimit
  | sent htimeout hlaunch habsent => exact .sent htimeout hlaunch habsent
  | unlaunched hfirst => cases hfirst
  | exited earlier hevents =>
    rw [hevents]
    refine .exited (_ :: _ :: _ :: earlier) rfl ?_
    rintro rfl
    exact ⟨_, _, rfl⟩

/-- A launched server that has exited was seen to have done so. -/
theorem seen (h : Failure c s e false run.events (exitedEarly e))
    (hresult : run.result = .error (exitedEarly e)) (hlaunched : ¬ run.IsUnlaunched s e) :
    ∃ first between last, run.events =
      absent first :: .launched e.owner :: (between ++ [absent last, .looked true]) := by
  cases h with
  | sent _ hlaunch => exact absurd rfl (hlaunch _)
  | unlaunched _ hevents hlaunch =>
    exact absurd ⟨⟨_, hevents⟩, _, _, _, hlaunch, hresult⟩ hlaunched
  | @exited _ last hevents hfirst =>
    obtain ⟨first, between, rfl⟩ := hfirst rfl
    exact ⟨first, between, last, hevents⟩

/-- A call that gives up for the time has a limit. -/
theorem limited {millis : Nat} (h : Failure c s e launched run.events (.timeout millis))
    (hresult : run.result = .error (.timeout millis)) (hlaunched : ¬ run.IsUnlaunched s e) :
    limit? c = some millis := by
  cases h with
  | late hlimit => exact hlimit
  | sent htimeout => exact absurd rfl (htimeout millis)
  | unlaunched _ hevents hlaunch =>
    exact absurd ⟨⟨_, hevents⟩, _, _, _, hlaunch, hresult⟩ hlaunched

/-- That no server was found is no reason to give up. -/
theorem unlaunched_of_unreachable {reason : String}
    (h : Failure c s e launched run.events (.unreachable reason))
    (hresult : run.result = .error (.unreachable reason)) : run.IsUnlaunched s e := by
  cases h with
  | sent _ _ habsent => exact absurd rfl (habsent reason)
  | unlaunched _ hevents hlaunch => exact ⟨⟨_, hevents⟩, _, _, _, hlaunch, hresult⟩

end Failure

/-! ### What a course says -/

namespace Course

variable {c : ClientConfig} {s : Surroundings ω η} {e : Endpoint} {call : BuildCall}
  {launched : Bool} {calls calls' : List BuildCall} {events after : List Event}
  {result : Option (Except CallError BuildResult)}

/-- Once a server was launched, there is no other launch. -/
theorem not_mem_launched (h : Course c s e call true calls events result calls') (owner : Nat) :
    .launched owner ∉ events := by
  generalize hlaunched : true = launched at h
  induction h with
  | underway | late | answered | exited => simp [absent]
  | unlaunched => cases hlaunched
  | expired => simp [absent, afterAbsent, ← hlaunched]
  | next _ _ ih => simpa [absent, afterAbsent, ← hlaunched] using ih rfl

/-- There is one launch at most, right after the first attempt, and only if that found no server. -/
theorem launches (h : Course c s e call false calls events result calls') :
    (∀ owner, .launched owner ∉ events) ∨
      ∃ reason rest, events = absent reason :: .launched e.owner :: rest ∧
        ∀ owner, .launched owner ∉ rest := by
  cases h with
  | underway | late | answered => exact .inl fun owner => by simp
  | unlaunched => exact .inr ⟨_, [], rfl, fun owner => List.not_mem_nil⟩
  | expired => exact .inr ⟨_, _, rfl, fun owner => by simp⟩
  | next _ hrest =>
    refine .inr ⟨_, _, rfl, fun owner => ?_⟩
    simpa using hrest.not_mem_launched owner

/-- An attempt is made at the beginning of a round, or in a later round. -/
theorem sent_suffix {owner waited : Nat} {reason : String}
    {answer : Option (Except CallError BuildResult)}
    (h : .sent answer :: after <:+
      absent reason :: afterAbsent owner launched :: .waited waited :: events) :
    answer = some (.error (.unreachable reason)) ∨ .sent answer :: after <:+ events := by
  obtain hfirst | hrest := List.suffix_cons_iff.mp h
  · exact .inl (Event.sent.inj (List.cons.inj hfirst).1)
  obtain hsecond | hrest := List.suffix_cons_iff.mp hrest
  · cases launched <;> cases (List.cons.inj hsecond).1
  obtain hthird | hrest := List.suffix_cons_iff.mp hrest
  · cases (List.cons.inj hthird).1
  · exact .inr hrest

/-- An attempt that did not find the server missing is the last, and its answer the result. -/
theorem final (h : Course c s e call launched calls events result calls')
    {answer : Except CallError BuildResult}
    (hfinal : ∀ reason, answer ≠ .error (.unreachable reason))
    (hsuffix : .sent (some answer) :: after <:+ events) : after = [] ∧ result = some answer := by
  induction h with
  | underway => simp at hsuffix
  | late => simp [List.suffix_cons_iff] at hsuffix
  | answered =>
    obtain ⟨rfl, rfl⟩ : answer = _ ∧ after = [] := by simpa [List.suffix_cons_iff] using hsuffix
    exact ⟨rfl, rfl⟩
  | unlaunched | exited => simp [List.suffix_cons_iff, absent, hfinal] at hsuffix
  | expired =>
    obtain hfirst | hrest := sent_suffix hsuffix
    · exact absurd (Option.some.inj hfirst) (hfinal _)
    · simp at hrest
  | next _ _ ih =>
    obtain hfirst | hrest := sent_suffix hsuffix
    · exact absurd (Option.some.inj hfirst) (hfinal _)
    · exact ih hrest

/-- An attempt whose answer is not seen is the last, and the deadline has come. -/
theorem unseen (h : Course c s e call launched calls events result calls')
    (hsuffix : .sent none :: after <:+ events) :
    after = [] ∧ ∃ millis, result = some (.error (.timeout millis)) := by
  induction h with
  | underway => simp at hsuffix
  | late =>
    obtain rfl : after = [] := by simpa [List.suffix_cons_iff] using hsuffix
    exact ⟨rfl, _, rfl⟩
  | answered | unlaunched | exited => simp [List.suffix_cons_iff, absent] at hsuffix
  | expired =>
    obtain hfirst | hrest := sent_suffix hsuffix
    · cases hfirst
    · simp at hrest
  | next _ _ ih =>
    obtain hfirst | hrest := sent_suffix hsuffix
    · cases hfirst
    · exact ih hrest

/-- **At most once.** The ledger gets one entry at most. -/
theorem grows (h : Course c s e call launched calls events result calls') :
    calls' = calls ∨ ∃ entry, calls' = calls ++ [entry] := by
  induction h with
  | underway => exact .inl rfl
  | late hattempt | answered hattempt | unlaunched hattempt | exited hattempt | expired hattempt =>
    exact hattempt.calls_grow
  | next hattempt _ ih => rwa [hattempt.calls_of_unreachable] at ih

/-- A call that fails, fails in one of these ways. -/
theorem failure (h : Course c s e call launched calls events result calls') {cause : CallError}
    (hresult : result = some (.error cause)) : Failure c s e launched events cause := by
  induction h with
  | underway => cases hresult
  | late _ hlimit | expired _ hlimit =>
    obtain rfl := Except.error.inj (Option.some.inj hresult)
    exact .late hlimit
  | answered hattempt hfinal =>
    obtain rfl := Option.some.inj hresult
    obtain ⟨htimeout, hlaunch⟩ := hattempt.not_own
    exact .sent htimeout hlaunch fun reason h => hfinal reason (h ▸ rfl)
  | unlaunched _ hlaunch =>
    obtain rfl := Except.error.inj (Option.some.inj hresult)
    exact .unlaunched rfl rfl hlaunch
  | exited =>
    obtain rfl := Except.error.inj (Option.some.inj hresult)
    exact .exited [] rfl nofun
  | next _ _ ih => exact (ih hresult).next

end Course

end Client

/-! ### Sites -/

namespace Site

variable {τ η : Type} {ledger : τ → List BuildCall} {s : Site τ}

/-- The ledger of the services on a site. -/
def calls (ledger : τ → List BuildCall) (s : Site τ) : List BuildCall := ledger s.state

/-- A site is one of the surroundings in which only attempts reach services, if launching servers
and looking at them reaches none. -/
theorem faithful {launcher : Launcher (Site τ) η}
    (hlaunch : ∀ {s : Site τ}, s.Enters ledger → ∀ owner,
      Client.Still (calls ledger) (Enters ledger) s (launcher.launch owner s).2)
    (hexited : ∀ {s : Site τ}, s.Enters ledger → ∀ handle,
      Client.Still (calls ledger) (Enters ledger) s (launcher.hasExited handle s).2.2) :
    Client.Faithful (surroundings launcher) (calls ledger) (Enters ledger) where
  send {s} h e call := by
    refine ⟨attempt_send h e call, ?_⟩
    change ∀ entry ∈ (s.send e call).2.servers, _
    rw [servers_send]
    exact h
  launch := hlaunch
  hasExited := hexited
  wait h _ := ⟨rfl, h⟩
  leave h _ := ⟨rfl, h⟩

/-- A server that is started keeps the ledger, if its service enters its calls there. -/
theorem Enters.open (h : s.Enters ledger) (server : Server)
    {service : (number : Nat) → Service (τ × Host)}
    (hservice : ∀ number, (service number).Enters fun x => ledger x.1) :
    Client.Still (calls ledger) (Enters ledger) s (s.open server service).2.2 := by
  rw [Site.open]
  split
  · exact ⟨rfl, h⟩
  · refine ⟨rfl, fun entry hentry => ?_⟩
    dsimp only at hentry
    split at hentry
    next number _ =>
      obtain rfl | hold := List.mem_cons.mp hentry
      · exact hservice number
      · exact h entry hold
    next => exact h entry hentry

/-- Servers on threads of the calling process. -/
theorem faithful_threads (t : Transport) {service : (number : Nat) → Service (τ × Host)}
    (hservice : ∀ number, (service number).Enters fun x => ledger x.1) :
    Client.Faithful (surroundings (threads t service)) (calls ledger) (Enters ledger) := by
  refine faithful (fun {s} h owner => ?_) fun h _ => ⟨rfl, h⟩
  have hopen := h.open { owner, transport := t } hservice
  rw [threads]
  dsimp only
  split <;> rename_i hresult <;> rwa [hresult] at hopen

/-- Launching a server on a thread does not fail. -/
theorem saysWhy_threads (t : Transport) (service : (number : Nat) → Service (τ × Host))
    (e : Endpoint) : Client.SaysWhy (threads t service) e := by
  intro s cause s' hlaunch
  rw [threads] at hlaunch
  dsimp only at hlaunch
  split at hlaunch <;> exact absurd (congrArg Prod.fst hlaunch) (by simp)

/-- Servers as processes of their own. -/
theorem faithful_spawning (runner : Runner) (program : Path) (args : List String) :
    Client.Faithful (surroundings (spawning runner program args)) (calls ledger)
      (Enters ledger) := by
  refine faithful (fun {s} h owner => ?_) fun h _ => ⟨rfl, h⟩
  rw [spawning]
  dsimp only
  split
  · exact ⟨rfl, h⟩
  · exact ⟨rfl, h⟩

/-- A process that could not be started is not one that has exited. -/
theorem saysWhy_spawning (runner : Runner) (program : Path) (args : List String) (e : Endpoint) :
    Client.SaysWhy (spawning (τ := τ) runner program args) e := by
  intro s cause s' hlaunch
  rw [spawning] at hlaunch
  dsimp only at hlaunch
  split at hlaunch
  · obtain ⟨hcause, -⟩ := Prod.mk.inj hlaunch
    rw [← Except.error.inj hcause]
    refine ⟨nofun, nofun, fun h => ?_⟩
    -- The two texts begin differently.
    have hfirst := congrArg (·.toList.head?) (CallError.launch.inj h)
    have hspawn : (toString "Failed to spawn '").toList.head? = some 'F' := by decide
    have hserver : (toString "server for owner ").toList.head? = some 's' := by decide
    simp [String.toList_append, hspawn, hserver] at hfirst
  · exact absurd (congrArg Prod.fst hlaunch) (by simp)

end Site

/-! ### Calls -/

namespace Client

/-- **Once.** Whatever becomes of the attempts, the launch, the server that is launched and the
time, and whether the call has ended or not: a server is launched once at most, right after the
first attempt, and only if that found no server. After an attempt that found one there is no
other, and its answer is the result. A call says that the launched server has exited only if a later
attempt found no server either and the server was seen to have exited, gives up for the time only at
a limit that is set and not zero, and never gives back that no server was found; unless the launch
itself fails and the launcher's failures may say so. And the call reaches a service once at
most. -/
theorem calls_once {s : Surroundings ω η} {ledger : ω → List BuildCall} {fit : ω → Prop}
    (h : Faithful s ledger fit) (c : ClientConfig) (n owner : Nat) (call : BuildCall) {w : ω}
    (hfit : fit w) :
    let e := Endpoint.ofOwner c.transport owner
    let r := callRounds c s n owner call w
    ((∀ owner, .launched owner ∉ r.events) ∨
      ∃ reason rest,
        r.events = .sent (some (.error (.unreachable reason))) :: .launched owner :: rest ∧
        ∀ owner, .launched owner ∉ rest) ∧
    (∀ before answer after, r.events = before ++ .sent (some answer) :: after →
      (∀ reason, answer ≠ .error (.unreachable reason)) →
      after = [] ∧ ∃ run, tryBuild c s n owner call w = some run ∧ run.result = answer) ∧
    (∀ before after, r.events = before ++ .sent none :: after →
      after = [] ∧ ∃ run millis, tryBuild c s n owner call w = some run ∧
        run.result = .error (.timeout millis)) ∧
    (∀ run, tryBuild c s n owner call w = some run →
      run.IsUnlaunched s e ∧ ¬ SaysWhy s.toLauncher e ∨
      (run.result = .error (exitedEarly e) → ∃ first between last,
        run.events = .sent (some (.error (.unreachable first))) :: .launched owner ::
          (between ++ [.sent (some (.error (.unreachable last))), .looked true])) ∧
      (∀ millis, run.result = .error (.timeout millis) → c.timeout = some millis ∧ millis ≠ 0) ∧
      ∀ reason, run.result ≠ .error (.unreachable reason)) ∧
    (ledger r.after = ledger w ∨ ∃ entry, ledger r.after = ledger w ++ [entry]) := by
  intro e r
  have hcourse : Course c s e call false (ledger w) r.events r.result? (ledger r.after) :=
    course_rounds h c e call (s.now w) n none hfit
  have howner : e.owner = owner := Endpoint.owner_ofOwner c.transport owner
  have hended {answer : Except CallError BuildResult} (hresult : r.result? = some answer) :
      ∃ run, tryBuild c s n owner call w = some run ∧ run.result = answer :=
    Option.map_eq_some_iff.mp hresult
  refine ⟨?_, ?_, ?_, ?_, hcourse.grows⟩
  · have hlaunches := hcourse.launches
    rwa [howner] at hlaunches
  · intro before answer after hevents hfinal
    obtain ⟨rfl, hresult⟩ := hcourse.final hfinal ⟨before, hevents.symm⟩
    exact ⟨rfl, hended hresult⟩
  · intro before after hevents
    obtain ⟨rfl, millis, hresult⟩ := hcourse.unseen ⟨before, hevents.symm⟩
    obtain ⟨run, hrun, hanswer⟩ := hended hresult
    exact ⟨rfl, run, millis, hrun, hanswer⟩
  · intro run hrun
    obtain ⟨hevents, hresult⟩ := Round.of_run? hrun
    rw [hevents, hresult] at hcourse
    have hfailure {cause : CallError} (h : run.result = .error cause) :
        Failure c s e false run.events cause :=
      hcourse.failure (congrArg some h)
    by_cases hlaunched : run.IsUnlaunched s e
    · by_cases hwhy : SaysWhy s.toLauncher e
      · obtain ⟨hexited, htimeout, habsent⟩ := hlaunched.own hwhy
        exact .inr ⟨fun h => absurd h hexited, fun millis h => absurd h (htimeout millis), habsent⟩
      · exact .inl ⟨hlaunched, hwhy⟩
    refine .inr ⟨?_, ?_, ?_⟩
    · intro hexited
      rw [← howner]
      exact (hfailure hexited).seen hexited hlaunched
    · intro millis htimeout
      exact limit?_eq_some ((hfailure htimeout).limited htimeout hlaunched)
    · intro reason habsent
      exact hlaunched ((hfailure habsent).unlaunched_of_unreachable habsent)

end Client

/-! ### A server on a thread -/

namespace Launched

/-- A service with its ledger. -/
def service : Service ((List BuildCall × Nat) × Host) := Service.echo.recorded.beside

/-- A site without servers. -/
def site : Site (List BuildCall × Nat) := { host := {}, state := ([], 0) }

/-- A client on it launches servers on threads. -/
def surroundings : Surroundings (Site (List BuildCall × Nat)) Bool :=
  Site.surroundings (Site.threads {} fun _ => service)

/-- A call. -/
def call : BuildCall := { project := "/p", options := { output := "Game.dll" } }

/-- What the service answers. -/
def result : BuildResult := { succeeded := true, warnings := ["/p: Game.dll #1"] }

/-- The cause for which the first attempt finds no server. -/
def reason : String :=
  "unix://localhost/kiln.build/0 (/tmp/kiln.build/0.sock): No such file or directory (os error 2)"

/-- What the client does before it is answered: it launches a server and waits. -/
def before : List Client.Event :=
  [.sent (some (.error (.unreachable reason))), .launched 0, .waited 1000]

/-- The second attempt is answered. -/
theorem events_callRounds : (Client.callRounds {} surroundings 2 0 call site).events =
    before ++ .sent (some (.ok result)) :: [] := by
  decide +kernel

/-- The service is called. -/
theorem calls_callRounds :
    Site.calls Prod.fst (Client.callRounds {} surroundings 2 0 call site).after ≠
      Site.calls Prod.fst site := by
  decide +kernel

/-- The surroundings of the client are such. -/
theorem faithful_surroundings :
    Client.Faithful surroundings (Site.calls Prod.fst) (Site.Enters Prod.fst) :=
  Site.faithful_threads {} fun _ => Service.echo.recorded_enters.beside

/-- One server is launched, the answer of the second attempt is the result, the client does not give
back that it found no server, and the service is called once. -/
theorem called_once :
    (∃ reason rest, (Client.callRounds {} surroundings 2 0 call site).events =
        .sent (some (.error (.unreachable reason))) :: .launched 0 :: rest ∧
      ∀ owner, .launched owner ∉ rest) ∧
    (∃ run, Client.tryBuild {} surroundings 2 0 call site = some run ∧ run.result = .ok result) ∧
    (∀ run, Client.tryBuild {} surroundings 2 0 call site = some run →
      ∀ reason, run.result ≠ .error (.unreachable reason)) ∧
    ∃ entry, Site.calls Prod.fst (Client.callRounds {} surroundings 2 0 call site).after =
      Site.calls Prod.fst site ++ [entry] := by
  have hsite : site.Enters Prod.fst := fun _ h => nomatch h
  obtain ⟨hlaunches, hfinal, -, hends, hledger⟩ :=
    Client.calls_once faithful_surroundings {} 2 0 call hsite
  refine ⟨hlaunches.resolve_left fun hnone => hnone 0 ?_, ?_, fun run hrun => ?_,
    hledger.resolve_left calls_callRounds⟩
  · rw [events_callRounds, before]
    simp
  · exact (hfinal before (.ok result) [] events_callRounds nofun).2
  · have hwhy := Site.saysWhy_threads {} (fun _ => service) (Endpoint.ofOwner {} 0)
    exact ((hends run hrun).resolve_left fun hunlaunched => hunlaunched.2 hwhy).2.2

end Launched

end IncrementalBuild
