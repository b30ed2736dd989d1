import IncrementalBuild.Proofs.Run
import IncrementalBuild.Proofs.Text.Map
import IncrementalBuild.Registry
import Mathlib.Data.List.GetD
/-!
# A registry and one compiler for each output

A registry answers a sequence of calls as if there were a compiler of its own for each output,
which is given the calls for that output since the project last changed. A crash shuts an output
until then, and no call reaches the state of another output.

## Main definitions

* `Registry.Call`, `Registry.after` — a call in the world of its moment, and the registry that
  calls lead to.
* `Registry.requests` — the calls for an output since the project last changed.
* `OutputState.replay`, `OutputState.crashedIn` — one compiler that is given calls.
* `Registry.Serves` — a registry in line with the calls that it was given.

## Main results

* `Registry.Serves.build` — one more call leaves a registry in line.
* `Registry.refines_compilers` — what a registry holds and answers after any calls.
-/

namespace IncrementalBuild

variable {σ ρ φ υ : Type}

/-- A call of a registry, with the world that it meets. -/
structure Registry.Call (σ : Type) where
  project : String
  options : BuildOptions
  world : World σ

/-! ### One compiler -/

/-- Whether a build crashed. -/
def Outcome.crashed (out : Outcome σ ρ φ υ) : Bool :=
  match out.result with
  | .error .crash => true
  | _ => false

namespace OutputState

/-- The state of a compiler that is given calls, the last one first. -/
def replay (t : Toolchain σ ρ φ υ) : List (Registry.Call σ) → OutputState ρ φ υ
  | [] => {}
  | c :: earlier => ((replay t earlier).build t c.options c.world).state

/-- Whether one of the calls that a compiler is given crashes. -/
def crashedIn (t : Toolchain σ ρ φ υ) : List (Registry.Call σ) → Bool
  | [] => false
  | c :: earlier =>
    crashedIn t earlier || ((replay t earlier).build t c.options c.world).crashed

/-- How a compiler that was given calls answers one more: as poisoned, once a call crashed. -/
def answer (t : Toolchain σ ρ φ υ) (c : Registry.Call σ) (earlier : List (Registry.Call σ)) :
    Except Failure BuildResult × World σ :=
  if crashedIn t earlier then (.error (.error Registry.poisonCause), c.world)
  else
    (((replay t earlier).build t c.options c.world).result,
      ((replay t earlier).build t c.options c.world).world)

end OutputState

namespace Registry

/-! ### Calls -/

/-- The registry after calls, the last one first. -/
def after (t : Toolchain σ ρ φ υ) : List (Call σ) → Registry ρ φ υ
  | [] => {}
  | c :: earlier => ((after t earlier).build t c.project c.options c.world).2.1

/-- The calls among earlier ones that came for a project since it was last another one. -/
def since (project : String) (earlier : List (Call σ)) : List (Call σ) :=
  earlier.takeWhile fun c => c.project == project

/-- The calls since the project last changed. -/
def current : List (Call σ) → List (Call σ)
  | [] => []
  | c :: earlier => c :: since c.project earlier

/-- The calls for an output. -/
def callsFor (output : String) (calls : List (Call σ)) : List (Call σ) :=
  calls.filter fun c => c.options.output == output

/-- The calls for an output since the project last changed. -/
def requests (output : String) (calls : List (Call σ)) : List (Call σ) :=
  callsFor output (current calls)

/-- The calls before `c` that built in the state that `c` builds in. -/
def priors (c : Call σ) (earlier : List (Call σ)) : List (Call σ) :=
  callsFor c.options.output (since c.project earlier)

section Calls

variable {c : Call σ} {earlier : List (Call σ)} {output : String}

/-- The requests for the output of the last call end with it. -/
theorem requests_cons_self (c : Call σ) (earlier : List (Call σ)) :
    requests c.options.output (c :: earlier) = c :: priors c earlier := by
  simp [requests, current, callsFor, priors]

/-- The last call is no request for another output. -/
theorem callsFor_cons_other (h : output ≠ c.options.output) (calls : List (Call σ)) :
    callsFor output (c :: calls) = callsFor output calls := by
  rw [callsFor, List.filter_cons_of_neg, callsFor]
  simpa using h.symm

/-- Calls for the project of the call before them are all that came since it last changed. -/
theorem since_of_head? (h : earlier.head?.map Call.project = some c.project) :
    since c.project earlier = current earlier := by
  cases earlier with
  | nil => exact absurd h (by simp)
  | cons d rest =>
      have hd : d.project = c.project := Option.some.inj h
      rw [since, List.takeWhile_cons_of_pos (by simpa using hd), current, since, hd]

/-- No call came for a project since the last call came for another one. -/
theorem since_of_head?_ne (h : earlier.head?.map Call.project ≠ some c.project) :
    since c.project earlier = [] := by
  cases earlier with
  | nil => rfl
  | cons d rest =>
      rw [since, List.takeWhile_cons_of_neg]
      intro hd
      exact h (by simpa using hd)

/-- There are calls for an output when one of the calls asks for it. -/
theorem callsFor_ne_nil_iff {calls : List (Call σ)} :
    callsFor output calls ≠ [] ↔ ∃ c ∈ calls, c.options.output = output := by
  simp [callsFor, List.filter_eq_nil_iff]

end Calls

/-! ### Well-formed tables -/

/-- Every output in the table has a slot of its own, and the table is in order. -/
structure WellFormed (r : Registry ρ φ υ) : Prop where
  bound : ∀ a n, r.table.find? a = some n → n < r.slots.length
  apart : ∀ a b n, r.table.find? a = some n → r.table.find? b = some n → a = b
  sorted : r.table.Sorted

/-- The registry before any call is well-formed. -/
theorem WellFormed.empty : ({} : Registry ρ φ υ).WellFormed :=
  ⟨fun a n h => absurd h (by simp [TextMap.find?]),
    fun a b n h => absurd h (by simp [TextMap.find?]), TextMap.Sorted.empty⟩

section Steps

variable {t : Toolchain σ ρ φ υ} {r : Registry ρ φ υ} {o : BuildOptions} {n : Nat} {w : World σ}

/-- The registry for a project belongs to it. -/
theorem forProject_project (project : String) (r : Registry ρ φ υ) :
    (r.forProject project).project = some project := by
  rw [forProject]
  split
  · assumption
  · rfl

/-- The registry for the project that it belongs to is the registry itself. -/
theorem forProject_of_eq {project : String} (h : r.project = some project) :
    r.forProject project = r := by
  rw [forProject, if_pos h]

/-- The registry for another project has no outputs. -/
theorem forProject_table_of_ne {project : String} (h : r.project ≠ some project) :
    (r.forProject project).table = {} := by
  rw [forProject, if_neg h]

/-- A well-formed registry is so for every project. -/
theorem WellFormed.forProject (h : r.WellFormed) (project : String) :
    (r.forProject project).WellFormed := by
  rw [Registry.forProject]
  split
  · exact h
  · exact ⟨fun a n ha => absurd ha (by simp [TextMap.find?]),
      fun a b n ha => absurd ha (by simp [TextMap.find?]), TextMap.Sorted.empty⟩

/-- **Finding or making a slot.** An output's slot is the one in the table; if it is missing there,
an empty one is made at the end. -/
theorem entry_cases (project output : String) (r : Registry ρ φ υ) :
    (∃ n, (r.forProject project).table.find? output = some n ∧
      r.entry project output = (n, r.forProject project)) ∨
    ((r.forProject project).table.find? output = none ∧
      r.entry project output = ((r.forProject project).slots.length,
        { r.forProject project with
          table := (r.forProject project).table.insert output (r.forProject project).slots.length
          slots := (r.forProject project).slots ++ [{}] })) := by
  rw [entry]
  dsimp only
  split
  · next n hn => exact .inl ⟨n, hn, rfl⟩
  · next hn => exact .inr ⟨hn, rfl⟩

/-- Finding or making a slot is for a project. -/
theorem entry_project (project output : String) (r : Registry ρ φ υ) :
    (r.entry project output).2.project = some project := by
  rcases entry_cases project output r with ⟨n, -, h⟩ | ⟨-, h⟩
  · rw [h, forProject_project]
  · rw [h, forProject_project]

/-- The output has the slot that was found or made; the others have theirs. -/
theorem entry_find? (project output a : String) (r : Registry ρ φ υ) :
    (r.entry project output).2.table.find? a =
      if a = output then some (r.entry project output).1
      else (r.forProject project).table.find? a := by
  rcases entry_cases project output r with ⟨n, hn, h⟩ | ⟨-, h⟩
  · rw [h]
    by_cases ha : a = output
    · rw [if_pos ha, ha, hn]
    · rw [if_neg ha]
  · rw [h, TextMap.find?_insert]

/-- The table has the slot that it gave for an output. -/
theorem entry_find?_self (project output : String) (r : Registry ρ φ υ) :
    (r.entry project output).2.table.find? output = some (r.entry project output).1 := by
  rw [entry_find?, if_pos rfl]

/-- A slot that is made is as one that is not there. -/
theorem entry_slots (project output : String) (n : Nat) (r : Registry ρ φ υ) :
    (r.entry project output).2.slots.getD n {} = (r.forProject project).slots.getD n {} := by
  rcases entry_cases project output r with ⟨m, -, h⟩ | ⟨-, h⟩
  · rw [h]
  · rw [h]
    dsimp only
    rcases Nat.lt_or_ge n (r.forProject project).slots.length with hlt | hge
    · exact List.getD_append _ _ _ _ hlt
    · rw [List.getD_append_right _ _ _ _ hge, List.getD_eq_default _ _ hge]
      rcases n - (r.forProject project).slots.length with _ | k <;> rfl

/-- Finding or making a slot keeps a registry well-formed. -/
theorem WellFormed.entry (h : r.WellFormed) (project output : String) :
    (r.entry project output).2.WellFormed := by
  obtain ⟨hbound, hapart, hsorted⟩ := h.forProject project
  rcases entry_cases project output r with ⟨m, -, hentry⟩ | ⟨-, hentry⟩
  · rw [hentry]
    exact ⟨hbound, hapart, hsorted⟩
  · -- The number of the new slot is above all that are in the table.
    rw [hentry]
    refine ⟨fun a n ha => ?_, fun a b n ha hb => ?_, hsorted.insert _ _⟩
    · rw [TextMap.find?_insert] at ha
      rw [List.length_append, List.length_singleton]
      split at ha
      · obtain rfl := Option.some.inj ha
        exact Nat.lt_succ_self _
      · exact Nat.lt_succ_of_lt (hbound a n ha)
    · rw [TextMap.find?_insert] at ha hb
      split at ha <;> split at hb
      · next ha' hb' => rw [ha', hb']
      · obtain rfl := Option.some.inj ha
        exact absurd (hbound b _ hb) (Nat.lt_irrefl _)
      · obtain rfl := Option.some.inj hb
        exact absurd (hbound a _ ha) (Nat.lt_irrefl _)
      · exact hapart a b n ha hb

end Steps

/-! ### Slots -/

end Registry

/-- A slot in which a request was built. -/
def Slot.build (t : Toolchain σ ρ φ υ) (o : BuildOptions) (w : World σ) (slot : Slot ρ φ υ) :
    Slot ρ φ υ :=
  if slot.poisoned then slot
  else ⟨(slot.state.build t o w).state, (slot.state.build t o w).crashed⟩

/-- A slot in line with the calls that were built in it, the last one first. -/
structure Slot.Serves (t : Toolchain σ ρ φ υ) (calls : List (Registry.Call σ))
    (slot : Slot ρ φ υ) : Prop where
  poisoned : slot.poisoned = OutputState.crashedIn t calls
  state : slot.poisoned = false → slot.state = OutputState.replay t calls

/-- An empty slot is in line with no calls. -/
theorem Slot.Serves.empty (t : Toolchain σ ρ φ υ) : Slot.Serves t [] ({} : Slot ρ φ υ) :=
  ⟨rfl, fun _ => rfl⟩

/-- Building one more call leaves a slot in line. -/
theorem Slot.Serves.build {t : Toolchain σ ρ φ υ} {calls : List (Registry.Call σ)}
    {slot : Slot ρ φ υ} (h : slot.Serves t calls) (c : Registry.Call σ) :
    (slot.build t c.options c.world).Serves t (c :: calls) := by
  rw [Slot.build]
  by_cases hpoisoned : slot.poisoned = true
  · rw [if_pos hpoisoned]
    refine ⟨?_, fun hfalse => absurd (hpoisoned.symm.trans hfalse) (by simp)⟩
    rw [OutputState.crashedIn, ← h.poisoned, hpoisoned, Bool.true_or]
  · have hfalse := Bool.eq_false_iff.mpr hpoisoned
    rw [if_neg hpoisoned]
    refine ⟨?_, fun _ => ?_⟩
    · rw [OutputState.crashedIn, ← h.poisoned, hfalse, Bool.false_or, ← h.state hfalse]
    · rw [OutputState.replay, ← h.state hfalse]

namespace Registry

section BuildAt

variable {t : Toolchain σ ρ φ υ} {r : Registry ρ φ υ} {o : BuildOptions} {n : Nat} {w : World σ}

/-- **Building in a slot** changes that slot only. -/
theorem buildAt_registry (t : Toolchain σ ρ φ υ) (o : BuildOptions) (n : Nat)
    (r : Registry ρ φ υ) (w : World σ) :
    (r.buildAt t o n w).2.1 =
      { r with slots := r.slots.set n ((r.slots.getD n {}).build t o w) } := by
  rw [buildAt, Slot.build]
  dsimp only
  split
  · rcases Nat.lt_or_ge n r.slots.length with hlt | hge
    · rw [List.getD_eq_getElem _ _ hlt, List.set_getElem_self]
    · rw [List.set_eq_of_length_le hge]
  · rfl

/-- A poisoned slot answers so, and nothing is built. -/
theorem buildAt_of_poisoned (h : (r.slots.getD n {}).poisoned = true) :
    (r.buildAt t o n w).1 = .error (.error poisonCause) ∧ (r.buildAt t o n w).2.2 = w := by
  rw [buildAt]
  dsimp only
  rw [if_pos h]
  exact ⟨rfl, rfl⟩

/-- Any other slot answers as its state does. -/
theorem buildAt_of_sound (h : (r.slots.getD n {}).poisoned = false) :
    (r.buildAt t o n w).1 = ((r.slots.getD n {}).state.build t o w).result ∧
      (r.buildAt t o n w).2.2 = ((r.slots.getD n {}).state.build t o w).world := by
  rw [buildAt]
  dsimp only
  rw [if_neg (by rw [h]; exact Bool.false_ne_true)]
  exact ⟨rfl, rfl⟩

/-- Building in a slot keeps a registry well-formed. -/
theorem WellFormed.buildAt (h : r.WellFormed) (t : Toolchain σ ρ φ υ) (o : BuildOptions) (n : Nat)
    (w : World σ) : (r.buildAt t o n w).2.1.WellFormed := by
  rw [buildAt_registry]
  refine ⟨fun a m ha => ?_, h.apart, h.sorted⟩
  rw [List.length_set]
  exact h.bound a m ha

/-- The slots after building in one of them. -/
theorem buildAt_slots (t : Toolchain σ ρ φ υ) (o : BuildOptions) (w : World σ)
    (hn : n < r.slots.length) (m : Nat) :
    (r.buildAt t o n w).2.1.slots.getD m {} =
      if m = n then (r.slots.getD n {}).build t o w else r.slots.getD m {} := by
  rw [buildAt_registry]
  by_cases h : m = n
  · rw [if_pos h, h]
    simp [hn]
  · rw [if_neg h]
    simp [List.getElem?_set_ne (Ne.symm h)]

end BuildAt

/-! ### In line with calls -/

/-- A registry in line with the calls that it was given, the last one first. -/
structure Serves (t : Toolchain σ ρ φ υ) (calls : List (Call σ)) (r : Registry ρ φ υ) : Prop where
  wellFormed : r.WellFormed
  project : r.project = calls.head?.map Call.project
  asked : ∀ output, (r.table.find? output).isSome = true ↔ requests output calls ≠ []
  slot : ∀ output n, r.table.find? output = some n →
    (r.slots.getD n {}).Serves t (requests output calls)

namespace Serves

variable {t : Toolchain σ ρ φ υ} {calls : List (Call σ)} {r : Registry ρ φ υ}

/-- The registry before any call is in line. -/
theorem empty (t : Toolchain σ ρ φ υ) : Serves t [] ({} : Registry ρ φ υ) where
  wellFormed := .empty
  project := rfl
  asked output := by simp [TextMap.find?, requests, current, callsFor]
  slot output n h := absurd h (by simp [TextMap.find?])

/-- A registry for the project of a call has the outputs that were asked for since the project was
last another one, each with a slot in line. -/
theorem forProject (h : Serves t calls r) (c : Call σ) (output : String) :
    (((r.forProject c.project).table.find? output).isSome = true ↔
      callsFor output (since c.project calls) ≠ []) ∧
    ∀ n, (r.forProject c.project).table.find? output = some n →
      ((r.forProject c.project).slots.getD n {}).Serves t
        (callsFor output (since c.project calls)) := by
  by_cases hproject : r.project = some c.project
  · rw [forProject_of_eq hproject, since_of_head? (h.project.symm.trans hproject)]
    exact ⟨h.asked output, h.slot output⟩
  · rw [forProject_table_of_ne hproject,
      since_of_head?_ne fun hhead => hproject (h.project.trans hhead)]
    exact ⟨by simp [TextMap.find?, callsFor], fun n hn => absurd hn (by simp [TextMap.find?])⟩

/-- The slot that a call builds in is in line with the calls before it that built there. -/
theorem entry (h : Serves t calls r) (c : Call σ) :
    ((r.entry c.project c.options.output).2.slots.getD
      (r.entry c.project c.options.output).1 {}).Serves t (priors c calls) := by
  obtain ⟨hasked, hslot⟩ := h.forProject c c.options.output
  rw [entry_slots]
  rcases entry_cases c.project c.options.output r with ⟨n, hn, hentry⟩ | ⟨hnone, hentry⟩
  · rw [hentry]
    exact hslot n hn
  · have hnil : priors c calls = [] := by
      rw [hnone] at hasked
      rw [priors]
      simpa using hasked
    rw [hentry, hnil, List.getD_eq_default _ _ (Nat.le_refl _)]
    exact Slot.Serves.empty t

/-- **Step.** One more call leaves a registry in line. -/
theorem build (h : Serves t calls r) (c : Call σ) :
    Serves t (c :: calls) (r.build t c.project c.options c.world).2.1 := by
  have hwell := h.wellFormed.entry c.project c.options.output
  have hfound := entry_find?_self c.project c.options.output r
  have hlt := hwell.bound _ _ hfound
  rw [Registry.build]
  refine ⟨hwell.buildAt t _ _ _, ?_, fun output => ?_, fun output n hn => ?_⟩
  · rw [buildAt_registry]
    exact entry_project _ _ _
  · rw [buildAt_registry]
    dsimp only
    rw [entry_find?]
    by_cases ho : output = c.options.output
    · rw [if_pos ho, ho, requests_cons_self]
      simp
    · rw [if_neg ho, requests, current, callsFor_cons_other ho]
      exact (h.forProject c output).1
  · rw [buildAt_slots t _ _ hlt]
    rw [buildAt_registry] at hn
    by_cases ho : output = c.options.output
    · obtain rfl : n = (r.entry c.project c.options.output).1 := by
        rw [ho] at hn
        exact Option.some.inj (hn.symm.trans hfound)
      rw [if_pos rfl, ho, requests_cons_self]
      exact (h.entry c).build c
    · -- Another output has another slot, which is as it was.
      have hne : n ≠ (r.entry c.project c.options.output).1 := by
        rintro rfl
        exact ho (hwell.apart _ _ _ hn hfound)
      rw [if_neg hne, entry_slots, requests, current, callsFor_cons_other ho]
      refine (h.forProject c output).2 n ?_
      have hn' := entry_find? c.project c.options.output output r
      rw [if_neg ho] at hn'
      exact hn'.symm.trans hn

/-- What a registry in line shows of an output. -/
theorem inspect_eq (h : Serves t calls r) (output : String) :
    r.inspect output =
      if (requests output calls).isEmpty then .ok none
      else if OutputState.crashedIn t (requests output calls) then .error poisonCause
      else .ok (some (OutputState.replay t (requests output calls))) := by
  have hasked := h.asked output
  rw [inspect]
  split
  · next hnone =>
      rw [hnone] at hasked
      have hnil : requests output calls = [] := by simpa using hasked
      rw [hnil]
      rfl
  · next n hn =>
      rw [hn] at hasked
      have hne : ¬ (requests output calls).isEmpty = true := by simpa using hasked
      have hslot := h.slot output n hn
      dsimp only
      rw [if_neg hne, hslot.poisoned]
      by_cases hcrashed : OutputState.crashedIn t (requests output calls) = true
      · rw [if_pos hcrashed, if_pos hcrashed]
      · rw [if_neg hcrashed, if_neg hcrashed, hslot.state]
        rw [hslot.poisoned]
        exact Bool.eq_false_iff.mpr hcrashed

/-- How a registry in line answers a call. -/
theorem answer_eq (h : Serves t calls r) (c : Call σ) :
    ((r.build t c.project c.options c.world).1, (r.build t c.project c.options c.world).2.2) =
      OutputState.answer t c (priors c calls) := by
  have hentry := h.entry c
  rw [Registry.build, OutputState.answer, ← hentry.poisoned]
  dsimp only
  by_cases hpoisoned : ((r.entry c.project c.options.output).2.slots.getD
      (r.entry c.project c.options.output).1 {}).poisoned = true
  · obtain ⟨hresult, hworld⟩ :=
      buildAt_of_poisoned (t := t) (o := c.options) (w := c.world) hpoisoned
    rw [if_pos hpoisoned, hresult, hworld]
  · have hfalse := Bool.eq_false_iff.mpr hpoisoned
    obtain ⟨hresult, hworld⟩ := buildAt_of_sound (t := t) (o := c.options) (w := c.world) hfalse
    rw [if_neg hpoisoned, hresult, hworld, hentry.state hfalse]

end Serves

/-- **Run.** A registry is in line with any calls. -/
theorem serves_after (t : Toolchain σ ρ φ υ) (calls : List (Call σ)) :
    Serves t calls (after t calls : Registry ρ φ υ) := by
  induction calls with
  | nil => exact .empty t
  | cons c earlier ih => exact ih.build c

/-- **One compiler for each output.** After any calls, whatever came of them, a registry belongs to
the project of the last one and has exactly the outputs that were asked for since the project last
changed. Each shows the state of a compiler that was given the calls for it since then, unless one
of them crashed. A call is answered as that compiler answers it, or as poisoned once a call for the
output crashed; if it comes from another project than the one before, its compiler is new. Nothing
changes for the project's other outputs. -/
theorem refines_compilers (t : Toolchain σ ρ φ υ) (c : Call σ) (earlier : List (Call σ)) :
    (after t (c :: earlier)).project = some c.project ∧
      (after t (c :: earlier)).table.keys.Nodup ∧
      (∀ output, output ∈ (after t (c :: earlier)).table.keys ↔
        ∃ d ∈ current (c :: earlier), d.options.output = output) ∧
      (∀ output, (after t (c :: earlier)).inspect output =
        if (requests output (c :: earlier)).isEmpty then .ok none
        else if OutputState.crashedIn t (requests output (c :: earlier)) then .error poisonCause
        else .ok (some (OutputState.replay t (requests output (c :: earlier))))) ∧
      (((after t earlier).build t c.project c.options c.world).1,
          ((after t earlier).build t c.project c.options c.world).2.2) =
        OutputState.answer t c (priors c earlier) ∧
      ((after t earlier).project ≠ some c.project → priors c earlier = []) ∧
      ((after t earlier).project = some c.project → ∀ output, output ≠ c.options.output →
        (after t (c :: earlier)).inspect output = (after t earlier).inspect output) := by
  have hbefore := serves_after t earlier
  have hafter := serves_after t (c :: earlier)
  refine ⟨hafter.project, hafter.wellFormed.sorted.nodup, fun output => ?_, hafter.inspect_eq,
    hbefore.answer_eq c, fun hproject => ?_, fun hproject output ho => ?_⟩
  · rw [TextMap.mem_keys_iff, hafter.asked, requests, callsFor_ne_nil_iff]
  · rw [priors, since_of_head?_ne fun hhead => hproject (hbefore.project.trans hhead)]
    rfl
  · rw [hafter.inspect_eq, hbefore.inspect_eq, requests, current, callsFor_cons_other ho,
      since_of_head? (hbefore.project.symm.trans hproject), requests]

end Registry

/-! ### An output that crashes -/

namespace Crashing

open Recording

/-- A host with one source that compiles and one that makes the engine crash. -/
def host : Host :=
  { files := { entries := [(["a.cs"], .file (Bytes.ofString "A") ⟨1⟩ false),
      (["p.cs"], .file (Bytes.ofString "!panic") ⟨1⟩ false)] } }

/-- A call of a project for an output that is built from one source. -/
def call (output source : String) : Registry.Call State :=
  ⟨"p", { workDirectory := "/", output, files := [source] }, ⟨host, {}⟩⟩

/-- The game compiles, and then the editor crashes. -/
def calls : List (Registry.Call State) := [call "Editor" "p.cs", call "Game" "a.cs"]

/-- A registry that was given these calls. -/
def registry : Registry Reference Source RecordedUnit := Registry.after toolchain calls

/-- After the crash the editor is shut, although it would compile from the other source; the state
of the game is still that of its one build. -/
theorem editor_shut :
    (registry.build toolchain "p" (call "Editor" "a.cs").options ⟨host, {}⟩).1 =
        .error (.error Registry.poisonCause) ∧
      registry.inspect "Game" =
        .ok (some (({} : OutputState _ _ _).build toolchain (call "Game" "a.cs").options
          ⟨host, {}⟩).state) := by
  obtain ⟨-, -, -, hinspect, hanswer, -, hothers⟩ :=
    Registry.refines_compilers toolchain (call "Editor" "a.cs") calls
  have hproject : (Registry.after toolchain calls).project = some "p" := by decide +kernel
  have hgame := hothers hproject "Game" (by decide)
  rw [hinspect] at hgame
  refine ⟨(congrArg Prod.fst hanswer).trans ?_, hgame.symm.trans ?_⟩
  · rw [OutputState.answer, if_pos (by decide +kernel)]
  · rw [if_neg (by decide +kernel), if_neg (by decide +kernel)]
    rfl

end Crashing
end IncrementalBuild
