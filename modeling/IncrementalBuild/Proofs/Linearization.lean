import IncrementalBuild.Proofs.Interleaving
/-!
# Calls of one project take turns

Calls of one project that are under way at once build as if they came one after the other: each
output has one slot, and the calls for it have their turns in the order in which they got the
slot's lock. Each is answered as a compiler of its own for that output answers it after the calls
before its turn, and that compiler's state is what the slot holds in the end.

## Main definitions

* `Registry.entered`, `Registry.turns` — the calls that got a lock, and those for one output.
* `Registry.Traffic.InTurn` — traffic in line with the turns of the calls.

## Main results

* `Registry.Traffic.InTurn.step` — what a step of a call keeps.
* `Registry.Traffic.linearizable` — what calls of one project come to.
-/

namespace IncrementalBuild

variable {σ ρ φ υ : Type}

namespace Registry

/-! ### Turns -/

/-- The call that gets the lock of its slot in a step. -/
def Action.entering? : Action → Option Nat
  | .enter c => some c
  | _ => none

/-- The calls that got the lock of their slots, the last one first. -/
def entered (as : List Action) : List Nat := as.filterMap Action.entering?

/-- The calls for an output that got the lock of their slots, the last one first. -/
def turns (calls : Nat → Call σ) (output : String) (as : List Action) : List Nat :=
  (entered as).filter fun c => (calls c).options.output == output

section Turns

variable {calls : Nat → Call σ} {output : String} {as : List Action} {c d : Nat}

/-- A call has a turn for its output once it got the lock. -/
theorem mem_turns : c ∈ turns calls output as ↔
    .enter c ∈ as ∧ (calls c).options.output = output := by
  have hentered : c ∈ entered as ↔ .enter c ∈ as := by
    rw [entered, List.mem_filterMap]
    constructor
    · rintro ⟨a, ha, hc⟩
      cases a with
      | look d => exact absurd hc (by simp [Action.entering?])
      | leave d => exact absurd hc (by simp [Action.entering?])
      | enter d =>
          obtain rfl := Option.some.inj hc
          exact ha
    · exact fun h => ⟨_, h, rfl⟩
  rw [turns, List.mem_filter, hentered, beq_iff_eq]

/-- A call that gets the lock has the last turn for its output. -/
theorem turns_enter (c : Nat) (as : List Action) : turns calls output (.enter c :: as) =
    if (calls c).options.output = output then c :: turns calls output as
    else turns calls output as := by
  have hentered : entered (.enter c :: as) = c :: entered as := rfl
  rw [turns, hentered, List.filter_cons]
  simp only [beq_iff_eq]
  rfl

/-- Other steps are no turns. -/
theorem turns_of_ne {a : Action} (h : ∀ c, a ≠ .enter c) (as : List Action) :
    turns calls output (a :: as) = turns calls output as := by
  cases a with
  | look d => rfl
  | leave d => rfl
  | enter d => exact absurd rfl (h d)

/-- Later turns stand before earlier ones. -/
theorem turns_append (later earlier : List Action) : turns calls output (later ++ earlier) =
    turns calls output later ++ turns calls output earlier := by
  rw [turns, entered, List.filterMap_append, List.filter_append]
  rfl

/-- A call has no turn before one that had its own before the call came. -/
theorem not_mem_earlier {later before : List Action} {first : List Nat} {last : List Nat}
    (has : as = later ++ .look d :: before) (hc : .enter c ∈ before) (hd : .enter d ∉ before)
    (hnodup : (turns calls output as).Nodup) (hturns : turns calls output as = first ++ c :: last) :
    d ∉ last := by
  have hout : (calls c).options.output = output := by
    have hmem : c ∈ turns calls output as := by
      rw [hturns]
      exact List.mem_append_right _ List.mem_cons_self
    exact (mem_turns.mp hmem).2
  have hbefore : c ∈ turns calls output before := mem_turns.mpr ⟨hc, hout⟩
  have hsplit : turns calls output as = turns calls output later ++ turns calls output before := by
    rw [has, turns_append, turns_of_ne (by simp)]
  rw [hsplit] at hturns hnodup
  -- The turn of `c` is none of the later ones, so the turns before it are earlier ones too.
  rcases List.append_eq_append_iff.mp hturns with ⟨rest, -, hrest⟩ | ⟨rest, hlater, hrest⟩
  · intro hmem
    have hd' : d ∈ turns calls output before := by
      rw [hrest]
      exact List.mem_append_right _ (List.mem_cons_of_mem c hmem)
    exact hd (mem_turns.mp hd').1
  · cases rest with
    | nil =>
        intro hmem
        rw [List.nil_append] at hrest
        exact hd (mem_turns.mp (hrest ▸ List.mem_cons_of_mem c hmem)).1
    | cons x rest =>
        obtain ⟨rfl, -⟩ := List.cons.inj hrest
        have hmem : c ∈ turns calls output later := by
          rw [hlater]
          exact List.mem_append_right _ List.mem_cons_self
        exact absurd rfl ((List.nodup_append.mp hnodup).2.2 c hmem c hbefore)

end Turns

/-- The turns before the first one in a list are those after it there. -/
theorem eq_of_cons_eq_append {c : Nat} {rest later earlier : List Nat}
    (hnodup : (c :: rest).Nodup) (h : c :: rest = later ++ c :: earlier) : earlier = rest := by
  cases later with
  | nil => exact (List.cons.inj h).2.symm
  | cons x later =>
      obtain ⟨rfl, hrest⟩ := List.cons.inj h
      refine absurd ?_ (List.nodup_cons.mp hnodup).1
      rw [hrest]
      exact List.mem_append_right _ List.mem_cons_self

/-- No call loses its slot while all calls are of one project. -/
theorem not_dropped {calls : Nat → Call σ} {as : List Action} {project : String}
    (h : ∀ c, .look c ∈ as → (calls c).project = project) (c : Nat) : ¬ Dropped calls as c := by
  rintro ⟨later, earlier, e, rfl, he, hne⟩
  refine hne ((h e (List.mem_append_left _ he)).trans (h c ?_).symm)
  exact List.mem_append_right _ List.mem_cons_self

/-- A registry in which an output was found or given a slot, while all others kept theirs. -/
structure Finds (r : Registry ρ φ υ) (output : String) (n : Nat) (r' : Registry ρ φ υ) : Prop where
  find? : ∀ a, r'.table.find? a = if a = output then some n else r.table.find? a
  slot : ∀ m, r'.slots.getD m {} = r.slots.getD m {}
  /-- The slot was there, or it is the one that comes after all others. -/
  own : r.table.find? output = some n ∧ r'.slots.length = r.slots.length ∨
    r.table.find? output = none ∧ n = r.slots.length ∧ r'.slots.length = n + 1

/-- Looking for an output finds it or gives it a slot, if the project finds the table as it is. -/
theorem finds_entry {r : Registry ρ φ υ} {project output : String}
    (hkept : ∀ a, (r.forProject project).table.find? a = r.table.find? a) :
    Finds r output (r.entry project output).1 (r.entry project output).2 := by
  have hslots : (r.forProject project).slots = r.slots := by
    rw [forProject]
    split <;> rfl
  refine ⟨fun a => ?_, fun m => ?_, ?_⟩
  · rw [entry_find?, hkept]
  · rw [entry_slots, hslots]
  · rcases entry_cases project output r with ⟨n, hn, hentry⟩ | ⟨hnone, hentry⟩
    · rw [hkept] at hn
      rw [hentry, hslots]
      exact .inl ⟨hn, rfl⟩
    · rw [hkept] at hnone
      rw [hentry, hslots, List.length_append]
      exact .inr ⟨hnone, rfl, rfl⟩

namespace Finds

variable {r r' : Registry ρ φ υ} {output a : String} {n m : Nat}

/-- Slots that are in the table stay there. -/
theorem kept (h : Finds r output n r') (ha : r.table.find? a = some m) :
    r'.table.find? a = some m := by
  rw [h.find?]
  by_cases hout : a = output
  · rcases h.own with ⟨hold, -⟩ | ⟨hnone, -⟩
    · rw [if_pos hout, ← hold, ← hout, ha]
    · rw [hout, hnone] at ha
      exact absurd ha (by simp)
  · rw [if_neg hout, ha]

/-- Slots in the table were there before, but for the one that is new. -/
theorem old_or_new (h : Finds r output n r') (ha : r'.table.find? a = some m) :
    r.table.find? a = some m ∨
      a = output ∧ r.table.find? output = none ∧ m = r.slots.length := by
  rw [h.find?] at ha
  by_cases hout : a = output
  · rw [if_pos hout] at ha
    obtain rfl := Option.some.inj ha
    rcases h.own with ⟨hold, -⟩ | ⟨hnone, hn, -⟩
    · exact .inl (hout ▸ hold)
    · exact .inr ⟨hout, hnone, hn⟩
  · rw [if_neg hout] at ha
    exact .inl ha

end Finds

/-! ### Traffic in line with the turns -/

namespace Traffic

/-- Traffic of one project in line with the turns of its calls. -/
structure InTurn (t : Toolchain σ ρ φ υ) (calls : Nat → Call σ) (as : List Action)
    (s : Traffic ρ φ υ) : Prop where
  /-- The outputs with a slot are those that a call looked for. -/
  asked : ∀ output, (s.registry.table.find? output).isSome = true ↔
    ∃ c, .look c ∈ as ∧ (calls c).options.output = output
  project : ∀ c, .look c ∈ as → s.registry.project = some (calls c).project
  /-- There are no other slots. -/
  listed : ∀ n < s.registry.slots.length, ∃ output, s.registry.table.find? output = some n
  /-- The calls that had their turns are those inside and those that were answered. -/
  entered : ∀ c, .enter c ∈ as ↔ s.Inside c ∨ ∃ result, s.stage c = .answered result
  once : ∀ output, (turns calls output as).Nodup
  /-- Answers are those of a compiler that was given the calls of earlier turns. -/
  answers : ∀ c result, s.stage c = .answered result → ∀ later earlier,
    turns calls (calls c).options.output as = later ++ c :: earlier →
      result = (OutputState.answer t (calls c) (earlier.map calls)).1
  /-- A slot that nobody is inside is in line with all turns for its output. -/
  free : ∀ output n, s.registry.table.find? output = some n → s.holder n = none →
    (s.registry.slots.getD n {}).Serves t ((turns calls output as).map calls)
  /-- A slot with a call inside is in line with the turns before that call's, and not poisoned. -/
  busy : ∀ output n c, s.registry.table.find? output = some n → s.holder n = some c →
    (s.registry.slots.getD n {}).poisoned = false ∧ ∃ earlier,
      turns calls output as = c :: earlier ∧
        (s.registry.slots.getD n {}).Serves t (earlier.map calls)

namespace InTurn

variable {t : Toolchain σ ρ φ υ} {calls : Nat → Call σ} {as : List Action} {s s' : Traffic ρ φ υ}
  {c d n : Nat} {project : String}

/-- Traffic before any step is in line with the turns. -/
theorem empty (t : Toolchain σ ρ φ υ) (calls : Nat → Call σ) :
    InTurn t calls [] ({} : Traffic ρ φ υ) where
  asked output := by simp [TextMap.find?]
  project c h := absurd h (by simp)
  listed n hn := absurd hn (by simp)
  entered c := by simp [Inside]
  once output := List.nodup_nil
  answers c result h := absurd h (by simp)
  free output n h := absurd h (by simp [TextMap.find?])
  busy output n c h := absurd h (by simp [TextMap.find?])

/-- A call that had its turn has looked for its slot before. -/
theorem look_of_enter (h : InTurn t calls as s) (hline : InLine calls as s)
    (hc : .enter c ∈ as) : .look c ∈ as := by
  rw [hline.looked]
  rcases (h.entered c).mp hc with ⟨n, hin⟩ | ⟨result, hanswered⟩
  · rw [hin]
    exact Stage.noConfusion
  · rw [hanswered]
    exact Stage.noConfusion

/-- The project of the calls finds the table as it is. -/
theorem forProject_find? (h : InTurn t calls as s)
    (hproject : ∀ c, .look c ∈ as → (calls c).project = project) (output : String) :
    (s.registry.forProject project).table.find? output = s.registry.table.find? output := by
  by_cases hsame : s.registry.project = some project
  · rw [forProject_of_eq hsame]
  · -- Nobody looked yet, so the table is empty.
    have hnone : s.registry.table.find? output = none := by
      rw [← Option.not_isSome_iff_eq_none, h.asked]
      rintro ⟨c, hc, -⟩
      exact hsame ((h.project c hc).trans (congrArg some (hproject c hc)))
    rw [forProject_table_of_ne hsame, hnone]
    rfl

section Look

variable {r : Registry ρ φ υ}

/-- A look moves no other call, and brings the one that looks to no later stage. -/
theorem stage_look (hd : s.stage d = .coming) {x : Stage} (hwaiting : ∀ m, x ≠ .waiting m)
    (hcoming : x ≠ .coming) :
    ({ s with registry := r }.move d (.waiting n)).stage c = x ↔ s.stage c = x := by
  by_cases hcd : c = d
  · simp [move, hcd, hd, Ne.symm (hwaiting n), Ne.symm hcoming]
  · simp [move, hcd]

/-- After a look the outputs with a slot are those before and the one that was looked for. -/
theorem asked_look (h : InTurn t calls as s)
    (hfinds : Finds s.registry (calls d).options.output n r) (output : String) :
    (r.table.find? output).isSome = true ↔
      ∃ c, .look c ∈ .look d :: as ∧ (calls c).options.output = output := by
  rw [hfinds.find?]
  by_cases ho : output = (calls d).options.output
  · rw [if_pos ho]
    exact ⟨fun _ => ⟨d, List.mem_cons_self, ho.symm⟩, fun _ => rfl⟩
  · rw [if_neg ho, h.asked]
    refine exists_congr fun c => and_congr_left fun hc => ?_
    have hne : c ≠ d := fun hcd => ho (hcd ▸ hc.symm)
    simp [hne]

/-- After a look every slot has an output. -/
theorem listed_look (h : InTurn t calls as s)
    (hfinds : Finds s.registry (calls d).options.output n r) {m : Nat} (hm : m < r.slots.length) :
    ∃ output, r.table.find? output = some m := by
  rcases Nat.lt_or_ge m s.registry.slots.length with hlt | hge
  · obtain ⟨output, hout⟩ := h.listed m hlt
    exact ⟨output, hfinds.kept hout⟩
  · obtain rfl : m = n := by
      rcases hfinds.own with ⟨-, hlength⟩ | ⟨-, hn, hlength⟩ <;> omega
    exact ⟨_, (hfinds.find? _).trans (if_pos rfl)⟩

/-- Nobody had a turn for an output that has no slot. -/
theorem turns_eq_nil (h : InTurn t calls as s) (hline : InLine calls as s) {output : String}
    (hnone : s.registry.table.find? output = none) : turns calls output as = [] := by
  rw [List.eq_nil_iff_forall_not_mem]
  intro c hc
  obtain ⟨henter, hout⟩ := mem_turns.mp hc
  have hsome := (h.asked _).mpr ⟨c, h.look_of_enter hline henter, hout⟩
  rw [hnone] at hsome
  exact absurd hsome (by simp)

/-- A call that finds its slot leaves traffic in line with the turns. -/
theorem look (h : InTurn t calls as s) (hline : InLine calls as s)
    (hfinds : Finds s.registry (calls d).options.output n r)
    (hproject : r.project = some (calls d).project)
    (hone : ∀ c, .look c ∈ as → (calls c).project = (calls d).project)
    (hd : s.stage d = .coming) :
    InTurn t calls (.look d :: as) ({ s with registry := r }.move d (.waiting n)) := by
  have hturns (output : String) : turns calls output (.look d :: as) = turns calls output as :=
    turns_of_ne (by simp) as
  refine ⟨h.asked_look hfinds, fun c hc => ?_, fun m hm => h.listed_look hfinds hm, fun c => ?_,
    fun output => ?_, fun c result hc => ?_, fun output m hm hfree => ?_,
    fun output m c hm hholder => ?_⟩
  · change r.project = _
    rcases List.mem_cons.mp hc with heq | hc
    · rw [hproject, Action.look.inj heq]
    · rw [hproject, hone c hc]
  · have hinside : (({ s with registry := r }.move d (.waiting n)).Inside c ↔ s.Inside c) :=
      exists_congr fun m => stage_look hd (by simp) (by simp)
    have hanswered : (∃ result, ({ s with registry := r }.move d (.waiting n)).stage c =
        .answered result) ↔ ∃ result, s.stage c = .answered result :=
      exists_congr fun result => stage_look hd (by simp) (by simp)
    rw [hinside, hanswered, ← h.entered]
    simp
  · rw [hturns]
    exact h.once output
  · rw [hturns]
    exact h.answers c result ((stage_look hd (by simp) (by simp)).mp hc)
  · change (r.slots.getD m {}).Serves t _
    rw [hturns, hfinds.slot]
    rcases hfinds.old_or_new hm with hold | ⟨rfl, hnone, rfl⟩
    · exact h.free output m hold hfree
    · rw [h.turns_eq_nil hline hnone, List.getD_eq_default _ _ (Nat.le_refl _)]
      exact Slot.Serves.empty t
  · change (r.slots.getD m {}).poisoned = false ∧ _
    rw [hturns]
    change _ ∧ ∃ earlier, _ ∧ (r.slots.getD m {}).Serves t _
    rw [hfinds.slot]
    rcases hfinds.old_or_new hm with hold | ⟨-, -, rfl⟩
    · exact h.busy output m c hold hholder
    · -- A slot that was not there has nobody inside.
      have hinside := (hline.held c s.registry.slots.length).mpr hholder
      exact absurd (hline.bound c _ (slot?_of_inside hinside)) (Nat.lt_irrefl _)

end Look

/-- The slot that a call waits for or is inside is the one of its output. -/
theorem find?_of_slot? (hline : InLine calls as s)
    (hone : ∀ c, .look c ∈ as → (calls c).project = project) (hc : s.slot? c = some n) :
    s.registry.table.find? (calls c).options.output = some n :=
  (hline.listed c n hc (not_dropped hone c)).2

/-- A call that waits had no turn yet. -/
theorem not_enter_of_waiting (h : InTurn t calls as s) (hc : s.stage c = .waiting n) :
    .enter c ∉ as := by
  rw [h.entered]
  rintro (⟨m, hm⟩ | ⟨result, hr⟩)
  · exact Stage.noConfusion (hc.symm.trans hm)
  · exact Stage.noConfusion (hc.symm.trans hr)

/-- One more turn comes before all others. -/
theorem once_enter (h : InTurn t calls as s) (hc : .enter c ∉ as) (output : String) :
    (turns calls output (.enter c :: as)).Nodup := by
  rw [turns_enter]
  split
  · exact List.nodup_cons.mpr ⟨fun hmem => hc (mem_turns.mp hmem).1, h.once output⟩
  · exact h.once output

/-- One more turn changes nothing for the calls that were answered. -/
theorem answers_enter (h : InTurn t calls as s) (hne : d ≠ c) {result : Except Failure BuildResult}
    (hd : s.stage d = .answered result) {later earlier : List Nat}
    (hturns : turns calls (calls d).options.output (.enter c :: as) = later ++ d :: earlier) :
    result = (OutputState.answer t (calls d) (earlier.map calls)).1 := by
  rw [turns_enter] at hturns
  split at hturns
  · cases later with
    | nil => exact absurd (List.cons.inj hturns).1.symm hne
    | cons x later => exact h.answers d result hd later earlier (List.cons.inj hturns).2
  · exact h.answers d result hd later earlier hturns

/-- A call that finds its slot poisoned has its turn, and leaves traffic in line. -/
theorem refuse (h : InTurn t calls as s) (hline : InLine calls as s)
    (hone : ∀ c, .look c ∈ as → (calls c).project = project) (hc : s.stage c = .waiting n)
    (hfree : s.holder n = none) (hpoisoned : (s.registry.slots.getD n {}).poisoned = true) :
    InTurn t calls (.enter c :: as) (s.move c (.answered (.error (.error poisonCause)))) := by
  have hfind := find?_of_slot? hline hone (slot?_of_waiting hc)
  have hnew := h.not_enter_of_waiting hc
  have hserves := h.free _ n hfind hfree
  have hcrashed : OutputState.crashedIn t ((turns calls (calls c).options.output as).map calls) =
      true := hserves.poisoned.symm.trans hpoisoned
  refine ⟨fun output => ?_, fun d hd => ?_, h.listed, fun d => ?_, h.once_enter hnew,
    fun d result hd later earlier hturns => ?_, fun output m hm hholder => ?_,
    fun output m d hm hholder => ?_⟩
  · refine (h.asked output).trans ?_
    simp
  · exact h.project d (by simpa using hd)
  · by_cases hdc : d = c
    · simp [Inside, move, hdc]
    · have hd := h.entered d
      simpa [Inside, move, hdc] using hd
  · by_cases hdc : d = c
    · subst hdc
      have hresult : result = .error (.error poisonCause) := by
        simpa [move, eq_comm] using hd
      have hnodup := h.once_enter hnew (calls d).options.output
      rw [turns_enter, if_pos rfl] at hturns hnodup
      rw [hresult, eq_of_cons_eq_append hnodup hturns, OutputState.answer, if_pos hcrashed]
    · exact h.answers_enter hdc (by simpa [move, hdc] using hd) hturns
  · change (s.registry.slots.getD m {}).Serves t _
    rw [turns_enter]
    split
    · next hout =>
        obtain rfl : n = m := by
          rw [← hout] at hm
          exact Option.some.inj (hfind.symm.trans hm)
        have hbuilt := hserves.build (calls c)
        rw [Slot.build, if_pos hpoisoned, hout] at hbuilt
        exact hbuilt
    · exact h.free output m hm hholder
  · change (s.registry.slots.getD m {}).poisoned = false ∧ _
    rw [turns_enter]
    split
    · next hout =>
        obtain rfl : n = m := by
          rw [← hout] at hm
          exact Option.some.inj (hfind.symm.trans hm)
        exact absurd (hfree.symm.trans hholder) (by simp)
    · exact h.busy output m d hm hholder

/-- A call that locks its slot has its turn, and leaves traffic in line. -/
theorem enter (h : InTurn t calls as s) (hline : InLine calls as s)
    (hone : ∀ c, .look c ∈ as → (calls c).project = project) (hc : s.stage c = .waiting n)
    (hfree : s.holder n = none) (hsound : (s.registry.slots.getD n {}).poisoned = false) :
    InTurn t calls (.enter c :: as) ((s.move c (.inside n)).hand n (some c)) := by
  have hfind := find?_of_slot? hline hone (slot?_of_waiting hc)
  have hnew := h.not_enter_of_waiting hc
  refine ⟨fun output => ?_, fun d hd => ?_, h.listed, fun d => ?_, h.once_enter hnew,
    fun d result hd later earlier hturns => ?_, fun output m hm hholder => ?_,
    fun output m d hm hholder => ?_⟩
  · refine (h.asked output).trans ?_
    simp
  · exact h.project d (by simpa using hd)
  · by_cases hdc : d = c
    · simp [Inside, hand, move, hdc]
    · have hd := h.entered d
      simpa [Inside, hand, move, hdc] using hd
  · by_cases hdc : d = c
    · exact absurd hd (by simp [hand, move, hdc])
    · exact h.answers_enter hdc (by simpa [hand, move, hdc] using hd) hturns
  · have hne : m ≠ n := by
      rintro rfl
      exact absurd hholder (by simp [hand])
    have hout : (calls c).options.output ≠ output := by
      rintro rfl
      exact hne (Option.some.inj (hm.symm.trans hfind))
    change (s.registry.slots.getD m {}).Serves t _
    rw [turns_enter, if_neg hout]
    exact h.free output m hm (by simpa [hand, move, hne] using hholder)
  · change (s.registry.slots.getD m {}).poisoned = false ∧ ∃ earlier, _ ∧
      (s.registry.slots.getD m {}).Serves t _
    by_cases hmn : m = n
    · subst hmn
      have hout := hline.wellFormed.apart _ _ _ hm hfind
      have hdc : d = c := by simpa [hand, eq_comm] using hholder
      rw [turns_enter, if_pos hout.symm, hdc, hout]
      exact ⟨hsound, _, rfl, h.free _ m hfind hfree⟩
    · have hout : (calls c).options.output ≠ output := by
        rintro rfl
        exact hmn (Option.some.inj (hm.symm.trans hfind))
      rw [turns_enter, if_neg hout]
      exact h.busy output m d hm (by simpa [hand, move, hmn] using hholder)

/-- A call that unlocks its slot is answered as it is its turn, and leaves traffic in line. -/
theorem leave (h : InTurn t calls as s) (hline : InLine calls as s)
    (hone : ∀ c, .look c ∈ as → (calls c).project = project) (hc : s.stage c = .inside n)
    {slots : List (Slot ρ φ υ)} {answer : Except Failure BuildResult}
    (hlength : slots.length = s.registry.slots.length)
    (hslots : ∀ m, slots.getD m {} =
      if m = n then (s.registry.slots.getD n {}).build t (calls c).options (calls c).world
      else s.registry.slots.getD m {})
    (hanswer : (s.registry.slots.getD n {}).poisoned = false → answer =
      ((s.registry.slots.getD n {}).state.build t (calls c).options (calls c).world).result) :
    InTurn t calls (.leave c :: as)
      (({ s with registry := { s.registry with slots } }.move c (.answered answer)).hand n
        none) := by
  have hfind := find?_of_slot? hline hone (slot?_of_inside hc)
  obtain ⟨hsound, rest, hrest, hserves⟩ := h.busy _ n c hfind ((hline.held c n).mp hc)
  have hturns (output : String) : turns calls output (.leave c :: as) = turns calls output as :=
    turns_of_ne (by simp) as
  refine ⟨fun output => ?_, fun d hd => ?_, fun m hm => ?_, fun d => ?_, fun output => ?_,
    fun d result hd later earlier hsplit => ?_, fun output m hm hholder => ?_,
    fun output m d hm hholder => ?_⟩
  · refine (h.asked output).trans ?_
    simp
  · exact h.project d (by simpa using hd)
  · exact h.listed m (Nat.lt_of_lt_of_eq hm hlength)
  · have hd := h.entered d
    by_cases hdc : d = c
    · subst hdc
      have henter : .enter d ∈ as := hd.mpr (.inl ⟨n, hc⟩)
      simp [Inside, hand, move, henter]
    · simpa [Inside, hand, move, hdc] using hd
  · rw [hturns]
    exact h.once output
  · rw [hturns] at hsplit
    by_cases hdc : d = c
    · subst hdc
      have hresult : answer = result := by simpa [hand, move] using hd
      have hnodup := h.once (calls d).options.output
      rw [hrest] at hnodup hsplit
      rw [eq_of_cons_eq_append hnodup hsplit, ← hresult, hanswer hsound, OutputState.answer,
        if_neg (by rw [← hserves.poisoned, hsound]; simp), hserves.state hsound]
    · exact h.answers d result (by simpa [hand, move, hdc] using hd) later earlier hsplit
  · change (slots.getD m {}).Serves t _
    rw [hturns, hslots]
    by_cases hmn : m = n
    · subst hmn
      rw [if_pos rfl, hline.wellFormed.apart _ _ _ hm hfind, hrest]
      exact hserves.build (calls c)
    · rw [if_neg hmn]
      exact h.free output m hm (by simpa [hand, move, hmn] using hholder)
  · have hmn : m ≠ n := by
      rintro rfl
      exact absurd hholder (by simp [hand])
    change (slots.getD m {}).poisoned = false ∧ ∃ earlier, _ ∧ (slots.getD m {}).Serves t _
    rw [hturns, hslots, if_neg hmn]
    exact h.busy output m d hm (by simpa [hand, move, hmn] using hholder)

/-- **Step.** A step of a call leaves traffic in line with the turns. -/
theorem step (h : InTurn t calls as s) (hline : InLine calls as s) {a : Action}
    (hone : ∀ c, .look c ∈ a :: as → (calls c).project = project)
    (hs : s.step t calls a = some s') : InTurn t calls (a :: as) s' := by
  have hbefore : ∀ c, .look c ∈ as → (calls c).project = project :=
    fun c hc => hone c (List.mem_cons_of_mem a hc)
  cases a with
  | look d =>
      rw [Traffic.step] at hs
      split at hs
      · next hd =>
        obtain rfl := Option.some.inj hs
        have hproject : (calls d).project = project := hone d List.mem_cons_self
        rw [← hproject] at hbefore
        exact h.look hline (finds_entry (h.forProject_find? hbefore)) (entry_project _ _ _)
          hbefore hd
      · exact absurd hs (by simp)
  | enter c =>
      rw [Traffic.step] at hs
      split at hs
      · next n hc =>
        split at hs
        · exact absurd hs (by simp)
        · next hfree =>
          split at hs
          · next hpoisoned =>
            obtain rfl := Option.some.inj hs
            exact h.refuse hline hbefore hc hfree hpoisoned
          · next hsound =>
            obtain rfl := Option.some.inj hs
            exact h.enter hline hbefore hc hfree (Bool.eq_false_iff.mpr hsound)
      · exact absurd hs (by simp)
  | leave c =>
      rw [Traffic.step] at hs
      split at hs
      · next n hc =>
        dsimp only at hs
        have hlt := hline.bound c n (slot?_of_inside hc)
        have hslots := buildAt_slots (r := s.registry) t (calls c).options (calls c).world hlt
        rw [buildAt_registry] at hs hslots
        obtain rfl := Option.some.inj hs
        exact h.leave hline hbefore hc List.length_set hslots fun hsound =>
          (buildAt_of_sound hsound).1
      · exact absurd hs (by simp)

/-! ### When all calls were answered -/

section Done

variable (hdone : ∀ c, .look c ∈ as → ∃ result, s.stage c = .answered result)

include hdone

/-- Once all calls that came were answered, nobody holds a lock. -/
theorem holder_of_done (hline : InLine calls as s) (n : Nat) : s.holder n = none := by
  rw [Option.eq_none_iff_forall_ne_some]
  intro c hc
  have hin := (hline.held c n).mpr hc
  obtain ⟨result, hresult⟩ := hdone c (hline.mem_of_slot? (slot?_of_inside hin))
  exact Stage.noConfusion (hin.symm.trans hresult)

/-- The calls that came for an output and were all answered are those that had a turn for it. -/
theorem mem_turns_of_done (h : InTurn t calls as s) (hline : InLine calls as s) (output : String)
    (c : Nat) : c ∈ turns calls output as ↔ .look c ∈ as ∧ (calls c).options.output = output := by
  rw [mem_turns]
  refine and_congr_left fun _ => ⟨h.look_of_enter hline, fun hlook => ?_⟩
  exact (h.entered c).mpr (.inr (hdone c hlook))

/-- What is seen of an output's slot once all calls that came were answered. -/
theorem inspect_of_done (h : InTurn t calls as s) (hline : InLine calls as s) (output : String) :
    s.registry.inspect output =
      if (turns calls output as).isEmpty then .ok none
      else if OutputState.crashedIn t ((turns calls output as).map calls) then .error poisonCause
      else .ok (some (OutputState.replay t ((turns calls output as).map calls))) := by
  have hmem := mem_turns_of_done hdone h hline output
  rw [inspect]
  split
  · next hnone =>
      have hnil : turns calls output as = [] := by
        rw [List.eq_nil_iff_forall_not_mem]
        intro c hc
        have hsome := (h.asked output).mpr ⟨c, (hmem c).mp hc⟩
        rw [hnone] at hsome
        exact absurd hsome (by simp)
      rw [hnil]
      rfl
  · next n hn =>
      have hserves := h.free output n hn (holder_of_done hdone hline n)
      obtain ⟨c, hc⟩ := (h.asked output).mp (Option.isSome_of_eq_some hn)
      have hne : ¬ (turns calls output as).isEmpty = true := by
        rw [List.isEmpty_iff]
        exact List.ne_nil_of_mem ((hmem c).mpr hc)
      dsimp only
      rw [if_neg hne, hserves.poisoned]
      split
      · rfl
      · next hsound =>
          rw [hserves.state (hserves.poisoned.trans (Bool.eq_false_iff.mpr hsound))]

end Done

end InTurn

section Linear

variable {t : Toolchain σ ρ φ υ} {calls : Nat → Call σ} {as : List Action} {s : Traffic ρ φ υ}
  {project : String}

/-- **Run.** Traffic of one project is in line with the turns of its calls. -/
theorem inTurn_after (hone : ∀ c, .look c ∈ as → (calls c).project = project)
    (h : after t calls as = some s) : InTurn t calls as s := by
  induction as generalizing s with
  | nil =>
      obtain rfl := Option.some.inj h
      exact .empty t calls
  | cons a earlier ih =>
      obtain ⟨before, hbefore, hs⟩ := Option.bind_eq_some_iff.mp h
      exact (ih (fun c hc => hone c (List.mem_cons_of_mem a hc)) hbefore).step
        (inLine_after hbefore) hone hs

/-- Steps that can be taken could be taken up to any of them. -/
theorem exists_after {later before : List Action} (h : after t calls (later ++ before) = some s) :
    ∃ s', after t calls before = some s' := by
  induction later generalizing s with
  | nil => exact ⟨s, h⟩
  | cons a later ih =>
      obtain ⟨s', hs', -⟩ := Option.bind_eq_some_iff.mp h
      exact ih hs'

/-- A call that comes had no turn before. -/
theorem not_enter_of_look {later before : List Action} {d : Nat}
    (hone : ∀ c, .look c ∈ later ++ .look d :: before → (calls c).project = project)
    (h : after t calls (later ++ .look d :: before) = some s) : .enter d ∉ before := by
  obtain ⟨s', hs'⟩ := exists_after h
  obtain ⟨s₀, hbefore, hstep⟩ := Option.bind_eq_some_iff.mp hs'
  have hline := inLine_after hbefore
  have hearlier : ∀ c, .look c ∈ before → (calls c).project = project := fun c hc =>
    hone c (List.mem_append_right _ (List.mem_cons_of_mem _ hc))
  have hturn := inTurn_after hearlier hbefore
  intro henter
  have hlooked := (hline.looked d).mp (hturn.look_of_enter hline henter)
  rw [Traffic.step] at hstep
  split at hstep
  · next hcoming => exact hlooked hcoming
  · exact absurd hstep (by simp)

/-- **Concurrent calls of one project are linearizable.** However calls of one project are
interleaved, once all that came were answered each output that was asked for has one slot, and no
other slot was ever made. The calls for an output are those that had a turn for it, each of them
one: the result of each is the one of a compiler of its own for that output which was given the
calls of earlier turns before, or it is that of a poisoned slot once one of them crashed; and the
slot holds the state which that compiler has after all turns, or is poisoned. A call that had its
turn before another one came has the earlier turn. -/
theorem linearizable (hone : ∀ c, .look c ∈ as → (calls c).project = project)
    (h : after t calls as = some s)
    (hdone : ∀ c, .look c ∈ as → ∃ result, s.stage c = .answered result) :
    (∀ output, output ∈ s.registry.table.keys ↔
      ∃ c, .look c ∈ as ∧ (calls c).options.output = output) ∧
    (∀ n < s.registry.slots.length, ∃! output, s.registry.table.find? output = some n) ∧
    ∀ output, (turns calls output as).Nodup ∧
      (∀ c, c ∈ turns calls output as ↔ .look c ∈ as ∧ (calls c).options.output = output) ∧
      (∀ later c earlier, turns calls output as = later ++ c :: earlier →
        s.stage c = .answered (OutputState.answer t (calls c) (earlier.map calls)).1) ∧
      (s.registry.inspect output =
        if (turns calls output as).isEmpty then .ok none
        else if OutputState.crashedIn t ((turns calls output as).map calls) then
          .error poisonCause
        else .ok (some (OutputState.replay t ((turns calls output as).map calls)))) ∧
      ∀ c d later before last first, as = later ++ .look d :: before → .enter c ∈ before →
        turns calls output as = last ++ c :: first → d ∉ first := by
  have hline := inLine_after h
  have hturn := inTurn_after hone h
  have hmem := InTurn.mem_turns_of_done hdone hturn hline
  refine ⟨fun output => ?_, fun n hn => ?_, fun output => ⟨hturn.once output, hmem output,
    fun later c earlier hsplit => ?_, InTurn.inspect_of_done hdone hturn hline output,
    fun c d later before last first has hc hsplit => ?_⟩⟩
  · rw [TextMap.mem_keys_iff, hturn.asked]
  · obtain ⟨output, hout⟩ := hturn.listed n hn
    exact ⟨output, hout, fun other hother => hline.wellFormed.apart _ _ _ hother hout⟩
  · have hc : c ∈ turns calls output as := by
      rw [hsplit]
      exact List.mem_append_right _ List.mem_cons_self
    obtain ⟨hlook, rfl⟩ := (hmem output c).mp hc
    obtain ⟨result, hresult⟩ := hdone c hlook
    rw [hresult, hturn.answers c result hresult later earlier hsplit]
  · subst has
    exact not_mem_earlier rfl hc (not_enter_of_look hone h) (hturn.once output) hsplit

end Linear
end Traffic
end Registry

/-! ### A crash between two calls -/

namespace Queued

open Recording Registry

/-- A host with one source that compiles and one that makes the engine crash. -/
def host : Host :=
  { files := { entries := [(["a.cs"], .file (Bytes.ofString "A") ⟨1⟩ false),
      (["p.cs"], .file (Bytes.ofString "!panic") ⟨1⟩ false)] } }

/-- Three calls for the editor, the second of which crashes, and one for the game. -/
def calls (c : Nat) : Call State :=
  ⟨"p",
    { workDirectory := "/", output := if c = 3 then "Game" else "Editor",
      files := [if c = 1 then "p.cs" else "a.cs"] },
    ⟨host, {}⟩⟩

/-- The last call for the editor comes first, but gets the lock after the two others. -/
def steps : List Action :=
  [.enter 2, .leave 1, .leave 3, .enter 1, .enter 3, .leave 0, .look 1, .enter 0, .look 3, .look 0,
    .look 2]

/-- The editor is built, crashes, and is shut for the call that comes after the crash; the game
is built meanwhile. -/
theorem shut_after_crash :
    turns calls "Editor" steps = [2, 1, 0] ∧
      ∃ s : Traffic Reference Source RecordedUnit, Traffic.after toolchain calls steps = some s ∧
        s.stage 0 = .answered (.ok .success) ∧ s.stage 1 = .answered (.error .crash) ∧
        s.stage 2 = .answered (.error (.error poisonCause)) ∧
        s.registry.inspect "Editor" = .error poisonCause ∧
        s.registry.inspect "Game" =
          .ok (some (({} : OutputState _ _ _).build toolchain (calls 3).options
            (calls 3).world).state) := by
  have hturns : turns calls "Editor" steps = [2, 1, 0] := by decide +kernel
  obtain ⟨s, hafter⟩ : ∃ s, Traffic.after toolchain calls steps = some s :=
    Option.isSome_iff_exists.mp (by decide +kernel)
  have hdone : ∀ c, .look c ∈ steps → ∃ result, s.stage c = .answered result := by
    have hall : (Traffic.after toolchain calls steps).all
        (fun s => [0, 1, 2, 3].all fun c => s.stage c matches .answered _) = true := by
      decide +kernel
    rw [hafter, Option.all_some, List.all_eq_true] at hall
    intro c hc
    have hanswered := hall c (by simp [steps] at hc ⊢; omega)
    split at hanswered
    · exact ⟨_, ‹_›⟩
    · exact absurd hanswered (by simp)
  have hone : ∀ c, .look c ∈ steps → (calls c).project = "p" := fun _ _ => rfl
  obtain ⟨-, -, hlinear⟩ := Traffic.linearizable hone hafter hdone
  obtain ⟨-, -, hanswers, heditor, -⟩ := hlinear "Editor"
  obtain ⟨-, -, -, hgame, -⟩ := hlinear "Game"
  refine ⟨hturns, s, hafter, ?_, ?_, ?_, heditor.trans ?_, hgame.trans ?_⟩
  · exact (hanswers [2, 1] 0 [] hturns).trans (congrArg Stage.answered (by decide +kernel))
  · exact (hanswers [2] 1 [0] hturns).trans (congrArg Stage.answered (by decide +kernel))
  · rw [hanswers [] 2 [1, 0] hturns, OutputState.answer, if_pos (by decide +kernel)]
  · rw [if_neg (by decide +kernel), if_pos (by decide +kernel)]
  · rw [if_neg (by decide +kernel), if_neg (by decide +kernel)]
    rfl

end Queued
end IncrementalBuild
