import IncrementalBuild.Proofs.Registry
/-!
# Calls under way at once

Several calls of a registry may be under way at once. Each of them finds its slot, waits until it
gets the slot's lock, builds, and unlocks. No two calls are inside a slot at a time, so the calls
for an output take turns as long as they find the same slot. But a call for another project drops
the table while the slots in it may still be locked, and the next call for such an output finds
another slot, where it waits for nobody.

## Main definitions

* `Registry.Stage`, `Registry.Action` — how far a call has come, and its next step.
* `Registry.Traffic` — a registry with calls under way. `Traffic.step` is a step of one of them,
  `Traffic.after` what any steps lead to.
* `Registry.Dropped`, `Registry.Parted` — a call lost its slot to another project, and did so
  before another call looked for its own.

## Main results

* `Registry.Traffic.InLine.eq_found_iff` — which calls find the slot of another one.
* `Registry.Traffic.InLine.step` — what a step of a call keeps.
* `Registry.Traffic.exclusive_unless_parted` — calls for one output take turns unless they are
  parted, and then they do not wait for each other.
* `Overtaken.both_inside` — two builds of one output at the same time.
-/

namespace IncrementalBuild

variable {σ ρ φ υ : Type}

namespace Registry

/-- How far a call has come. -/
inductive Stage
  /-- It has not looked for its slot yet. -/
  | coming
  /-- It found its slot and waits for the slot's lock. -/
  | waiting (slot : Nat)
  /-- It has the lock of its slot, and builds. -/
  | inside (slot : Nat)
  /-- It was answered. -/
  | answered (result : Except Failure BuildResult)

/-- The slot that a call waits for or is inside. -/
def Stage.slot? : Stage → Option Nat
  | .waiting n => some n
  | .inside n => some n
  | _ => none

/-- The next step of a call. -/
inductive Action
  /-- It finds its slot, or makes it, while it holds the registry's lock. -/
  | look (c : Nat)
  /-- It locks its slot. In a poisoned one it is answered at once. -/
  | enter (c : Nat)
  /-- Its build ends, and it unlocks its slot. -/
  | leave (c : Nat)
  deriving DecidableEq

/-- A registry with calls under way, which are told apart by numbers. -/
structure Traffic (ρ φ υ : Type) where
  registry : Registry ρ φ υ := {}
  stage : Nat → Stage := fun _ => .coming
  /-- The call that holds the lock of a slot. -/
  holder : Nat → Option Nat := fun _ => none

namespace Traffic

/-- A call that comes to another stage. -/
def move (c : Nat) (x : Stage) (s : Traffic ρ φ υ) : Traffic ρ φ υ :=
  { s with stage := fun d => if d = c then x else s.stage d }

/-- A slot that is locked by a call, or unlocked. -/
def hand (n : Nat) (x : Option Nat) (s : Traffic ρ φ υ) : Traffic ρ φ υ :=
  { s with holder := fun m => if m = n then x else s.holder m }

/-- One step of a call, if it can take it. The world of a call is the one that its build meets,
with all that other calls do to it meanwhile. -/
def step (t : Toolchain σ ρ φ υ) (calls : Nat → Call σ) (s : Traffic ρ φ υ) :
    Action → Option (Traffic ρ φ υ)
  | .look c =>
    match s.stage c with
    | .coming =>
      let (n, registry) := s.registry.entry (calls c).project (calls c).options.output
      some ({ s with registry }.move c (.waiting n))
    | _ => none
  | .enter c =>
    match s.stage c with
    | .waiting n =>
      match s.holder n with
      | some _ => none
      | none =>
        if (s.registry.slots.getD n {}).poisoned then
          some (s.move c (.answered (.error (.error poisonCause))))
        else some ((s.move c (.inside n)).hand n (some c))
    | _ => none
  | .leave c =>
    match s.stage c with
    | .inside n =>
      let built := s.registry.buildAt t (calls c).options n (calls c).world
      some (({ s with registry := built.2.1 }.move c (.answered built.1)).hand n none)
    | _ => none

/-- What steps lead to, the last one first, if each call can take its steps. -/
def after (t : Toolchain σ ρ φ υ) (calls : Nat → Call σ) :
    List Action → Option (Traffic ρ φ υ)
  | [] => some {}
  | a :: earlier => (after t calls earlier).bind fun s => s.step t calls a

/-- The slot that a call waits for or is inside. -/
def slot? (s : Traffic ρ φ υ) (c : Nat) : Option Nat := (s.stage c).slot?

/-- The slot of a call after one came to another stage. -/
theorem slot?_move (s : Traffic ρ φ υ) (c d : Nat) (x : Stage) :
    (s.move c x).slot? d = if d = c then x.slot? else s.slot? d := by
  rw [slot?, move]
  dsimp only
  split <;> rfl

/-- A call that waits for a slot has it as its slot. -/
theorem slot?_of_waiting {s : Traffic ρ φ υ} {c n : Nat} (h : s.stage c = .waiting n) :
    s.slot? c = some n := by
  rw [slot?, h, Stage.slot?]

/-- A call inside a slot has it as its slot. -/
theorem slot?_of_inside {s : Traffic ρ φ υ} {c n : Nat} (h : s.stage c = .inside n) :
    s.slot? c = some n := by
  rw [slot?, h, Stage.slot?]

/-- The call builds. -/
def Inside (s : Traffic ρ φ υ) (c : Nat) : Prop := ∃ n, s.stage c = .inside n

end Traffic

/-! ### Calls that lost their slots -/

section Parted

variable {calls : Nat → Call σ} {a : Action} {as : List Action} {c d : Nat}

/-- After a call found its slot, a call for another project looked for its own. -/
def Dropped (calls : Nat → Call σ) (as : List Action) (c : Nat) : Prop :=
  ∃ later earlier e, as = later ++ .look c :: earlier ∧ .look e ∈ later ∧
    (calls e).project ≠ (calls c).project

/-- The slot of `c` was dropped before `d` looked for its own. -/
def DroppedBefore (calls : Nat → Call σ) (as : List Action) (c d : Nat) : Prop :=
  ∃ later earlier, as = later ++ .look d :: earlier ∧ Dropped calls earlier c

/-- Between the looks of two calls, a call for another project looked for its slot. -/
def Parted (calls : Nat → Call σ) (as : List Action) (c d : Nat) : Prop :=
  DroppedBefore calls as c d ∨ DroppedBefore calls as d c

/-- Two calls for the same output of the same project that are not parted. -/
structure Joint (calls : Nat → Call σ) (as : List Action) (c d : Nat) : Prop where
  project : (calls c).project = (calls d).project
  output : (calls c).options.output = (calls d).options.output
  together : ¬ Parted calls as c d

/-- Only calls that looked for their slots can lose them. -/
theorem Dropped.mem (h : Dropped calls as c) : .look c ∈ as := by
  obtain ⟨later, earlier, e, rfl, -, -⟩ := h
  exact List.mem_append_right _ List.mem_cons_self

/-- A call loses its slot when a call for another project looks for its own. -/
theorem dropped_cons : Dropped calls (a :: as) c ↔
    Dropped calls as c ∨
      .look c ∈ as ∧ ∃ e, a = .look e ∧ (calls e).project ≠ (calls c).project := by
  constructor
  · rintro ⟨later, earlier, e, has, he, hproject⟩
    cases later with
    | nil => exact absurd he (by simp)
    | cons b later =>
        obtain ⟨rfl, rfl⟩ := List.cons.inj has
        rcases List.mem_cons.mp he with rfl | he
        · exact .inr ⟨List.mem_append_right _ List.mem_cons_self, e, rfl, hproject⟩
        · exact .inl ⟨later, earlier, e, rfl, he, hproject⟩
  · rintro (⟨later, earlier, e, rfl, he, hproject⟩ | ⟨hc, e, rfl, hproject⟩)
    · exact ⟨a :: later, earlier, e, rfl, List.mem_cons_of_mem _ he, hproject⟩
    · obtain ⟨later, earlier, rfl⟩ := List.append_of_mem hc
      exact ⟨.look e :: later, earlier, e, rfl, List.mem_cons_self, hproject⟩

/-- Only calls that looked can come after the loss of a slot, or before it. -/
theorem DroppedBefore.mem (h : DroppedBefore calls as c d) : .look c ∈ as ∧ .look d ∈ as := by
  obtain ⟨later, earlier, rfl, hdropped⟩ := h
  exact ⟨List.mem_append_right _ (List.mem_cons_of_mem _ hdropped.mem),
    List.mem_append_right _ List.mem_cons_self⟩

/-- A call looks after another one lost its slot when it looks now, or when it looked then. -/
theorem droppedBefore_cons : DroppedBefore calls (a :: as) c d ↔
    DroppedBefore calls as c d ∨ a = .look d ∧ Dropped calls as c := by
  constructor
  · rintro ⟨later, earlier, has, hdropped⟩
    cases later with
    | nil =>
        obtain ⟨rfl, rfl⟩ := List.cons.inj has
        exact .inr ⟨rfl, hdropped⟩
    | cons b later =>
        obtain ⟨rfl, rfl⟩ := List.cons.inj has
        exact .inl ⟨later, earlier, rfl, hdropped⟩
  · rintro (⟨later, earlier, rfl, hdropped⟩ | ⟨rfl, hdropped⟩)
    · exact ⟨a :: later, earlier, rfl, hdropped⟩
    · exact ⟨[], as, rfl, hdropped⟩

/-- Being parted is mutual. -/
theorem parted_comm : Parted calls as c d ↔ Parted calls as d c := or_comm

/-- Being joint is mutual. -/
theorem joint_comm : Joint calls as c d ↔ Joint calls as d c :=
  ⟨fun h => ⟨h.project.symm, h.output.symm, fun hp => h.together (parted_comm.mp hp)⟩,
    fun h => ⟨h.project.symm, h.output.symm, fun hp => h.together (parted_comm.mp hp)⟩⟩

/-- Steps of other kinds and looks of other calls do not part two calls. -/
theorem joint_cons_of_ne (hc : a ≠ .look c) (hd : a ≠ .look d) :
    Joint calls (a :: as) c d ↔ Joint calls as c d := by
  have hparted : Parted calls (a :: as) c d ↔ Parted calls as c d := by
    simp [Parted, droppedBefore_cons, hc, hd]
  exact ⟨fun h => ⟨h.project, h.output, mt hparted.mpr h.together⟩,
    fun h => ⟨h.project, h.output, mt hparted.mp h.together⟩⟩

/-- A call that looks for the first time is joint with those for its output that still have their
slots. -/
theorem joint_look (hd : .look d ∉ as) (hne : c ≠ d) :
    Joint calls (.look d :: as) c d ↔
      (calls c).project = (calls d).project ∧
        (calls c).options.output = (calls d).options.output ∧ ¬ Dropped calls as c := by
  have hcd : ¬ DroppedBefore calls as c d := fun h => hd h.mem.2
  have hdc : ¬ DroppedBefore calls as d c := fun h => hd h.mem.1
  have hparted : Parted calls (.look d :: as) c d ↔ Dropped calls as c := by
    simp [Parted, droppedBefore_cons, hcd, hdc, Ne.symm hne]
  exact ⟨fun h => ⟨h.project, h.output, mt hparted.mpr h.together⟩,
    fun h => ⟨h.1, h.2.1, mt hparted.mp h.2.2⟩⟩

end Parted

/-! ### Looking for a slot -/

section Entry

variable {r : Registry ρ φ υ} {project output : String}

/-- An output that has a slot keeps it when its project asks again. -/
theorem entry_of_find? {n : Nat} (hproject : r.project = some project)
    (h : r.table.find? output = some n) : r.entry project output = (n, r) := by
  rw [entry, forProject_of_eq hproject]
  dsimp only
  rw [h]

/-- The slots in the table stay there when their project asks for another one. -/
theorem entry_find?_kept {a : String} {n : Nat} (hproject : r.project = some project)
    (h : r.table.find? a = some n) : (r.entry project output).2.table.find? a = some n := by
  rw [entry_find?]
  split
  · next ha =>
      rw [ha] at h
      rw [entry_of_find? hproject h]
  · rw [forProject_of_eq hproject, h]

/-- No slot goes away. -/
theorem length_le_entry (project output : String) (r : Registry ρ φ υ) :
    r.slots.length ≤ (r.entry project output).2.slots.length := by
  have hslots : (r.forProject project).slots = r.slots := by
    rw [forProject]
    split <;> rfl
  rcases entry_cases project output r with ⟨n, -, h⟩ | ⟨-, h⟩
  · rw [h, hslots]
  · rw [h, ← hslots, List.length_append]
    exact Nat.le_add_right _ _

/-- The slots in the table after a look are new, or were there before for the same project. -/
theorem entry_find?_old {a : String} {n : Nat}
    (h : (r.entry project output).2.table.find? a = some n) (hn : n < r.slots.length) :
    r.project = some project ∧ r.table.find? a = some n := by
  have hslots : (r.forProject project).slots = r.slots := by
    rw [forProject]
    split <;> rfl
  have hold : (r.forProject project).table.find? a = some n := by
    rcases entry_cases project output r with ⟨m, -, hentry⟩ | ⟨-, hentry⟩
    · rw [hentry] at h
      exact h
    · rw [hentry, TextMap.find?_insert, hslots] at h
      split at h
      · exact absurd (Option.some.inj h) (Nat.ne_of_gt hn)
      · exact h
  by_cases hproject : r.project = some project
  · rw [forProject_of_eq hproject] at hold
    exact ⟨hproject, hold⟩
  · rw [forProject_table_of_ne hproject] at hold
    exact absurd hold (by simp [TextMap.find?])

end Entry

/-! ### Traffic in line with its steps -/

namespace Traffic

/-- Traffic in line with the steps that led to it, the last one first. -/
structure InLine (calls : Nat → Call σ) (as : List Action) (s : Traffic ρ φ υ) : Prop where
  wellFormed : s.registry.WellFormed
  /-- The calls that looked for their slots are those that are no longer coming. -/
  looked : ∀ c, .look c ∈ as ↔ s.stage c ≠ .coming
  bound : ∀ c n, s.slot? c = some n → n < s.registry.slots.length
  /-- The call inside a slot holds its lock. -/
  held : ∀ c n, s.stage c = .inside n ↔ s.holder n = some c
  /-- A slot that was not dropped is the one that the table has. -/
  listed : ∀ c n, s.slot? c = some n → ¬ Dropped calls as c →
    s.registry.project = some (calls c).project ∧
      s.registry.table.find? (calls c).options.output = some n
  /-- A slot that was dropped is in the table no more. -/
  unlisted : ∀ c n, s.slot? c = some n → Dropped calls as c →
    ∀ output, s.registry.table.find? output ≠ some n
  /-- Two calls have the same slot exactly when they are joint. -/
  shared : ∀ c d n m, c ≠ d → s.slot? c = some n → s.slot? d = some m →
    (n = m ↔ Joint calls as c d)

namespace InLine

variable {t : Toolchain σ ρ φ υ} {calls : Nat → Call σ} {as : List Action} {s s' : Traffic ρ φ υ}
  {c d n : Nat}

/-- Traffic before any step is in line. -/
theorem empty (calls : Nat → Call σ) : InLine calls [] ({} : Traffic ρ φ υ) where
  wellFormed := .empty
  looked c := by simp
  bound c n h := absurd h (by simp [slot?, Stage.slot?])
  held c n := by simp
  listed c n h := absurd h (by simp [slot?, Stage.slot?])
  unlisted c n h := absurd h (by simp [slot?, Stage.slot?])
  shared c d n m _ h := absurd h (by simp [slot?, Stage.slot?])

/-- A call that has a slot has looked for it. -/
theorem mem_of_slot? (h : InLine calls as s) (hc : s.slot? c = some n) : .look c ∈ as := by
  rw [h.looked]
  intro hcoming
  rw [slot?, hcoming] at hc
  exact absurd hc (by simp [Stage.slot?])

/-- A step that leaves the table alone, and in which calls at most lose their slots, keeps traffic
in line. -/
theorem of_quiet (h : InLine calls as s) {a : Action} (ha : ∀ c, a ≠ .look c)
    (hproject : s'.registry.project = s.registry.project)
    (htable : s'.registry.table = s.registry.table)
    (hlength : s'.registry.slots.length = s.registry.slots.length)
    (hcoming : ∀ c, s'.stage c = .coming ↔ s.stage c = .coming)
    (hslot : ∀ c n, s'.slot? c = some n → s.slot? c = some n)
    (hheld : ∀ c n, s'.stage c = .inside n ↔ s'.holder n = some c) : InLine calls (a :: as) s' := by
  have hdropped : ∀ c, Dropped calls (a :: as) c ↔ Dropped calls as c := fun c => by
    simp [dropped_cons, ha]
  refine ⟨⟨?_, ?_, ?_⟩, fun c => ?_, fun c n hc => ?_, hheld, fun c n hc hd => ?_,
    fun c n hc hd => ?_, fun c d n m hne hc hd => ?_⟩
  · rw [htable, hlength]
    exact h.wellFormed.bound
  · rw [htable]
    exact h.wellFormed.apart
  · rw [htable]
    exact h.wellFormed.sorted
  · rw [List.mem_cons, or_iff_right (Ne.symm (ha c)), h.looked, ne_eq, ne_eq, hcoming]
  · rw [hlength]
    exact h.bound c n (hslot c n hc)
  · rw [hproject, htable]
    exact h.listed c n (hslot c n hc) (mt (hdropped c).mpr hd)
  · rw [htable]
    exact h.unlisted c n (hslot c n hc) ((hdropped c).mp hd)
  · rw [h.shared c d n m hne (hslot c n hc) (hslot d m hd), joint_cons_of_ne (ha c) (ha d)]

section Look

variable {r : Registry ρ φ υ} {m : Nat}

/-- A call that has not looked for its slot yet. -/
theorem not_mem_of_coming (h : InLine calls as s) (hd : s.stage d = .coming) : .look d ∉ as :=
  fun hmem => (h.looked d).mp hmem hd

/-- The slot that a call finds is the one of another call exactly when the two are joint. -/
theorem eq_found_iff (h : InLine calls as s) (hd : s.stage d = .coming)
    (hentry : s.registry.entry (calls d).project (calls d).options.output = (m, r)) (hcd : c ≠ d)
    (hc : s.slot? c = some n) : n = m ↔ Joint calls (.look d :: as) c d := by
  rw [joint_look (h.not_mem_of_coming hd) hcd]
  constructor
  · rintro rfl
    have hfind := entry_find?_self (calls d).project (calls d).options.output s.registry
    obtain ⟨hp, ho⟩ := entry_find?_old (hfind.trans (by rw [hentry])) (h.bound c _ hc)
    have hkept : ¬ Dropped calls as c := fun hdropped => h.unlisted c _ hc hdropped _ ho
    obtain ⟨hcp, hco⟩ := h.listed c _ hc hkept
    exact ⟨Option.some.inj (hcp.symm.trans hp), h.wellFormed.apart _ _ _ hco ho, hkept⟩
  · rintro ⟨hp, ho, hkept⟩
    obtain ⟨hcp, hco⟩ := h.listed c n hc hkept
    rw [hp] at hcp
    rw [ho] at hco
    rw [entry_of_find? hcp hco] at hentry
    exact congrArg Prod.fst hentry

/-- A slot that another call's look does not drop is the one that the table has. -/
theorem listed_look (h : InLine calls as s)
    (hentry : s.registry.entry (calls d).project (calls d).options.output = (m, r))
    (hc : s.slot? c = some n) (hkept : ¬ Dropped calls (.look d :: as) c) :
    r.project = some (calls c).project ∧
      r.table.find? (calls c).options.output = some n := by
  rw [dropped_cons, not_or] at hkept
  obtain ⟨hcp, hco⟩ := h.listed c n hc hkept.1
  have hpd : (calls d).project = (calls c).project := by
    by_contra hp
    exact hkept.2 ⟨h.mem_of_slot? hc, d, rfl, hp⟩
  have hproject := entry_project (calls d).project (calls d).options.output s.registry
  rw [← hpd] at hcp
  have hfind : (s.registry.entry (calls d).project (calls d).options.output).2.table.find?
      (calls c).options.output = some n := entry_find?_kept hcp hco
  rw [hentry] at hproject hfind
  exact ⟨hproject.trans (congrArg some hpd), hfind⟩

/-- A slot that was dropped, or is by another call's look, is in the table no more. -/
theorem unlisted_look (h : InLine calls as s)
    (hentry : s.registry.entry (calls d).project (calls d).options.output = (m, r))
    (hc : s.slot? c = some n) (hdropped : Dropped calls (.look d :: as) c) (output : String) :
    r.table.find? output ≠ some n := by
  intro ho
  obtain ⟨hp, hold⟩ := entry_find?_old (by rw [hentry]; exact ho) (h.bound c n hc)
  by_cases hbefore : Dropped calls as c
  · exact h.unlisted c n hc hbefore output hold
  · -- The slot is dropped by this very look, which therefore starts with an empty table.
    obtain ⟨-, e, he, hne⟩ := (dropped_cons.mp hdropped).resolve_left hbefore
    obtain rfl := Action.look.inj he
    exact hne (Option.some.inj (hp.symm.trans (h.listed c n hc hbefore).1))

/-- After a look, two calls have the same slot exactly when they are joint. -/
theorem shared_look (h : InLine calls as s) (hd : s.stage d = .coming)
    (hentry : s.registry.entry (calls d).project (calls d).options.output = (m, r)) {e k : Nat}
    (hne : c ≠ e) (hc : ({ s with registry := r }.move d (.waiting m)).slot? c = some n)
    (he : ({ s with registry := r }.move d (.waiting m)).slot? e = some k) :
    n = k ↔ Joint calls (.look d :: as) c e := by
  rw [slot?_move] at hc he
  by_cases hcd : c = d
  · have hed : e ≠ d := fun hed => hne (hcd.trans hed.symm)
    rw [if_pos hcd] at hc
    rw [if_neg hed] at he
    obtain rfl := Option.some.inj hc
    rw [hcd, eq_comm, joint_comm]
    exact h.eq_found_iff hd hentry hed he
  · rw [if_neg hcd] at hc
    by_cases hed : e = d
    · rw [if_pos hed] at he
      obtain rfl := Option.some.inj he
      rw [hed]
      exact h.eq_found_iff hd hentry hcd hc
    · rw [if_neg hed] at he
      rw [h.shared c e n k hne hc he, joint_cons_of_ne (by simpa using Ne.symm hcd)
        (by simpa using Ne.symm hed)]

/-- A call that looks for its slot keeps traffic in line. -/
theorem look (h : InLine calls as s) (hd : s.stage d = .coming)
    (hentry : s.registry.entry (calls d).project (calls d).options.output = (m, r)) :
    InLine calls (.look d :: as) ({ s with registry := r }.move d (.waiting m)) := by
  have hwell := h.wellFormed.entry (calls d).project (calls d).options.output
  have hlength := length_le_entry (calls d).project (calls d).options.output s.registry
  have hfind := entry_find?_self (calls d).project (calls d).options.output s.registry
  have hproject := entry_project (calls d).project (calls d).options.output s.registry
  rw [hentry] at hwell hlength hfind hproject
  refine ⟨hwell, fun c => ?_, fun c n hc => ?_, fun c n => ?_, fun c n hc hkept => ?_,
    fun c n hc hdropped => ?_, fun c e n k hne hc he => h.shared_look hd hentry hne hc he⟩
  · by_cases hcd : c = d
    · simp [move, hcd]
    · simp [move, hcd, h.looked]
  · rw [slot?_move] at hc
    split at hc
    · obtain rfl := Option.some.inj hc
      exact hwell.bound _ _ hfind
    · exact Nat.lt_of_lt_of_le (h.bound c n hc) hlength
  · by_cases hcd : c = d
    · simp [move, hcd, ← h.held, hd]
    · simp [move, hcd, h.held]
  · rw [slot?_move] at hc
    split at hc
    · next hcd =>
      obtain rfl := Option.some.inj hc
      rw [hcd]
      exact ⟨hproject, hfind⟩
    · exact h.listed_look hentry hc hkept
  · rw [slot?_move] at hc
    split at hc
    · next hcd =>
      have hmem := (dropped_cons.mp (hcd ▸ hdropped)).elim Dropped.mem And.left
      exact absurd hmem (h.not_mem_of_coming hd)
    · exact h.unlisted_look hentry hc hdropped

end Look

/-- A call that is answered at once, since its slot is poisoned, keeps traffic in line. -/
theorem refuse (h : InLine calls as s) (hc : s.stage c = .waiting n)
    (result : Except Failure BuildResult) :
    InLine calls (.enter c :: as) (s.move c (.answered result)) := by
  refine h.of_quiet (by simp) rfl rfl rfl (fun e => ?_) (fun e m he => ?_) fun e m => ?_
  · by_cases hec : e = c <;> simp [move, hec, hc]
  · rw [slot?_move] at he
    split at he
    · exact absurd he (by simp [Stage.slot?])
    · exact he
  · by_cases hec : e = c
    · simp [move, hec, ← h.held, hc]
    · simp [move, hec, h.held]

/-- A call that locks its slot keeps traffic in line. -/
theorem enter (h : InLine calls as s) (hc : s.stage c = .waiting n) (hfree : s.holder n = none) :
    InLine calls (.enter c :: as) ((s.move c (.inside n)).hand n (some c)) := by
  refine h.of_quiet (by simp) rfl rfl rfl (fun e => ?_) (fun e m he => ?_) fun e m => ?_
  · by_cases hec : e = c <;> simp [hand, move, hec, hc]
  · change (s.move c (.inside n)).slot? e = some m at he
    rw [slot?_move] at he
    split at he
    · next hec =>
      obtain rfl := Option.some.inj he
      rw [hec, slot?_of_waiting hc]
    · exact he
  · have hnone := h.held e m
    by_cases hec : e = c <;> by_cases hmn : m = n
    · simp [hand, move, hec, hmn]
    · rw [hec, hc] at hnone
      simpa [hand, move, hec, hmn, Ne.symm hmn] using hnone
    · rw [hmn, hfree] at hnone
      simpa [hand, move, hec, hmn, Ne.symm hec] using hnone
    · simpa [hand, move, hec, hmn] using hnone

/-- A call that unlocks its slot keeps traffic in line. -/
theorem leave (h : InLine calls as s) (hc : s.stage c = .inside n) (slots : List (Slot ρ φ υ))
    (hlength : slots.length = s.registry.slots.length) (result : Except Failure BuildResult) :
    InLine calls (.leave c :: as)
      (({ s with registry := { s.registry with slots } }.move c (.answered result)).hand n
        none) := by
  refine h.of_quiet (by simp) rfl rfl hlength (fun e => ?_) (fun e m he => ?_) fun e m => ?_
  · by_cases hec : e = c <;> simp [hand, move, hec, hc]
  · change (s.move c (.answered result)).slot? e = some m at he
    rw [slot?_move] at he
    split at he
    · exact absurd he (by simp [Stage.slot?])
    · exact he
  · have hholder := (h.held c n).mp hc
    have hheld := h.held e m
    by_cases hec : e = c <;> by_cases hmn : m = n
    · simp [hand, move, hec, hmn]
    · rw [hec, hc] at hheld
      simpa [hand, move, hec, hmn, Ne.symm hmn] using hheld
    · rw [hmn, hholder] at hheld
      simpa [hand, move, hec, hmn, Ne.symm hec] using hheld
    · simpa [hand, move, hec, hmn] using hheld

/-- **Step.** A step of a call keeps traffic in line. -/
theorem step (h : InLine calls as s) {a : Action} (hs : s.step t calls a = some s') :
    InLine calls (a :: as) s' := by
  cases a with
  | look c =>
      rw [Traffic.step] at hs
      split at hs
      · next hc =>
        obtain rfl := Option.some.inj hs
        exact h.look hc rfl
      · exact absurd hs (by simp)
  | enter c =>
      rw [Traffic.step] at hs
      split at hs
      · next n hc =>
        split at hs
        · exact absurd hs (by simp)
        · next hfree =>
          split at hs
          · obtain rfl := Option.some.inj hs
            exact h.refuse hc _
          · obtain rfl := Option.some.inj hs
            exact h.enter hc hfree
      · exact absurd hs (by simp)
  | leave c =>
      rw [Traffic.step] at hs
      split at hs
      · next n hc =>
        dsimp only at hs
        rw [buildAt_registry] at hs
        obtain rfl := Option.some.inj hs
        exact h.leave hc _ List.length_set _
      · exact absurd hs (by simp)

/-- A slot has at most one call inside. -/
theorem eq_of_inside (h : InLine calls as s) (hc : s.stage c = .inside n)
    (hd : s.stage d = .inside n) : c = d :=
  Option.some.inj (((h.held c n).mp hc).symm.trans ((h.held d n).mp hd))

/-- Calls for one output that have different slots are parted. -/
theorem parted_of_ne {m : Nat} (h : InLine calls as s) (hne : c ≠ d) (hc : s.slot? c = some n)
    (hd : s.slot? d = some m) (hnm : n ≠ m) (hproject : (calls c).project = (calls d).project)
    (houtput : (calls c).options.output = (calls d).options.output) : Parted calls as c d := by
  by_contra hparted
  exact hnm ((h.shared c d n m hne hc hd).mpr ⟨hproject, houtput, hparted⟩)

end InLine

section Traffic

variable {t : Toolchain σ ρ φ υ} {calls : Nat → Call σ} {as : List Action} {s : Traffic ρ φ υ}
  {c d n : Nat}

/-- **Run.** Traffic is in line with any steps that led to it. -/
theorem inLine_after (h : after t calls as = some s) : InLine calls as s := by
  induction as generalizing s with
  | nil =>
      obtain rfl := Option.some.inj h
      exact .empty calls
  | cons a earlier ih =>
      obtain ⟨before, hbefore, hs⟩ := Option.bind_eq_some_iff.mp h
      exact (ih hbefore).step hs

/-- A call that waits for its slot can go on exactly when nobody is inside. -/
theorem isSome_step_enter (h : InLine calls as s) (hd : s.stage d = .waiting n) :
    (s.step t calls (.enter d)).isSome = true ↔ ∀ c, s.stage c ≠ .inside n := by
  have hstep : (s.step t calls (.enter d)).isSome = (s.holder n).isNone := by
    rw [Traffic.step, hd]
    dsimp only
    split
    · next hsome => rw [hsome]; rfl
    · next hnone =>
      rw [hnone]
      split <;> rfl
  rw [hstep, Option.isNone_iff_eq_none, Option.eq_none_iff_forall_ne_some]
  exact forall_congr' fun c => not_congr (h.held c n).symm

/-- **Calls for one output take turns unless they are parted.** However calls of a registry are
interleaved, two calls for the same output of the same project are inside at the same time only if
a call for another project looked for its slot between theirs. And a call that waits goes on
exactly when all calls inside for its output are so parted from it: then it does not wait for
them. -/
theorem exclusive_unless_parted (h : after t calls as = some s) :
    (∀ c d, c ≠ d → s.Inside c → s.Inside d → (calls c).project = (calls d).project →
      (calls c).options.output = (calls d).options.output → Parted calls as c d) ∧
    ∀ d n, s.stage d = .waiting n →
      ((s.step t calls (.enter d)).isSome = true ↔ ∀ c, s.Inside c →
        (calls c).project = (calls d).project →
        (calls c).options.output = (calls d).options.output → Parted calls as c d) := by
  have hline := inLine_after h
  refine ⟨fun c d hne ⟨n, hc⟩ ⟨m, hd⟩ => ?_, fun d n hd => ?_⟩
  · refine hline.parted_of_ne hne (slot?_of_inside hc) (slot?_of_inside hd) ?_
    rintro rfl
    exact hne (hline.eq_of_inside hc hd)
  · have hne : ∀ c m, s.stage c = .inside m → c ≠ d := by
      rintro c m hc rfl
      exact Stage.noConfusion (hc.symm.trans hd)
    rw [isSome_step_enter hline hd]
    constructor
    · rintro hfree c ⟨m, hc⟩
      refine hline.parted_of_ne (hne c m hc) (slot?_of_inside hc) (slot?_of_waiting hd) ?_
      rintro rfl
      exact hfree c hc
    · intro hall c hc
      have hjoint := (hline.shared c d n n (hne c n hc) (slot?_of_inside hc)
        (slot?_of_waiting hd)).mp rfl
      exact hjoint.together (hall c ⟨n, hc⟩ hjoint.project hjoint.output)

end Traffic

end Traffic
end Registry

/-! ### A call that overtakes a build -/

namespace Overtaken

open Recording Registry

/-- A host with one source. -/
def host : Host :=
  { files := { entries := [(["a.cs"], .file (Bytes.ofString "A") ⟨1⟩ false)] } }

/-- Three calls for an output of one name; the second one is of another project. -/
def calls (c : Nat) : Call State :=
  ⟨if c = 1 then "q" else "p", { workDirectory := "/", output := "Game", files := ["a.cs"] },
    ⟨host, {}⟩⟩

/-- The first call builds when the others come; the third one does not wait for it. -/
def steps : List Action := [.enter 2, .look 2, .look 1, .enter 0, .look 0]

/-- Two builds of the same output of the same project are under way at the same time. -/
theorem both_inside :
    ∃ s, Traffic.after toolchain calls steps = some s ∧ s.Inside 0 ∧ s.Inside 2 ∧
      (calls 0).project = (calls 2).project ∧
      (calls 0).options.output = (calls 2).options.output :=
  ⟨_, rfl, ⟨0, rfl⟩, ⟨2, rfl⟩, rfl, rfl⟩

/-- The call of the other project came between the two. -/
theorem parted_by_other_project :
    ∃ s, Traffic.after toolchain calls steps = some s ∧ s.Inside 0 ∧ s.Inside 2 ∧
      Parted calls steps 0 2 := by
  have hafter : Traffic.after toolchain calls steps = some _ := rfl
  exact ⟨_, hafter, ⟨0, rfl⟩, ⟨2, rfl⟩, (Traffic.exclusive_unless_parted hafter).1 0 2 (by decide)
    ⟨0, rfl⟩ ⟨2, rfl⟩ rfl rfl⟩

end Overtaken
end IncrementalBuild
