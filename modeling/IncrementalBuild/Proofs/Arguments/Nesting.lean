import IncrementalBuild.Proofs.Arguments
import IncrementalBuild.Proofs.Host.Files
import Mathlib.Logic.Hydra
import Mathlib.Logic.Relation
/-!
# Response files that name each other

Response files may name themselves and each other in any pattern, so nothing in the files makes
the reading of arguments end: only the limit on how deeply they may be nested does. An agenda has
the arguments that are still to come, each with the number of files that are open around it. One
step expands the first of them, with or without a look at the limit; the steps within the limit
are those that reading takes.

## Main definitions

* `Arguments.Agenda`, `Agenda.Step` — what is still to come, and one step of the expansion.
* `Agenda.Proceeds`, `Agenda.Ends` — the steps within the limit, and the agendas that have none.
* `Arguments.Reaches` — an argument that the expansion comes to, and how deep it stands.
* `Arguments.Nested` — an argument that stands in files that name each other.
* `Arguments.IncludesItself` — a file that names itself, by any spelling, or through other files.

## Main results

* `Agenda.wellFounded_proceeds` — no reading goes on forever. Opening a file is a move of the hydra
  game: an argument gives way to any number of others that have less room.
* `Arguments.exists_ends` — reading takes steps within the limit to where there are no more.
* `Arguments.tooDeep_iff_reaches`, `Arguments.tooDeep_nested` — when files are nested too deeply.
* `Arguments.parse_congr_of_reaches` — files beyond the limit are not looked at.
* `Arguments.not_ok_of_includesItself` — what includes itself is never accepted.
* `Arguments.reading_ends` — all of it in one statement.
-/

namespace IncrementalBuild.Arguments

open Relation (ReflTransGen)

variable {fs others : Files} {workDir : Path} {a b : Arguments} {arg again : String}
  {args lines expansion : List String} {depth inside : Nat}

/-! ### Agendas -/

/-- What was taken in, and the arguments to come, each with the number of response files that are
open around it. -/
structure Agenda where
  taken : Arguments := {}
  pending : List (Nat × String)

namespace Agenda

variable {r next last : Agenda} {rest : List (Nat × String)}

/-- At the start nothing is taken in, and no file is open. -/
def start (args : List String) : Agenda := { pending := args.map (0, ·) }

/-- The first argument is expanded. For one that names a response file come the file's lines, one
level deeper; any other is taken in. -/
inductive Step (fs : Files) (workDir : Path) : Agenda → Agenda → Prop
  | plain {a : Arguments} {depth : Nat} {arg : String} {rest : List (Nat × String)}
      (plain : ¬ NamesFile arg) :
      Step fs workDir ⟨a, (depth, arg) :: rest⟩ ⟨a.add (Argument.of arg.toList), rest⟩
  | file {a : Arguments} {depth : Nat} {arg : String} {lines : List String}
      {rest : List (Nat × String)} (opens : Opens fs workDir arg lines) :
      Step fs workDir ⟨a, (depth, arg) :: rest⟩ ⟨a, lines.map (depth + 1, ·) ++ rest⟩

/-- If the first argument names a file, that file may be opened. -/
def Allowed (r : Agenda) : Prop :=
  ∀ depth arg rest, r.pending = (depth, arg) :: rest → NamesFile arg → depth < maxDepth

/-- A step within the limit. -/
def Proceeds (fs : Files) (workDir : Path) (r next : Agenda) : Prop :=
  r.Allowed ∧ Step fs workDir r next

/-- There is no step within the limit, and how reading ends then. -/
inductive Ends (fs : Files) (workDir : Path) : Agenda → Except ArgumentError Arguments → Prop
  | finished {a : Arguments} : Ends fs workDir ⟨a, []⟩ a.finish
  | tooDeep {a : Arguments} {depth : Nat} {arg file : String} {rest : List (Nat × String)}
      (names : Argument.of arg.toList = .responseFile file) (deep : maxDepth ≤ depth) :
      Ends fs workDir ⟨a, (depth, arg) :: rest⟩ (.error (.nestedTooDeeply file))
  | unreadable {a : Arguments} {depth : Nat} {arg file : String} {rest : List (Nat × String)}
      {cause : FileError} (names : Argument.of arg.toList = .responseFile file)
      (shallow : depth < maxDepth)
      (fails : fs.readText (workDir.join ⟨file⟩) = .error cause) :
      Ends fs workDir ⟨a, (depth, arg) :: rest⟩
        (.error (.unreadable (workDir.join ⟨file⟩) cause))

/-! ### Reading ends -/

/-- The room that the arguments to come have left. -/
def room (r : Agenda) : Multiset Nat := (r.pending.map fun x => maxDepth - x.1 : List Nat)

/-- A step within the limit cuts off one argument; what grows back has less room. -/
theorem room_of_proceeds (h : Proceeds fs workDir r next) :
    Relation.CutExpand (· < ·) next.room r.room := by
  obtain ⟨hallowed, hstep⟩ := h
  cases hstep with
  | @plain a depth arg rest plain =>
      refine ⟨0, maxDepth - depth, fun _ h => absurd h (Multiset.notMem_zero _), ?_⟩
      rw [room, room, List.map_cons, add_zero, ← Multiset.cons_coe, add_comm]
      rfl
  | @file a depth arg lines rest opens =>
      have hdepth : depth < maxDepth := hallowed depth arg rest rfl opens.namesFile
      refine ⟨(lines.map fun _ => maxDepth - (depth + 1) : List Nat), maxDepth - depth,
        fun left hleft => ?_, ?_⟩
      · obtain ⟨line, -, rfl⟩ := List.mem_map.mp (Multiset.mem_coe.mp hleft)
        omega
      · rw [room, room, List.map_cons, List.map_append, List.map_map, ← Multiset.cons_coe,
          ← Multiset.coe_add, Multiset.cons_add, add_comm _ {_}, Multiset.singleton_add, add_comm]
        rfl

/-- **No reading goes on forever**, whatever the files name. -/
theorem wellFounded_proceeds (fs : Files) (workDir : Path) :
    WellFounded fun next r => Proceeds fs workDir r next :=
  Subrelation.wf room_of_proceeds (InvImage.wf room wellFounded_lt.cutExpand)

/-! ### Steps -/

/-- There is one step at most. -/
theorem Step.unique (h : Step fs workDir r next) (h' : Step fs workDir r last) : next = last := by
  cases h with
  | plain plain =>
      cases h' with
      | plain _ => rfl
      | file opens => exact absurd opens.namesFile plain
  | file opens =>
      cases h' with
      | plain plain => exact absurd opens.namesFile plain
      | file opens' => rw [opens.unique opens']

/-- An agenda at which reading ends has no step within the limit. -/
theorem Ends.not_proceeds {outcome : Except ArgumentError Arguments}
    (h : Ends fs workDir r outcome) : ¬ Proceeds fs workDir r next := by
  rintro ⟨hallowed, hstep⟩
  cases h with
  | finished => cases hstep
  | @tooDeep a depth arg file rest names deep =>
      exact absurd (hallowed depth arg rest rfl ⟨file, names⟩) (Nat.not_lt.mpr deep)
  | @unreadable a depth arg file rest cause names shallow fails =>
      cases hstep with
      | plain plain => exact plain ⟨file, names⟩
      | file opens =>
          obtain ⟨file', text, names', htext, -⟩ := opens
          obtain rfl := Argument.responseFile.inj (names.symm.trans names')
          exact absurd (fails.symm.trans htext) (by simp)

/-- Reading ends in one way at most. -/
theorem Ends.unique {outcome outcome' : Except ArgumentError Arguments}
    (h : Ends fs workDir r outcome) (h' : Ends fs workDir r outcome') : outcome = outcome' := by
  cases h with
  | finished =>
      cases h' with
      | finished => rfl
  | tooDeep names deep =>
      cases h' with
      | tooDeep names' _ => rw [Argument.responseFile.inj (names.symm.trans names')]
      | unreadable _ shallow _ => exact absurd shallow (Nat.not_lt.mpr deep)
  | unreadable names shallow fails =>
      cases h' with
      | tooDeep _ deep => exact absurd shallow (Nat.not_lt.mpr deep)
      | unreadable names' _ fails' =>
          obtain rfl := Argument.responseFile.inj (names.symm.trans names')
          rw [Except.error.inj (fails.symm.trans fails')]

/-- Wherever steps within the limit lead to an end, reading ends alike. -/
theorem ends_unique {outcome outcome' : Except ArgumentError Arguments}
    (hnext : ReflTransGen (Proceeds fs workDir) r next) (hends : Ends fs workDir next outcome)
    (hlast : ReflTransGen (Proceeds fs workDir) r last) (hends' : Ends fs workDir last outcome') :
    outcome = outcome' := by
  have hone : Relator.RightUnique (Proceeds fs workDir) := fun _ _ _ h h' => h.2.unique h'.2
  have heq : next = last := by
    rcases ReflTransGen.total_of_right_unique hone hnext hlast with h | h
    · rcases h.cases_head with rfl | ⟨mid, hstep, -⟩
      · rfl
      · exact absurd hstep hends.not_proceeds
    · rcases h.cases_head with rfl | ⟨mid, hstep, -⟩
      · rfl
      · exact absurd hstep hends'.not_proceeds
  subst heq
  exact hends.unique hends'

/-! ### What reading does -/

/-- Where steps within the limit lead that take in what stands before the rest: to the rest, or to
an end. -/
def LeadsTo (fs : Files) (workDir : Path) (r : Agenda) (rest : List (Nat × String)) :
    Except ArgumentError Arguments → Prop
  | .ok b => ReflTransGen (Proceeds fs workDir) r ⟨b, rest⟩
  | .error e => ∃ last, ReflTransGen (Proceeds fs workDir) r last ∧ Ends fs workDir last (.error e)

/-- One more step in front. -/
theorem LeadsTo.head {outcome : Except ArgumentError Arguments} (hstep : Proceeds fs workDir r next)
    (h : LeadsTo fs workDir next rest outcome) : LeadsTo fs workDir r rest outcome := by
  cases outcome with
  | ok b => exact ReflTransGen.head hstep h
  | error e =>
      obtain ⟨last, hlast, hends⟩ := h
      exact ⟨last, hlast.head hstep, hends⟩

/-- What comes after the rest was reached. -/
theorem LeadsTo.bind {outcome : Except ArgumentError Arguments}
    {further : Arguments → Except ArgumentError Arguments} {later : List (Nat × String)}
    (h : LeadsTo fs workDir r later outcome)
    (hfurther : ∀ b, LeadsTo fs workDir ⟨b, later⟩ rest (further b)) :
    LeadsTo fs workDir r rest (outcome.bind further) := by
  cases outcome with
  | error e => exact h
  | ok b =>
      have hb := hfurther b
      change LeadsTo fs workDir r rest (further b)
      cases houtcome : further b with
      | ok c =>
          rw [houtcome] at hb
          exact ReflTransGen.trans h hb
      | error e =>
          rw [houtcome] at hb
          obtain ⟨last, hlast, hends⟩ := hb
          exact ⟨last, ReflTransGen.trans h hlast, hends⟩

/-- Arguments at one depth are taken in one after the other. -/
theorem leadsTo_takeAll_of_take {room : Nat}
    (step : ∀ (a : Arguments) (arg : String) (rest : List (Nat × String)),
      LeadsTo fs workDir ⟨a, (depth, arg) :: rest⟩ rest (take fs workDir room a arg.toList)) :
    LeadsTo fs workDir ⟨a, args.map (depth, ·) ++ rest⟩ rest (takeAll fs workDir room a args) := by
  induction args generalizing a with
  | nil => exact .refl
  | cons arg args ih =>
      rw [takeAll_cons]
      exact (step a arg _).bind fun _ => ih

/-- **One argument.** What is done with it takes steps within the limit. -/
theorem leadsTo_take {room : Nat} (hroom : depth + room = maxDepth) :
    LeadsTo fs workDir ⟨a, (depth, arg) :: rest⟩ rest (take fs workDir room a arg.toList) := by
  induction room generalizing depth a arg rest with
  | zero =>
      by_cases hnames : NamesFile arg
      · obtain ⟨file, hfile⟩ := hnames
        rw [take, hfile]
        exact ⟨_, .refl, .tooDeep hfile (Nat.le_of_eq hroom.symm)⟩
      · rw [take_of_plain hnames]
        refine .single ⟨?_, .plain hnames⟩
        rintro _ _ _ ⟨⟩ hfile
        exact absurd hfile hnames
  | succ room ih =>
      have hshallow : depth < maxDepth := by omega
      have hallowed : Allowed ⟨a, (depth, arg) :: rest⟩ := by
        rintro _ _ _ ⟨⟩ -
        exact hshallow
      by_cases hnames : NamesFile arg
      · obtain ⟨file, hfile⟩ := hnames
        cases htext : fs.readText (workDir.join ⟨file⟩) with
        | error cause =>
            rw [take, hfile]
            dsimp only
            rw [htext]
            exact ⟨_, .refl, .unreadable hfile hshallow htext⟩
        | ok text =>
            have hopens : Opens fs workDir arg _ := ⟨file, text, hfile, htext, rfl⟩
            rw [take_of_opens hopens]
            refine .head ⟨hallowed, .file hopens⟩ (leadsTo_takeAll_of_take fun _ _ _ => ?_)
            exact ih (by omega)
      · rw [take_of_plain hnames]
        exact .single ⟨hallowed, .plain hnames⟩

end Agenda

/-- **Reading** takes steps within the limit until there are no more, and ends as it does then. -/
theorem exists_ends (fs : Files) (workDir : Path) (args : List String) :
    ∃ last, ReflTransGen (Agenda.Proceeds fs workDir) (.start args) last ∧
      Agenda.Ends fs workDir last (parse fs workDir args) := by
  have htaken : Agenda.LeadsTo fs workDir (.start args) []
      (takeAll fs workDir maxDepth {} args) := by
    have hall : Agenda.LeadsTo fs workDir ⟨{}, args.map (0, ·) ++ []⟩ []
        (takeAll fs workDir maxDepth {} args) :=
      Agenda.leadsTo_takeAll_of_take fun _ _ _ => Agenda.leadsTo_take (Nat.zero_add _)
    rwa [List.append_nil] at hall
  rw [parse_eq]
  cases houtcome : takeAll fs workDir maxDepth {} args with
  | ok b =>
      rw [houtcome] at htaken
      exact ⟨_, htaken, .finished⟩
  | error e =>
      rw [houtcome] at htaken
      exact htaken

/-! ### How deep files are nested -/

/-- Expansion in order, without a limit, comes to an argument around which so many files are
open. -/
def Reaches (fs : Files) (workDir : Path) (args : List String) (depth : Nat) (arg : String) :
    Prop :=
  ∃ a rest, ReflTransGen (Agenda.Step fs workDir) (.start args) ⟨a, (depth, arg) :: rest⟩

/-- An argument is given, or it is a line of a file that is named by an argument that stands one
level less deep. -/
inductive Nested (fs : Files) (workDir : Path) (args : List String) : Nat → String → Prop
  | given {arg : String} (mem : arg ∈ args) : Nested fs workDir args 0 arg
  | inside {depth : Nat} {arg line : String} {lines : List String}
      (outside : Nested fs workDir args depth arg) (opens : Opens fs workDir arg lines)
      (mem : line ∈ lines) : Nested fs workDir args (depth + 1) line

/-- What expansion comes to stands in files that are nested so deeply. -/
theorem nested_of_reaches (h : Reaches fs workDir args depth arg) :
    Nested fs workDir args depth arg := by
  obtain ⟨a, rest, hsteps⟩ := h
  have hall : ∀ r, ReflTransGen (Agenda.Step fs workDir) (.start args) r →
      ∀ x ∈ r.pending, Nested fs workDir args x.1 x.2 := by
    intro r hr
    induction hr with
    | refl =>
        intro x hx
        obtain ⟨arg, harg, rfl⟩ := List.mem_map.mp hx
        exact .given harg
    | tail _ hstep ih =>
        cases hstep with
        | plain _ => exact fun x hx => ih x (List.mem_cons_of_mem _ hx)
        | @file a depth arg lines rest opens =>
            intro x hx
            rcases List.mem_append.mp hx with hx | hx
            · obtain ⟨line, hline, rfl⟩ := List.mem_map.mp hx
              exact .inside (ih (depth, arg) List.mem_cons_self) opens hline
            · exact ih x (List.mem_cons_of_mem _ hx)
  exact hall _ hsteps (depth, arg) List.mem_cons_self

/-- Within the limit, no more files are open than the limit says. -/
theorem depth_le_of_proceeds {r : Agenda}
    (h : ReflTransGen (Agenda.Proceeds fs workDir) (.start args) r) :
    ∀ x ∈ r.pending, x.1 ≤ maxDepth := by
  induction h with
  | refl =>
      intro x hx
      obtain ⟨arg, -, rfl⟩ := List.mem_map.mp hx
      exact Nat.zero_le _
  | tail _ hstep ih =>
      obtain ⟨hallowed, hstep⟩ := hstep
      cases hstep with
      | plain _ => exact fun x hx => ih x (List.mem_cons_of_mem _ hx)
      | @file a depth arg lines rest opens =>
          intro x hx
          rcases List.mem_append.mp hx with hx | hx
          · obtain ⟨line, -, rfl⟩ := List.mem_map.mp hx
            exact hallowed depth arg rest rfl opens.namesFile
          · exact ih x (List.mem_cons_of_mem _ hx)

/-- Steps within the limit are steps. -/
theorem steps_of_proceeds {r : Agenda}
    (h : ReflTransGen (Agenda.Proceeds fs workDir) (.start args) r) :
    ReflTransGen (Agenda.Step fs workDir) (.start args) r :=
  ReflTransGen.mono (fun _ _ hstep => hstep.2) _ _ h

/-- Steps that do not all stay within the limit have come to a file beyond it. -/
theorem proceeds_or_too_deep {r : Agenda}
    (h : ReflTransGen (Agenda.Step fs workDir) (.start args) r) :
    ReflTransGen (Agenda.Proceeds fs workDir) (.start args) r ∨
      ∃ a depth arg rest, ReflTransGen (Agenda.Proceeds fs workDir) (.start args)
        ⟨a, (depth, arg) :: rest⟩ ∧ NamesFile arg ∧ maxDepth ≤ depth := by
  induction h with
  | refl => exact .inl .refl
  | @tail r next _ hstep ih =>
      rcases ih with hproceeds | hdeep
      · by_cases hallowed : r.Allowed
        · exact .inl (hproceeds.tail ⟨hallowed, hstep⟩)
        · simp only [Agenda.Allowed, not_forall] at hallowed
          obtain ⟨depth, arg, rest, hpending, hnames, hdeep⟩ := hallowed
          obtain ⟨a, pending⟩ := r
          obtain rfl : pending = _ := hpending
          exact .inr ⟨a, depth, arg, rest, hproceeds, hnames, Nat.le_of_not_lt hdeep⟩
      · exact .inr hdeep

/-- Where reading ends because files are nested too deeply, one is beyond the limit. -/
theorem Agenda.Ends.beyond {r : Agenda} {outcome : Except ArgumentError Arguments}
    (h : Agenda.Ends fs workDir r outcome) (hdeep : TooDeep outcome) :
    ∃ a depth arg rest, r = ⟨a, (depth, arg) :: rest⟩ ∧ NamesFile arg ∧ maxDepth ≤ depth := by
  obtain ⟨file, hfile⟩ := hdeep
  cases h with
  | finished =>
      rw [finish] at hfile
      split at hfile <;> exact absurd hfile (by simp)
  | tooDeep names deep => exact ⟨_, _, _, _, rfl, ⟨_, names⟩, deep⟩
  | unreadable names shallow fails => exact absurd hfile (by simp)

/-- **The limit.** Reading fails because files are nested too deeply exactly when expansion comes to
a file around which as many others are open as may be. -/
theorem tooDeep_iff_reaches :
    TooDeep (parse fs workDir args) ↔
      ∃ arg, Reaches fs workDir args maxDepth arg ∧ NamesFile arg := by
  obtain ⟨last, hlast, hends⟩ := exists_ends fs workDir args
  constructor
  · intro htoo
    obtain ⟨a, depth, arg, rest, rfl, hnames, hdeep⟩ := hends.beyond htoo
    have hdepth : depth ≤ maxDepth :=
      depth_le_of_proceeds hlast (depth, arg) List.mem_cons_self
    obtain rfl := Nat.le_antisymm hdepth hdeep
    exact ⟨arg, ⟨a, rest, steps_of_proceeds hlast⟩, hnames⟩
  · rintro ⟨arg, ⟨a, rest, hsteps⟩, hnames⟩
    have hdeep : ∃ a depth arg rest, ReflTransGen (Agenda.Proceeds fs workDir) (.start args)
        ⟨a, (depth, arg) :: rest⟩ ∧ NamesFile arg ∧ maxDepth ≤ depth := by
      rcases proceeds_or_too_deep hsteps with hproceeds | hdeep
      · exact ⟨a, _, arg, rest, hproceeds, hnames, Nat.le_refl _⟩
      · exact hdeep
    obtain ⟨a, depth, arg, rest, hproceeds, ⟨file, hfile⟩, hdeep⟩ := hdeep
    exact ⟨file, Agenda.ends_unique hlast hends hproceeds (.tooDeep hfile hdeep)⟩

/-! ### Files beyond the limit -/

/-- Where the same text stands, an argument opens the same lines. -/
theorem Opens.congr (h : Opens fs workDir arg lines)
    (hsame : ∀ file, Argument.of arg.toList = .responseFile file →
      others.readText (workDir.join ⟨file⟩) = fs.readText (workDir.join ⟨file⟩)) :
    Opens others workDir arg lines := by
  obtain ⟨file, text, hfile, htext, hlines⟩ := h
  exact ⟨file, text, hfile, (hsame file hfile).trans htext, hlines⟩

/-- **Files beyond the limit** are not looked at: reading is the same whatever they hold. -/
theorem parse_congr_of_reaches
    (hsame : ∀ depth < maxDepth, ∀ arg file, Reaches fs workDir args depth arg →
      Argument.of arg.toList = .responseFile file →
      others.readText (workDir.join ⟨file⟩) = fs.readText (workDir.join ⟨file⟩)) :
    parse others workDir args = parse fs workDir args := by
  have hall : ∀ r, ReflTransGen (Agenda.Proceeds fs workDir) (.start args) r →
      ReflTransGen (Agenda.Proceeds others workDir) (.start args) r := by
    intro r hr
    induction hr with
    | refl => exact .refl
    | tail hbefore hstep ih =>
        obtain ⟨hallowed, hstep⟩ := hstep
        refine ih.tail ⟨hallowed, ?_⟩
        cases hstep with
        | plain plain => exact .plain plain
        | @file a depth arg lines rest opens =>
            have hdepth := hallowed depth arg rest rfl opens.namesFile
            have hreached : Reaches fs workDir args depth arg :=
              ⟨a, rest, steps_of_proceeds hbefore⟩
            exact .file (opens.congr fun file => hsame depth hdepth arg file hreached)
  obtain ⟨last, hlast, hends⟩ := exists_ends fs workDir args
  obtain ⟨last', hlast', hends'⟩ := exists_ends others workDir args
  have htransferred : Agenda.Ends others workDir last (parse fs workDir args) := by
    generalize parse fs workDir args = outcome at hends
    cases hends with
    | finished => exact .finished
    | tooDeep names deep => exact .tooDeep names deep
    | @unreadable a depth arg file rest cause names shallow fails =>
        have hreached : Reaches fs workDir args depth arg := ⟨a, rest, steps_of_proceeds hlast⟩
        exact .unreadable names shallow ((hsame depth shallow arg file hreached names).trans fails)
  exact Agenda.ends_unique hlast' hends' (hall last hlast) htransferred

/-! ### Files that include themselves -/

/-- Two arguments that name one file, perhaps by different spellings. -/
def NamesSame (fs : Files) (workDir : Path) (arg again : String) : Prop :=
  ∃ file file' loc, Argument.of arg.toList = .responseFile file ∧
    Argument.of again.toList = .responseFile file' ∧
    fs.locate (workDir.join ⟨file⟩) = .ok loc ∧ fs.locate (workDir.join ⟨file'⟩) = .ok loc

/-- An argument names a response file that includes itself, directly or through other files. -/
def IncludesItself (fs : Files) (workDir : Path) (arg : String) : Prop :=
  ∃ lines depth again, Opens fs workDir arg lines ∧ Nested fs workDir lines depth again ∧
    NamesSame fs workDir arg again

/-- By whichever spelling, a file has the lines that it has. -/
theorem NamesSame.opens (h : NamesSame fs workDir arg again) (hopens : Opens fs workDir arg lines) :
    Opens fs workDir again lines := by
  obtain ⟨file, file', loc, hfile, hfile', hloc, hloc'⟩ := h
  obtain ⟨named, text, hnamed, htext, hlines⟩ := hopens
  obtain rfl := Argument.responseFile.inj (hfile.symm.trans hnamed)
  refine ⟨file', text, hfile', ?_, hlines⟩
  rw [← htext, Files.readText, Files.readText, Files.read, Files.read,
    Files.stat_of_locate hloc, Files.stat_of_locate hloc']

/-- The lines of a file that is among arguments with an expansion have one, and their files are
nested less deeply. -/
theorem Expands.of_mem (h : Expands fs workDir depth args expansion) (hmem : arg ∈ args)
    (hopens : Opens fs workDir arg lines) :
    ∃ inside inner, inside < depth ∧ Expands fs workDir inside lines inner := by
  induction h with
  | nil => exact absurd hmem List.not_mem_nil
  | plain plain _ ih =>
      rcases List.mem_cons.mp hmem with rfl | hmem
      · exact absurd hopens.namesFile plain
      · exact ih hmem
  | file opens within _ _ ih =>
      rcases List.mem_cons.mp hmem with rfl | hmem
      · obtain rfl := opens.unique hopens
        exact ⟨_, _, Nat.lt_of_succ_le (Nat.le_max_left _ _), within⟩
      · obtain ⟨inside, inner, hlt, hinner⟩ := ih hmem
        exact ⟨inside, inner, Nat.lt_of_lt_of_le hlt (Nat.le_max_right _ _), hinner⟩

/-- So it is for files that stand in other files. -/
theorem Expands.of_nested {level : Nat} (h : Expands fs workDir depth args expansion)
    (hnested : Nested fs workDir args level arg) (hopens : Opens fs workDir arg lines) :
    ∃ inside inner, inside < depth ∧ Expands fs workDir inside lines inner := by
  induction hnested generalizing lines with
  | given mem => exact h.of_mem mem hopens
  | inside _ opens mem ih =>
      obtain ⟨inside, inner, hlt, hinner⟩ := ih opens
      obtain ⟨inside', inner', hlt', hinner'⟩ := hinner.of_mem mem hopens
      exact ⟨inside', inner', Nat.lt_trans hlt' hlt, hinner'⟩

/-- The lines of a file that includes itself have no expansion: it would be nested less deeply than
itself. -/
theorem IncludesItself.not_expands (h : IncludesItself fs workDir arg)
    (hopens : Opens fs workDir arg lines) : ¬ Expands fs workDir depth lines expansion := by
  obtain ⟨lines', level, again, hopens', hnested, hsame⟩ := h
  obtain rfl := hopens'.unique hopens
  intro hexpands
  induction depth using Nat.strong_induction_on generalizing expansion with
  | _ depth ih =>
      obtain ⟨inside, inner, hlt, hinner⟩ := hexpands.of_nested hnested (hsame.opens hopens')
      exact ih inside hlt hinner

/-- Arguments that are accepted have an expansion. -/
theorem exists_expands_of_parse (h : parse fs workDir args = .ok a) :
    ∃ depth expansion, Expands fs workDir depth args expansion := by
  rw [parse_eq] at h
  cases htaken : takeAll fs workDir maxDepth {} args with
  | error e =>
      rw [htaken] at h
      exact absurd h (by simp [Except.bind])
  | ok b =>
      obtain ⟨depth, -, expansion, hexpands⟩ := exists_expands htaken
      exact ⟨depth, expansion, hexpands⟩

/-- **Files that include themselves** are never accepted, wherever they stand. -/
theorem not_ok_of_includesItself {level : Nat} (hnested : Nested fs workDir args level arg)
    (hself : IncludesItself fs workDir arg) (a : Arguments) : parse fs workDir args ≠ .ok a := by
  intro hparsed
  obtain ⟨depth, expansion, hexpands⟩ := exists_expands_of_parse hparsed
  obtain ⟨lines, -, -, hopens, -⟩ := id hself
  obtain ⟨inside, inner, -, hinner⟩ := hexpands.of_nested hnested hopens
  exact hself.not_expands hopens hinner

/-! ### Reading ends -/

/-- **Reading ends** on every pattern of files that name each other. No sequence of steps within the
limit goes on forever, and reading takes such steps until there are no more. Only files around which
at most fifteen others are open are looked at. Files that are nested at most sixteen deep are never
nested too deeply, and reading fails for that reason exactly when expansion comes to a seventeenth.
If expansion comes to a file that includes itself, the arguments are not accepted. -/
theorem reading_ends (fs : Files) (workDir : Path) :
    (WellFounded fun next r => Agenda.Proceeds fs workDir r next) ∧
    ∀ args : List String,
      (∃ last, ReflTransGen (Agenda.Proceeds fs workDir) (.start args) last ∧
        Agenda.Ends fs workDir last (parse fs workDir args)) ∧
      (∀ others : Files,
        (∀ depth ≤ 15, ∀ arg file, Reaches fs workDir args depth arg →
          Argument.of arg.toList = .responseFile file →
          others.readText (workDir.join ⟨file⟩) = fs.readText (workDir.join ⟨file⟩)) →
        parse others workDir args = parse fs workDir args) ∧
      ((∀ arg, Nested fs workDir args 16 arg → ¬ NamesFile arg) →
        ¬ TooDeep (parse fs workDir args)) ∧
      (TooDeep (parse fs workDir args) ↔
        ∃ arg, Reaches fs workDir args 16 arg ∧ NamesFile arg) ∧
      ∀ depth arg, Reaches fs workDir args depth arg → IncludesItself fs workDir arg →
        ∀ a, parse fs workDir args ≠ .ok a := by
  refine ⟨Agenda.wellFounded_proceeds fs workDir, fun args => ⟨exists_ends fs workDir args,
    fun others hsame => ?_, fun hshallow hdeep => ?_, tooDeep_iff_reaches,
    fun depth arg hreached hself => ?_⟩⟩
  · exact parse_congr_of_reaches fun depth hdepth => hsame depth (Nat.le_of_lt_succ hdepth)
  · obtain ⟨arg, hreached, hnames⟩ := tooDeep_iff_reaches.mp hdeep
    exact hshallow arg (nested_of_reaches hreached) hnames
  · exact not_ok_of_includesItself (nested_of_reaches hreached) hself

/-! ### A file that names itself -/

namespace Looping

/-- A file that names an output, and one that names itself by another spelling after that. -/
def files : Files :=
  { entries := [(["g.rsp"], .file (Bytes.ofString "-out:G.dll") ⟨1⟩ false),
      (["loop.rsp"], .file (Bytes.ofString "-out:G.dll\n@./loop.rsp") ⟨1⟩ false)] }

/-- The same without the file that names itself. -/
def without : Files :=
  { entries := [(["g.rsp"], .file (Bytes.ofString "-out:G.dll") ⟨1⟩ false)] }

/-- The directory of the files. -/
def root : Path := ⟨"/"⟩

/-- The first file holds one argument. -/
theorem opens_output : Opens files root "@g.rsp" ["-out:G.dll"] :=
  ⟨"g.rsp", "-out:G.dll", by decide +kernel⟩

/-- That argument names no file. -/
theorem not_namesFile_output : ¬ NamesFile "-out:G.dll" := by
  rintro ⟨file, hfile⟩
  have houtput : Argument.of "-out:G.dll".toList = .output "G.dll" := by decide +kernel
  exact absurd (houtput.symm.trans hfile) (by simp)

/-- What stands in the first file. -/
theorem nested_cases {depth : Nat} {arg : String} (h : Nested files root ["@g.rsp"] depth arg) :
    depth = 0 ∧ arg = "@g.rsp" ∨ depth = 1 ∧ arg = "-out:G.dll" := by
  induction h with
  | given mem => exact .inl ⟨rfl, List.mem_singleton.mp mem⟩
  | inside _ opens mem ih =>
      rcases ih with ⟨rfl, rfl⟩ | ⟨rfl, rfl⟩
      · obtain rfl := opens.unique opens_output
        exact .inr ⟨rfl, List.mem_singleton.mp mem⟩
      · exact absurd opens.namesFile not_namesFile_output

/-- The second file includes itself. -/
theorem includesItself : IncludesItself files root "@loop.rsp" := by
  refine ⟨["-out:G.dll", "@./loop.rsp"], 0, "@./loop.rsp",
    ⟨"loop.rsp", "-out:G.dll\n@./loop.rsp", by decide +kernel⟩, .given (by simp),
    "loop.rsp", "./loop.rsp", ["loop.rsp"], by decide +kernel⟩

/-- The second file is not looked at when the first one is read, which is not nested too deeply;
and the second one is never accepted. -/
theorem loop_not_accepted :
    parse without root ["@g.rsp"] = parse files root ["@g.rsp"] ∧
      (∀ arg, Nested files root ["@g.rsp"] 16 arg → ¬ NamesFile arg) ∧
      ¬ TooDeep (parse files root ["@g.rsp"]) ∧
      IncludesItself files root "@loop.rsp" ∧ ∀ a, parse files root ["@loop.rsp"] ≠ .ok a := by
  obtain ⟨-, hread⟩ := reading_ends files root
  obtain ⟨-, hsame, hshallow, -, -⟩ := hread ["@g.rsp"]
  obtain ⟨-, -, -, -, hself⟩ := hread ["@loop.rsp"]
  have hnone : ∀ arg, Nested files root ["@g.rsp"] 16 arg → ¬ NamesFile arg := by
    intro arg hnested
    rcases nested_cases hnested with ⟨h, -⟩ | ⟨h, -⟩ <;> exact absurd h (by decide)
  refine ⟨hsame without fun depth _ arg file hreached hfile => ?_, hnone, hshallow hnone,
    includesItself, hself 0 "@loop.rsp" ⟨{}, [], .refl⟩ includesItself⟩
  rcases nested_cases (nested_of_reaches hreached) with ⟨-, rfl⟩ | ⟨-, rfl⟩
  · obtain rfl : file = "g.rsp" :=
      Argument.responseFile.inj (hfile.symm.trans (by decide +kernel))
    decide +kernel
  · exact absurd ⟨file, hfile⟩ not_namesFile_output

end Looping
end IncrementalBuild.Arguments
