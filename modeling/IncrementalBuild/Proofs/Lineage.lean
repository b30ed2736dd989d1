import IncrementalBuild.Proofs.Engine.Watched
import IncrementalBuild.Proofs.Run
/-!
# Where compilations and kept bytes come from

In a run of a watched toolchain every compilation was founded by a turn, and all kept bytes were
put out by the last emission of the run. What a compilation has of its founder stays as it is
until the next one is founded; what is kept stays in line with the turn that emitted it.

## Main definitions

* `FoundedBy` — the turn that created the compilation of a state.
* `KeptFrom` — the turn and the emission that kept bytes come from.
* `Turn.PassedOver` — the turn reused bytes although a reference had another time than before.
* `Lineage` — what holds of every state of a run.
* `Unchanged` — what a build finds that can reuse bytes.

## Main results

* `Lineage.step` — one more turn keeps the lineage.
* `Run.lineage` — every run has a lineage.
-/

namespace IncrementalBuild

variable {σ ρ φ υ : Type}

/-! ### Definitions -/

section Definitions

variable (t : Toolchain σ ρ φ υ) (turns : List (Turn (Ledger σ ρ φ) ρ φ (Labelled υ)))
  (s : OutputState ρ φ (Labelled υ)) (ledger : Ledger σ ρ φ)

/-- The last turn that founded a compilation; the state's compilation is still its own. -/
structure FoundedBy (founder : Turn (Ledger σ ρ φ) ρ φ (Labelled υ))
    (c : Compilation ρ φ (Labelled υ)) : Prop where
  /-- No later turn founded a compilation. -/
  last : ∃ later earlier, turns = later ++ founder :: earlier ∧
    ∀ u ∈ later, ¬ u.Founded t.watched
  founded : founder.Founded t.watched
  /-- Every request since continued the compilation. -/
  identity : ∃ current, s.options = some current ∧ founder.options.sameIdentity current = true
  /-- The unit still has the founder's settings. -/
  settings : c.unit.settings = founder.options.unitSettings

/-- The turn that kept bytes come from, with what has stayed as it was then. -/
structure KeptFrom (origin : Turn (Ledger σ ρ φ) ρ φ (Labelled υ))
    (later : List (Turn (Ledger σ ρ φ) ρ φ (Labelled υ))) (em : Emission) (k : KeptOutput) :
    Prop where
  /-- The turn belongs to the run. -/
  turn : ∃ earlier, turns = later ++ origin :: earlier
  /-- The turn emitted once. -/
  emitted : (origin.outcome t.watched).world.engine.emissions =
    origin.world.engine.emissions ++ [em]
  /-- Nothing was emitted since. -/
  last : ledger.emissions = (origin.outcome t.watched).world.engine.emissions
  /-- The turn kept them. -/
  stored : (origin.outcome t.watched).state.kept = some k
  /-- The bytes are those that the engine put out. -/
  output : ∃ output, em.outcome = .ok output ∧ k.binary = output.binary
  /-- The turn had a result, and it was a success. -/
  succeeded : ∃ result, (origin.outcome t.watched).result = .ok result ∧ result.succeeded = true
  /-- Every request since had the turn's identity. -/
  identity : ∃ current, s.options = some current ∧ origin.options.sameIdentity current = true
  mode : k.mode = origin.options.debugSymbols
  /-- The committed sources have the paths and times that the turn committed. -/
  sources : ∃ committed current, (origin.outcome t.watched).state.sources? = some committed ∧
    s.sources? = some current ∧ committed.Agrees current
  /-- The committed references have the paths that the turn committed. -/
  references : ∃ committed current,
    (origin.outcome t.watched).state.references? = some committed ∧
    s.references? = some current ∧ committed.SamePaths current

end Definitions

/-- A turn that reused bytes although it found the time of a reference changed. -/
def Turn.PassedOver (t : Toolchain σ ρ φ υ) (p : Path) (u : Turn σ ρ φ υ) : Prop :=
  u.options.outputReuse = .whenNoSourceChange ∧
    ∃ report, u.report? t = some report ∧ report.source = .reused ∧
      ∃ q ∈ report.references.changed, p.same q = true

/-- References whose times are not those that `origin` committed were passed over since. -/
def DriftsBy (t : Toolchain σ ρ φ υ) (s : OutputState ρ φ (Labelled υ))
    (origin : Turn (Ledger σ ρ φ) ρ φ (Labelled υ))
    (later : List (Turn (Ledger σ ρ φ) ρ φ (Labelled υ))) : Prop :=
  ∀ committed current p, (origin.outcome t.watched).state.references? = some committed →
    s.references? = some current → committed.time? p ≠ current.time? p →
    ∃ u ∈ later, u.PassedOver t.watched p

/-- What holds of every state of a run. -/
structure Lineage (t : Toolchain σ ρ φ υ) (turns : List (Turn (Ledger σ ρ φ) ρ φ (Labelled υ)))
    (s : OutputState ρ φ (Labelled υ)) (ledger : Ledger σ ρ φ) : Prop where
  /-- Every compilation was founded, and has its snapshots. -/
  founded : ∀ c, s.compilation = some c →
    (∃ references sources, c.Committed references sources) ∧
      ∃ founder, FoundedBy t turns s founder c
  /-- All kept bytes were emitted, from a unit with the settings of the present one. -/
  kept : ∀ k, s.kept = some k → ∃ origin later em, KeptFrom t turns s ledger origin later em k ∧
    DriftsBy t s origin later ∧ ∃ c, s.compilation = some c ∧ em.settings = c.unit.settings

variable {t : Toolchain σ ρ φ υ} {turns later : List (Turn (Ledger σ ρ φ) ρ φ (Labelled υ))}
  {s s' : OutputState ρ φ (Labelled υ)} {ledger ledger' : Ledger σ ρ φ}
  {u origin founder : Turn (Ledger σ ρ φ) ρ φ (Labelled υ)} {em : Emission} {k : KeptOutput}
  {c c' : Compilation ρ φ (Labelled υ)}

/-! ### Identity -/

/-- Having one identity carries over. -/
theorem BuildOptions.sameIdentity_trans {a b d : BuildOptions} (h : a.sameIdentity b = true)
    (h' : b.sameIdentity d = true) : a.sameIdentity d = true := by
  simp only [sameIdentity, Bool.and_eq_true, beq_iff_eq] at h h' ⊢
  obtain ⟨⟨⟨⟨h₁, h₂⟩, h₃⟩, h₄⟩, h₅⟩ := h
  obtain ⟨⟨⟨⟨k₁, k₂⟩, k₃⟩, k₄⟩, k₅⟩ := h'
  exact ⟨⟨⟨⟨h₁.trans k₁, h₂.trans k₂⟩, h₃.trans k₃⟩, h₄.trans k₄⟩, h₅.trans k₅⟩

/-- Every request has its own identity. -/
theorem BuildOptions.sameIdentity_refl (o : BuildOptions) : o.sameIdentity o = true := by
  simp [sameIdentity]

/-! ### One more turn -/

/-- A later turn that founds nothing leaves the founder in place. -/
theorem FoundedBy.cons (h : FoundedBy t turns s founder c) (hu : ¬ u.Founded t.watched)
    (hidentity : ∀ previous, s.options = some previous →
      ∃ current, s'.options = some current ∧ previous.sameIdentity current = true)
    (hsettings : c'.unit.settings = c.unit.settings) :
    FoundedBy t (u :: turns) s' founder c' := by
  obtain ⟨later, earlier, rfl, hlater⟩ := h.last
  refine ⟨⟨u :: later, earlier, rfl, ?_⟩, h.founded, ?_, hsettings.trans h.settings⟩
  · intro v hv
    rcases List.mem_cons.mp hv with rfl | hv
    · exact hu
    · exact hlater v hv
  · obtain ⟨previous, hprevious, hsame⟩ := h.identity
    obtain ⟨current, hcurrent, hsame'⟩ := hidentity previous hprevious
    exact ⟨current, hcurrent, BuildOptions.sameIdentity_trans hsame hsame'⟩

/-- A later turn that emits nothing, and commits the same sources and the same paths of
references, leaves kept bytes where they came from. -/
theorem KeptFrom.cons (h : KeptFrom t turns s ledger origin later em k)
    (hemissions : ledger'.emissions = ledger.emissions)
    (hidentity : ∀ previous, s.options = some previous →
      ∃ current, s'.options = some current ∧ previous.sameIdentity current = true)
    (hsources : ∀ old, s.sources? = some old → ∃ new, s'.sources? = some new ∧ old.Agrees new)
    (hreferences : ∀ old, s.references? = some old →
      ∃ new, s'.references? = some new ∧ old.SamePaths new) :
    KeptFrom t (u :: turns) s' ledger' origin (u :: later) em k := by
  obtain ⟨earlier, rfl⟩ := h.turn
  obtain ⟨previous, hprevious, hsame⟩ := h.identity
  obtain ⟨committed, old, hcommitted, hold, hagrees⟩ := h.sources
  obtain ⟨rcommitted, rold, hrcommitted, hrold, hpaths⟩ := h.references
  obtain ⟨current, hcurrent, hsame'⟩ := hidentity previous hprevious
  obtain ⟨new, hnew, hagrees'⟩ := hsources old hold
  obtain ⟨rnew, hrnew, hpaths'⟩ := hreferences rold hrold
  exact {
    turn := ⟨earlier, rfl⟩
    emitted := h.emitted
    last := hemissions.trans h.last
    stored := h.stored
    output := h.output
    succeeded := h.succeeded
    identity := ⟨current, hcurrent, BuildOptions.sameIdentity_trans hsame hsame'⟩
    mode := h.mode
    sources := ⟨committed, new, hcommitted, hnew, hagrees.trans hagrees'⟩
    references := ⟨rcommitted, rnew, hrcommitted, hrnew, hpaths.trans hpaths'⟩ }

/-- Bytes that a turn keeps after it emitted come from that turn. -/
theorem keptFrom_emitUnit (turns : List (Turn (Ledger σ ρ φ) ρ φ (Labelled υ)))
    {unit : Labelled υ} {report : Report} {w' : World (Ledger σ ρ φ)}
    {references sources : Snapshot}
    (houtcome : u.outcome t.watched = OutputState.emitUnit t.watched u.options unit report s w')
    (hw : w'.engine.emissions = u.world.engine.emissions) (hoptions : s.options = some u.options)
    (hcompilation : s.compilation = some c) (hcommitted : c.Committed references sources)
    (hk : (u.outcome t.watched).state.kept = some k) :
    ∃ em, KeptFrom t (u :: turns) (u.outcome t.watched).state (u.outcome t.watched).world.engine
        u [] em k ∧ em.settings = unit.settings := by
  obtain ⟨em, hsettings, hled, hemissions⟩ :=
    OutputState.emitUnit_emits t u.options unit report s w'
  obtain ⟨kept, after, hstate, -⟩ := OutputState.emitUnit_frame t.watched u.options unit report s w'
  rw [← houtcome] at hled hemissions hstate
  obtain ⟨output, result, houtput, hresult, hsucceeded, hbinary, hmode⟩ := hled.kept k hk
  have hs : (u.outcome t.watched).state.sources? = some sources := by
    rw [hstate, OutputState.sources?, hcompilation]
    exact hcommitted.sources_eq
  have hr : (u.outcome t.watched).state.references? = some references := by
    rw [hstate, OutputState.references?, hcompilation]
    exact hcommitted.references_eq
  refine ⟨em, ?_, hsettings⟩
  exact {
    turn := ⟨turns, rfl⟩
    emitted := by rw [hemissions, hw]
    last := rfl
    stored := hk
    output := ⟨output, houtput, hbinary⟩
    succeeded := ⟨result, hresult, hsucceeded⟩
    identity := ⟨u.options, by rw [hstate]; exact hoptions, BuildOptions.sameIdentity_refl _⟩
    mode := hmode
    sources := ⟨sources, sources, hs, hs, Snapshot.Agrees.refl _⟩
    references := ⟨references, references, hr, hr, Snapshot.SamePaths.refl _⟩ }

/-- Nothing drifts in the turn that emitted. -/
theorem DriftsBy.refl (u : Turn (Ledger σ ρ φ) ρ φ (Labelled υ)) :
    DriftsBy t (u.outcome t.watched).state u [] := by
  intro committed current p hcommitted hcurrent hne
  rw [hcommitted] at hcurrent
  obtain rfl := Option.some.inj hcurrent
  exact absurd rfl hne

/-! ### The lineage of a run -/

/-- A turn that does not touch the state keeps the lineage. -/
theorem Lineage.of_state_eq (h : Lineage t turns s ledger) (hu : u.state = s)
    (hstate : (u.outcome t.watched).state = s) (hemissions : ledger'.emissions = ledger.emissions) :
    Lineage t (u :: turns) s ledger' := by
  have hfounded : ¬ u.Founded t.watched := fun hf => hf (by rw [hstate, hu])
  have hidentity : ∀ previous, s.options = some previous →
      ∃ current, s.options = some current ∧ previous.sameIdentity current = true :=
    fun previous hprevious => ⟨previous, hprevious, BuildOptions.sameIdentity_refl previous⟩
  refine ⟨fun c hc => ?_, fun k hk => ?_⟩
  · obtain ⟨hcommitted, founder, hfounder⟩ := h.founded c hc
    exact ⟨hcommitted, founder, hfounder.cons hfounded hidentity rfl⟩
  · obtain ⟨origin, later, em, hfrom, hdrift, hunit⟩ := h.kept k hk
    refine ⟨origin, u :: later, em, ?_, ?_, hunit⟩
    · exact hfrom.cons hemissions hidentity (fun old hold => ⟨old, hold, Snapshot.Agrees.refl old⟩)
        fun old hold => ⟨old, hold, Snapshot.SamePaths.refl old⟩
    · intro committed current p hcommitted hcurrent hne
      obtain ⟨v, hv, hover⟩ := hdrift committed current p hcommitted hcurrent hne
      exact ⟨v, List.mem_cons_of_mem u hv, hover⟩

/-- The changes that a policy allows leave the paths and times of sources and the paths of
references as they were. -/
theorem ReusePolicy.agrees_of_allows {policy : ReusePolicy} {references sources references'
    sources' : Snapshot} (hr : references.Sorted) (hs : sources.Sorted) (hr' : references'.Sorted)
    (hs' : sources'.Sorted)
    (h : policy.allows (.between references references') (.between sources sources') = true) :
    policy ≠ .none ∧ sources.Agrees sources' ∧ references.SamePaths references' ∧
      (policy = .whenNoChange → references.Agrees references') := by
  cases policy with
  | none => exact absurd h (by simp [allows])
  | whenNoChange =>
      rw [allows, Bool.and_eq_true, Changes.isEmpty_iff_agrees hr hr',
        Changes.isEmpty_iff_agrees hs hs'] at h
      exact ⟨by simp, h.2, h.1.samePaths, fun _ => h.1⟩
  | whenNoSourceChange =>
      rw [allows, Bool.and_eq_true, Changes.isEmpty_iff_agrees hs hs',
        Changes.isMembershipUnchanged_iff_samePaths hr hr'] at h
      exact ⟨by simp, h.1, h.2, by simp⟩

/-- A turn that passes from one compilation to the next in line keeps what was founded. -/
theorem Lineage.founded_advance (h : Lineage t turns s ledger)
    (u : Turn (Ledger σ ρ φ) ρ φ (Labelled υ)) (s' : OutputState ρ φ (Labelled υ))
    (hu : u.state = s) (hold : s.continued? u.options = some c) {plan : Plan}
    {w' : World (Ledger σ ρ φ)}
    (hupdate : c.update t.watched.engine u.options u.world = (.ok (plan, c'), w'))
    (hgeneration : (u.outcome t.watched).state.generation = s.generation)
    (hoptions : s'.options = some u.options) :
    (∃ references sources, c'.Committed references sources) ∧
      ∃ founder, FoundedBy t (u :: turns) s' founder c' := by
  obtain ⟨previous, hprevious, hsame, hc⟩ := OutputState.continued?_eq_some hold
  obtain ⟨⟨references, sources, hcommitted⟩, founder, hfounder⟩ := h.founded c hc
  obtain ⟨hcommitted', -, -⟩ := Compilation.committed_of_update hcommitted hupdate
  refine ⟨⟨_, _, hcommitted'⟩, founder, hfounder.cons ?_ ?_ ?_⟩
  · exact fun hf => hf (by rw [hgeneration, hu])
  · intro previous' hprevious'
    rw [hprevious] at hprevious'
    obtain rfl := Option.some.inj hprevious'
    exact ⟨u.options, hoptions, hsame⟩
  · exact Engine.settings_of_update hupdate

/-- What a build that can reuse bytes finds: the committed snapshots that it is compared with,
and how its own compare with them. -/
structure Unchanged (s : OutputState ρ φ (Labelled υ)) (o : BuildOptions)
    (c' : Compilation ρ φ (Labelled υ)) (plan : Plan) (references sources : Snapshot) : Prop where
  references_eq : s.references? = some references
  sources_eq : s.sources? = some sources
  references_sorted : references.Sorted
  committed : c'.Committed plan.referenceSnapshot plan.sourceSnapshot
  changes : plan.references = .between references plan.referenceSnapshot
  policy : o.outputReuse ≠ .none
  sources_agree : sources.Agrees plan.sourceSnapshot
  same_references : references.SamePaths plan.referenceSnapshot
  references_agree : o.outputReuse = .whenNoChange → references.Agrees plan.referenceSnapshot

/-- A build can reuse bytes only if it finds things unchanged, as far as its policy asks. -/
theorem Lineage.unchanged (h : Lineage t turns s ledger) {o : BuildOptions}
    {w w' : World (Ledger σ ρ φ)} {plan : Plan} (hold : s.continued? o = some c)
    (hupdate : c.update t.watched.engine o w = (.ok (plan, c'), w'))
    (hreusable : s.reusable? o plan.references plan.sources = some k) :
    ∃ references sources, Unchanged s o c' plan references sources := by
  obtain ⟨-, -, -, hc⟩ := OutputState.continued?_eq_some hold
  obtain ⟨hallows, -, -⟩ := OutputState.reusable?_eq_some hreusable
  obtain ⟨⟨references, sources, hcommitted⟩, -⟩ := h.founded c hc
  obtain ⟨hcommitted', hreferences, hsources⟩ :=
    Compilation.committed_of_update hcommitted hupdate
  rw [hreferences, hsources] at hallows
  obtain ⟨hpolicy, hagrees, hpaths, hnochange⟩ := ReusePolicy.agrees_of_allows
    hcommitted.references_sorted hcommitted.sources_sorted hcommitted'.references_sorted
    hcommitted'.sources_sorted hallows
  exact ⟨references, sources, {
    references_eq := by
      rw [OutputState.references?, hc]
      exact hcommitted.references_eq
    sources_eq := by
      rw [OutputState.sources?, hc]
      exact hcommitted.sources_eq
    references_sorted := hcommitted.references_sorted
    committed := hcommitted'
    changes := hreferences
    policy := hpolicy
    sources_agree := hagrees
    same_references := hpaths
    references_agree := hnochange }⟩

/-- A build that can reuse bytes although it finds the time of a reference changed has the policy
that does not look at it, and its changes name the reference. -/
theorem Unchanged.passes_over {o : BuildOptions} {plan : Plan} {references sources : Snapshot}
    (h : Unchanged s o c' plan references sources) {p : Path}
    (hne : references.time? p ≠ plan.referenceSnapshot.time? p) :
    o.outputReuse = .whenNoSourceChange ∧ ∃ q ∈ plan.references.changed, p.same q = true := by
  refine ⟨?_, ?_⟩
  · cases hpolicy : o.outputReuse with
    | none => exact absurd hpolicy h.policy
    | whenNoChange => exact absurd (h.references_agree hpolicy p) hne
    | whenNoSourceChange => rfl
  · rw [h.changes, Changes.exists_changed_iff h.references_sorted h.committed.references_sorted]
    have hp := h.same_references p
    rcases hold : references.time? p with _ | a <;>
      rcases hnew : plan.referenceSnapshot.time? p with _ | b
    · exact absurd (hold.trans hnew.symm) hne
    · simp [hold, hnew] at hp
    · simp [hold, hnew] at hp
    · refine ⟨a, b, rfl, rfl, fun hab => hne ?_⟩
      rw [hold, hnew, hab]

/-- A turn that reuses bytes keeps where they come from. -/
theorem Lineage.kept_reuse (h : Lineage t turns s ledger)
    (u : Turn (Ledger σ ρ φ) ρ φ (Labelled υ)) (s' : OutputState ρ φ (Labelled υ))
    (ledger' : Ledger σ ρ φ) (hu : u.state = s)
    (hold : s.continued? u.options = some c) {plan : Plan} {w' : World (Ledger σ ρ φ)}
    (hupdate : c.update t.watched.engine u.options u.world = (.ok (plan, c'), w'))
    (hreusable : s.reusable? u.options plan.references plan.sources = some k)
    (hs' : s'.options = some u.options ∧ s'.compilation = some c')
    (hemissions : ledger'.emissions = ledger.emissions) :
    ∃ origin later em, KeptFrom t (u :: turns) s' ledger' origin later em k ∧
      DriftsBy t s' origin later ∧ em.settings = c'.unit.settings := by
  obtain ⟨previous, hprevious, hsame, hc⟩ := OutputState.continued?_eq_some hold
  obtain ⟨-, hkept, -⟩ := OutputState.reusable?_eq_some hreusable
  obtain ⟨references, sources, hunchanged⟩ := h.unchanged hold hupdate hreusable
  have hr' : s'.references? = some plan.referenceSnapshot := by
    rw [OutputState.references?, hs'.2]
    exact hunchanged.committed.references_eq
  have hsrc' : s'.sources? = some plan.sourceSnapshot := by
    rw [OutputState.sources?, hs'.2]
    exact hunchanged.committed.sources_eq
  obtain ⟨origin, later, em, hfrom, hdrift, d, hd, hsettings⟩ := h.kept k hkept
  rw [hc] at hd
  obtain rfl := Option.some.inj hd
  refine ⟨origin, u :: later, em, ?_, ?_, ?_⟩
  · refine hfrom.cons hemissions ?_ ?_ ?_
    · intro previous' hprevious'
      rw [hprevious] at hprevious'
      obtain rfl := Option.some.inj hprevious'
      exact ⟨u.options, hs'.1, hsame⟩
    · intro old hold'
      rw [hunchanged.sources_eq] at hold'
      obtain rfl := Option.some.inj hold'
      exact ⟨_, hsrc', hunchanged.sources_agree⟩
    · intro old hold'
      rw [hunchanged.references_eq] at hold'
      obtain rfl := Option.some.inj hold'
      exact ⟨_, hr', hunchanged.same_references⟩
  · -- A time that is not the emission's was different before already, or changed in this turn.
    intro committed current p hcommittedAt hcurrent hne
    rw [hr'] at hcurrent
    obtain rfl := Option.some.inj hcurrent
    by_cases hbefore : committed.time? p = references.time? p
    · rw [hbefore] at hne
      obtain ⟨hpolicy, hchanged⟩ := hunchanged.passes_over hne
      subst hu
      exact ⟨u, List.mem_cons_self, hpolicy, plan.report .reused,
        Turn.report?_of_reusable hold hupdate hreusable, rfl, hchanged⟩
    · obtain ⟨v, hv, hover⟩ :=
        hdrift committed references p hcommittedAt hunchanged.references_eq hbefore
      exact ⟨v, List.mem_cons_of_mem u hv, hover⟩
  · exact hsettings.trans (Engine.settings_of_update hupdate).symm

/-- **Step.** One more turn keeps the lineage. -/
theorem Lineage.step (h : Lineage t turns s ledger) (o : BuildOptions) (host : Host) :
    Lineage t (⟨o, s, ⟨host, ledger⟩⟩ :: turns) (s.build t.watched o ⟨host, ledger⟩).state
      (s.build t.watched o ⟨host, ledger⟩).world.engine := by
  set u : Turn (Ledger σ ρ φ) ρ φ (Labelled υ) := ⟨o, s, ⟨host, ledger⟩⟩ with hu
  have houtcome : u.outcome t.watched = s.build t.watched o ⟨host, ledger⟩ := rfl
  rw [← houtcome]
  have hcourse : Course t.watched o s ⟨host, ledger⟩ (u.outcome t.watched) :=
    OutputState.course_build t.watched o s ⟨host, ledger⟩
  generalize hout : u.outcome t.watched = out at hcourse
  cases hcourse with
  | @unfounded e w' new create =>
      exact h.of_state_eq rfl (by rw [hout]) (Engine.emissions_of_create create)
  | @stuck c e w' old update =>
      exact h.of_state_eq rfl (by rw [hout]) (Engine.emissions_of_update update)
  | @founded c w' new create =>
      obtain ⟨_, _, _, _, _, _, -, -, -, -, -, -, -, hcommitted⟩ := Compilation.create_eq_ok create
      obtain ⟨kept, after, hstate, -⟩ := OutputState.emitUnit_frame t.watched o c.unit
        { kind := .full, source := .emitted } (s.found o c) w'
      rw [← hout] at hstate ⊢
      refine ⟨fun d hd => ?_, fun k hk => ?_⟩
      · rw [hstate] at hd
        obtain rfl : c = d := Option.some.inj hd
        refine ⟨⟨_, _, hcommitted⟩, u, ⟨[], turns, rfl, by simp⟩, ?_, ?_, ?_⟩
        · intro hf
          rw [hstate] at hf
          exact Nat.succ_ne_self _ hf
        · exact ⟨o, by rw [hstate]; rfl, BuildOptions.sameIdentity_refl o⟩
        · exact Engine.settings_of_create create
      · obtain ⟨em, hfrom, hsettings⟩ := keptFrom_emitUnit turns hout
          (Engine.emissions_of_create create) rfl rfl hcommitted hk
        exact ⟨u, [], em, hfrom, DriftsBy.refl u, c, by rw [hstate]; rfl, hsettings⟩
  | @emitted c c' plan w' old update changed =>
      obtain ⟨kept, after, hstate, -⟩ := OutputState.emitUnit_frame t.watched o c'.unit
        (plan.report .emitted) (s.advance o c') w'
      rw [← hout] at hstate ⊢
      have hfounded := h.founded_advance u (u.outcome t.watched).state rfl old update
        (by rw [hstate]; rfl) (by rw [hstate]; rfl)
      refine ⟨fun d hd => ?_, fun k hk => ?_⟩
      · rw [hstate] at hd
        obtain rfl : c' = d := Option.some.inj hd
        exact hfounded
      · obtain ⟨⟨references, sources, hcommitted⟩, -⟩ := hfounded
        obtain ⟨em, hfrom, hsettings⟩ := keptFrom_emitUnit turns hout
          (Engine.emissions_of_update update) rfl rfl hcommitted hk
        exact ⟨u, [], em, hfrom, DriftsBy.refl u, c', by rw [hstate]; rfl, hsettings⟩
  | @reused c c' plan w' k old update unchanged =>
      obtain ⟨hstate, hengine⟩ := OutputState.reuse_frame o k (plan.report .reused)
        (s.advance o c') w'
      rw [← hout] at hstate hengine ⊢
      have hfounded := h.founded_advance u (u.outcome t.watched).state rfl old update
        (by rw [hstate]; rfl) (by rw [hstate]; rfl)
      refine ⟨fun d hd => ?_, fun k' hk => ?_⟩
      · rw [hstate] at hd
        obtain rfl : c' = d := Option.some.inj hd
        exact hfounded
      · obtain ⟨-, hkept, -⟩ := OutputState.reusable?_eq_some unchanged
        rw [hstate] at hk
        obtain rfl : k = k' := Option.some.inj (hkept.symm.trans hk)
        obtain ⟨origin, later, em, hfrom, hdrift, hsettings⟩ := h.kept_reuse u
          (u.outcome t.watched).state (u.outcome t.watched).world.engine rfl old update
          unchanged ⟨by rw [hstate]; rfl, by rw [hstate]; rfl⟩
          (by rw [hengine]; exact Engine.emissions_of_update update)
        exact ⟨origin, later, em, hfrom, hdrift, c', by rw [hstate]; rfl, hsettings⟩

/-- **Lineage.** Every state of a run has a lineage. -/
theorem Run.lineage (run : Run t.watched turns s ledger) : Lineage t turns s ledger := by
  induction run with
  | start engine =>
      refine ⟨fun c hc => ?_, fun k hk => ?_⟩
      · exact absurd hc (by simp)
      · exact absurd hk (by simp)
  | next run o host ih => exact ih.step o host

end IncrementalBuild
