import IncrementalBuild.Proofs.Calm
import IncrementalBuild.Proofs.Host.Places
/-!
# What publishing a file leaves

On a host on which nobody else saves files, a file that was published is what its path shows, and
publishing it changed nothing else but its temporary file. Accesses may still fail.

## Main definitions

* `Host.Touches` — a host that comes after another one, with changes at some places only.
* `Host.Shows`, `Host.Holds` — a path leads to a file, and a file stands at the place of a path.

## Main results

* `Files.at?_of_rename` — what stands where after a file was moved.
* `publish_eq_ok` — a file that was published.
* `removeIfPresent_touches`, `not_shows_removeIfPresent` — a file that was removed, if it could be.
-/

namespace IncrementalBuild

/-- A host that comes after another one, on which some places may have changed. -/
structure Host.Touches (places : List Location) (h h' : Host) : Prop where
  later : h.Precedes h'
  files : h.files.Spares places h'.files

variable {α : Type} {h h' h'' : Host} {p : Path} {places : List Location} {contents : Bytes}

namespace Host

/-- A path leads to a file with some contents. -/
def Shows (h : Host) (p : Path) (contents : Bytes) : Prop := h.files.contentsOf? p = some contents

/-- A file with some contents stands at the place of a path. -/
def Holds (h : Host) (p : Path) (contents : Bytes) : Prop :=
  h.files.contentsAt? (h.files.place p) = some contents

/-- A file that a path leads to stands at its place. -/
theorem Shows.holds (hp : h.Shows p contents) : h.Holds p contents :=
  (Files.Spares.refl [] h.files).contentsAt?_of_contentsOf? hp (by simp)

/-- At a place stands one file. -/
theorem Holds.unique {other : Bytes} (hp : h.Holds p contents) (hp' : h.Holds p other) :
    contents = other :=
  Option.some.inj (hp.symm.trans hp')

/-- A path shows one file. -/
theorem Shows.unique {other : Bytes} (hp : h.Shows p contents) (hp' : h.Shows p other) :
    contents = other :=
  hp.holds.unique hp'.holds

namespace Touches

/-- A host leaves itself as it is. -/
theorem refl (h : Host) (places : List Location) : Touches places h h :=
  ⟨.refl h, .refl places _⟩

/-- A host with other things to come has the files of the one before. -/
theorem of_files_eq (hlater : h.Precedes h') (hfiles : h'.files = h.files) :
    Touches places h h' :=
  ⟨hlater, by rw [hfiles]; exact .refl places _⟩

/-- Changes at some places are changes at more places. -/
theorem mono {more : List Location} (ht : Touches places h h') (hmore : places ⊆ more) :
    Touches more h h' :=
  ⟨ht.later, ht.files.mono hmore⟩

/-- Changes come one after the other. -/
theorem trans (ht : Touches places h h') (ht' : Touches places h' h'') : Touches places h h'' :=
  ⟨ht.later.trans ht'.later, ht.files.trans ht'.files⟩

/-- A path names the same place afterwards. -/
theorem place_eq (ht : Touches places h h') (p : Path) : h'.files.place p = h.files.place p :=
  (Files.place_congr ht.files.workDir p).symm

/-- Files at other places show what they showed. -/
theorem shows (ht : h.Touches places h') (hloc : h.files.place p ∉ places)
    (hp : h.Shows p contents) : h'.Shows p contents :=
  ht.files.contentsOf?_eq_some hp hloc

/-- Files at other places are those that stood there before. -/
theorem holds_iff (ht : h.Touches places h') (hloc : h.files.place p ∉ places) :
    h'.Holds p contents ↔ h.Holds p contents := by
  rw [Holds, Holds, ht.place_eq, ht.files.contentsAt?_eq hloc]

end Touches
end Host

/-! ### Accesses -/

namespace Access

/-- A look at a calm host leaves the files. -/
theorem files_look (f : Files → Except FileError α) (hc : h.Calm) :
    (look f h).2.files = h.files := by
  rw [look_snd]
  exact hc.files_enter

/-- What a look at a calm host shows is there. -/
theorem shown_of_look {f : Files → Except FileError α} {v : α} (hc : h.Calm)
    (hlook : look f h = (.ok v, h')) : f h.files = .ok v := by
  rw [← hc.files_enter]
  exact look_eq_ok hlook

/-- A change that succeeds changes the files as it says. -/
theorem change_eq_ok {f : Files → Except FileError Files} (hc : h.Calm)
    (hchange : change f h = (.ok (), h')) : f h.files = .ok h'.files := by
  rw [change] at hchange
  split at hchange
  · exact absurd hchange (by simp)
  · next henter =>
    have hfiles := hc.files_enter
    rw [henter] at hfiles
    split at hchange
    · next hf =>
      obtain ⟨-, rfl⟩ := Prod.mk.inj hchange
      rw [← hfiles]
      exact hf
    · exact absurd hchange (by simp)

/-- A change that fails leaves the files. -/
theorem change_eq_error {f : Files → Except FileError Files} {e : FileError} (hc : h.Calm)
    (hchange : change f h = (.error e, h')) : h'.files = h.files := by
  have hfiles := hc.files_enter
  rw [change] at hchange
  split at hchange
  · next henter =>
    rw [henter] at hfiles
    obtain ⟨-, rfl⟩ := Prod.mk.inj hchange
    exact hfiles
  · next henter =>
    rw [henter] at hfiles
    split at hchange
    · exact absurd hchange (by simp)
    · obtain ⟨-, rfl⟩ := Prod.mk.inj hchange
      exact hfiles

/-- A change that fails for no reason of its own fails for one that the files explain. -/
theorem error_of_change {f : Files → Except FileError Files} {e : FileError} (hc : h.Calm)
    (hfree : h.enter.1 = none) (hchange : change f h = (.error e, h')) : f h.files = .error e := by
  have hfiles := hc.files_enter
  rw [change] at hchange
  split at hchange
  · next henter =>
    rw [henter] at hfree
    exact absurd hfree (by simp)
  · next henter =>
    rw [henter] at hfiles
    split at hchange
    · exact absurd hchange (by simp)
    · next hf =>
      obtain ⟨he, -⟩ := Prod.mk.inj hchange
      rw [← hfiles, hf, Except.error.inj he]

/-- A change touches the places that it touches when it succeeds. -/
theorem change_touches {f : Files → Except FileError Files} (hc : h.Calm)
    (hf : ∀ a, f h.files = .ok a → h.files.Spares places a) :
    h.Touches places (change f h).2 := by
  have hlater := precedes_change f h
  rcases hchange : change f h with ⟨e | ⟨⟩, h'⟩
  · rw [hchange] at hlater
    exact .of_files_eq hlater (change_eq_error hc hchange)
  · rw [hchange] at hlater
    exact ⟨hlater, hf _ (change_eq_ok hc hchange)⟩

/-- Directories that are created are made, also when one of them cannot be. -/
theorem createDirectories_makes (hc : h.Calm) (p : Path) :
    Files.Makes p h.files (createDirectories p h).2.files := by
  have hfiles := hc.files_enter
  rw [createDirectories]
  split
  · next henter =>
    rw [henter] at hfiles
    rw [hfiles]
    exact .refl p _
  · next entered henter =>
    rw [henter] at hfiles
    have hmakes := Files.makes_createDirectories entered.files p
    rw [hfiles] at hmakes
    split <;>
    · next hmade =>
      rw [hfiles] at hmade
      rw [hmade] at hmakes
      exact hmakes

/-- Creating directories touches no place that is taken. -/
theorem createDirectories_touches (hc : h.Calm) (p : Path) :
    h.Touches [] (createDirectories p h).2 :=
  ⟨precedes_createDirectories p h, (createDirectories_makes hc p).spares⟩

/-- Removing a file touches its place. -/
theorem remove_touches (hc : h.Calm) (p : Path) :
    h.Touches [h.files.place p] (remove p h).2 :=
  change_touches hc fun _ hremove => Files.spares_remove hremove

/-- Writing a file touches its place. -/
theorem write_touches (hc : h.Calm) (p : Path) (contents : Bytes) :
    h.Touches [h.files.place p] (write p contents h).2 := by
  rw [write, fill_eq_change (hc.not_mem_names _ p)]
  exact change_touches hc fun _ hwrite => Files.spares_write hwrite

/-- Two accesses that succeed one after the other. -/
theorem andThen_eq_ok {first : Access Unit} {second : Access α} {v : α}
    (hboth : andThen first second h = (.ok v, h'')) :
    ∃ h', first h = (.ok (), h') ∧ second h' = (.ok v, h'') := by
  rw [andThen] at hboth
  split at hboth
  · next h' hfirst => exact ⟨h', hfirst, hboth⟩
  · exact absurd hboth (by simp)

end Access

/-- Removing a file, if it can be removed, touches its place. -/
theorem removeIfPresent_touches (hc : h.Calm) (p : Path) :
    h.Touches [h.files.place p] (removeIfPresent p h) :=
  Access.remove_touches hc p

/-- A file that was to be removed and is still there stood there before. -/
theorem shows_of_removeIfPresent (hc : h.Calm) (hshows : (removeIfPresent p h).Shows p contents) :
    h.Shows p contents := by
  rw [removeIfPresent] at hshows
  rcases hremove : Access.remove p h with ⟨e | ⟨⟩, h'⟩
  · rw [hremove] at hshows
    rw [Host.Shows, ← Access.change_eq_error hc hremove]
    exact hshows
  · rw [hremove] at hshows
    have hnone := Files.contentsOf?_of_remove (Access.change_eq_ok hc hremove)
    exact absurd (hnone.symm.trans hshows) (by simp)

/-- On a steady host a file that was to be removed is not there. -/
theorem not_shows_removeIfPresent (hc : h.Calm) (hsteady : h.Steady) (hname : p.HasName) :
    ¬ (removeIfPresent p h).Shows p contents := by
  intro hshows
  have hbefore := shows_of_removeIfPresent hc hshows
  rw [removeIfPresent] at hshows
  rcases hremove : Access.remove p h with ⟨e | ⟨⟩, h'⟩
  · have herror := Access.error_of_change hc hsteady.failure_enter hremove
    exact absurd (herror.symm.trans (Files.remove_of_contentsOf? hname hbefore)) (by simp)
  · rw [hremove] at hshows
    have hnone := Files.contentsOf?_of_remove (Access.change_eq_ok hc hremove)
    exact absurd (hnone.symm.trans hshows) (by simp)

/-! ### Publishing -/

namespace Files

variable {fs a b c : Files} {t : Path}

/-- A file that is moved is taken from its place and put at that of the other path. -/
theorem at?_of_rename {time : Timestamp} {executable : Bool} (hrename : fs.rename t p = .ok a)
    (hfile : fs.at? (fs.place t) = some (.file contents time executable))
    (hne : fs.place t ≠ fs.place p) :
    Open fs p ∧ fs.Spares [fs.place p, fs.place t] a ∧
      ∀ loc, a.at? loc = if loc = fs.place p then some (.file contents time executable)
        else if loc = fs.place t then none else fs.at? loc := by
  obtain ⟨hopen, rfl⟩ := rename_eq_ok hrename hfile hne
  have htaken : fs.isDirectoryAt (fs.place t) = false := by
    rw [isDirectoryAt, hfile]
    rfl
  have hdropped (loc : Location) :
      (fs.drop (fs.place t)).at? loc = if loc = fs.place t then none else fs.at? loc :=
    at?_drop (ne_nil_of_isDirectoryAt htaken) loc
  have hfree : (fs.drop (fs.place t)).isDirectoryAt (fs.place p) = false := by
    rw [isDirectoryAt, hdropped, if_neg (Ne.symm hne)]
    exact hopen.free
  have hput (loc : Location) :
      ((fs.drop (fs.place t)).put (fs.place p) (.file contents time executable)).at? loc =
        if loc = fs.place p then some (.file contents time executable)
        else (fs.drop (fs.place t)).at? loc :=
    at?_put (ne_nil_of_isDirectoryAt hfree) _ loc
  have hmoved : (fs.drop (fs.place t)).Spares [fs.place p]
      ((fs.drop (fs.place t)).put (fs.place p) (.file contents time executable)) :=
    spares_of_at? hfree rfl fun loc hloc => (hput loc).trans (if_neg hloc)
  exact ⟨hopen, ((spares_drop htaken).mono (by simp)).trans (hmoved.mono (by simp)),
    fun loc => by rw [hput, hdropped]⟩

/-- A file that is created, filled and moved stands at its path, and nothing else changed but the
place where it was filled. -/
theorem contentsOf?_of_rename {d : Files} (hne : fs.place t ≠ fs.place p)
    (hcreate : fs.create t = .ok a) (happend : a.append t contents = .ok b)
    (hrename : b.rename t p = .ok d) :
    fs.Spares [fs.place p, fs.place t] d ∧ d.contentsOf? p = some contents ∧ p.HasName := by
  obtain ⟨hcreated, hempty⟩ := create_eq_ok hcreate
  rw [place_congr hcreated.workDir] at hempty
  obtain ⟨happended, time, executable, hfull⟩ := append_eq_ok happend hempty
  rw [place_congr happended.workDir] at hfull
  have hfilled : fs.Spares [fs.place t] b := by
    rw [← place_congr hcreated.workDir] at happended
    exact hcreated.trans happended
  rw [place_congr hfilled.workDir, place_congr hfilled.workDir] at hne ⊢
  obtain ⟨hopen, hmoved, hat⟩ := at?_of_rename hrename hfull hne
  have hthere := (hat (b.place p)).trans (if_pos rfl)
  refine ⟨?_, contentsOf?_of_locate ((hopen.leads.spares hmoved).locate ?_) ?_, hopen.named⟩
  · rw [place_congr hfilled.workDir t] at hfilled
    exact (hfilled.mono (by simp)).trans hmoved
  · rw [hthere]
    rfl
  · rw [contentsAt?, hthere]
    rfl

end Files

namespace Publish

/-- Creating the directory of a path touches no place that is taken. -/
theorem makeParent_touches (hc : h.Calm) (p : Path) : h.Touches [] (makeParent p h).2 := by
  rw [makeParent]
  cases p.parent? with
  | none => exact .refl h []
  | some dir =>
      dsimp only
      split
      · exact .refl h []
      · exact Access.createDirectories_touches hc dir

/-- One step that succeeds, and then the others. -/
theorem runAll_cons_eq_ok {step : Step} {rest : List Step}
    (hrun : runAll (step :: rest) h = (.ok (), h'')) :
    ∃ h', step.run h = (.ok (), h') ∧ runAll rest h' = (.ok (), h'') :=
  Access.andThen_eq_ok hrun

/-- The file that a step works on, if it works on one by its path. -/
def Step.touched? : Step → Option Path
  | .create t | .write t _ | .rename t _ => some t
  | .flush | .sync => none

/-- What a step does to the files. -/
def Step.apply : Step → Files → Except FileError Files
  | .create t => fun fs => fs.create t
  | .write t contents => fun fs => fs.append t contents
  | .flush => .ok
  | .sync => .ok
  | .rename t p => fun fs => fs.rename t p

/-- A step is a change of the files, if the file that it works on has no other names. -/
theorem Step.run_eq_change {step : Step}
    (hnames : ∀ group ∈ h.names, ∀ t, step.touched? = some t → h.enter.2.files.place t ∉ group) :
    step.run h = Access.change step.apply h := by
  cases step with
  | create t => exact Access.fill_eq_change (fun group hgroup => hnames group hgroup t rfl) _
  | write t contents =>
      exact Access.fill_eq_change (fun group hgroup => hnames group hgroup t rfl) _
  | flush => rfl
  | sync => rfl
  | rename t p => exact Access.rename_eq_change (fun group hgroup => hnames group hgroup t rfl) p

/-- On a calm host a step is a change of the files. -/
theorem Step.run_eq (step : Step) (hc : h.Calm) : step.run h = Access.change step.apply h :=
  run_eq_change fun group hgroup t _ => hc.not_mem_names _ t group hgroup

/-- A step that succeeds changes the files as it says. -/
theorem run_eq_ok {step : Step} (hc : h.Calm) (hrun : step.run h = (.ok (), h')) :
    step.apply h.files = .ok h'.files ∧ h.Precedes h' := by
  rw [step.run_eq hc] at hrun
  have hlater := Access.precedes_change step.apply h
  rw [hrun] at hlater
  exact ⟨Access.change_eq_ok hc hrun, hlater⟩

/-- The steps of publishing a file that succeed create its temporary file, fill it and move it. -/
theorem runAll_steps_eq_ok (hc : h.Calm) (hrun : runAll (steps p contents) h = (.ok (), h')) :
    h.Precedes h' ∧ ∃ a b, h.files.create (temporary p) = .ok a ∧
      a.append (temporary p) contents = .ok b ∧ b.rename (temporary p) p = .ok h'.files := by
  obtain ⟨h₁, hcreate, hrun⟩ := runAll_cons_eq_ok hrun
  obtain ⟨h₂, happend, hrun⟩ := runAll_cons_eq_ok hrun
  obtain ⟨h₃, hflush, hrun⟩ := runAll_cons_eq_ok hrun
  obtain ⟨h₄, hsync, hrun⟩ := runAll_cons_eq_ok hrun
  obtain ⟨h₅, hrename, hrun⟩ := runAll_cons_eq_ok hrun
  obtain ⟨-, rfl⟩ := Prod.mk.inj hrun
  obtain ⟨hcreate, hlater₁⟩ := run_eq_ok hc hcreate
  have hc₁ := hlater₁.calm hc
  obtain ⟨happend, hlater₂⟩ := run_eq_ok hc₁ happend
  have hc₂ := hlater₂.calm hc₁
  obtain ⟨hflush, hlater₃⟩ := run_eq_ok hc₂ hflush
  have hc₃ := hlater₃.calm hc₂
  obtain ⟨hsync, hlater₄⟩ := run_eq_ok hc₃ hsync
  obtain ⟨hrename, hlater₅⟩ := run_eq_ok (hlater₄.calm hc₃) hrename
  rw [← Except.ok.inj hsync, ← Except.ok.inj hflush] at hrename
  exact ⟨((hlater₁.trans hlater₂).trans (hlater₃.trans hlater₄)).trans hlater₅,
    _, _, hcreate, happend, hrename⟩

end Publish

/-- **Publishing.** A file that was published is what its path shows. Apart from it and its
temporary file nothing has changed, and its path ends in a name. -/
theorem publish_eq_ok (hc : h.Calm) (hpublish : publish p contents h = (.ok (), h')) :
    h.Touches [h.files.place p, h.files.place (Publish.temporary p)] h' ∧
      h'.Shows p contents ∧ p.HasName := by
  rw [publish] at hpublish
  split at hpublish
  · exact absurd hpublish (by simp)
  · next h₁ hparent =>
    have htouches : h.Touches [] h₁ := by
      have hmade := Publish.makeParent_touches hc p
      rw [hparent] at hmade
      exact hmade
    split at hpublish
    · next h₂ hrun =>
      obtain ⟨-, rfl⟩ := Prod.mk.inj hpublish
      obtain ⟨hlater, a, b, hcreate, happend, hrename⟩ :=
        Publish.runAll_steps_eq_ok (htouches.later.calm hc) hrun
      obtain ⟨hspares, hcontents, hname⟩ := Files.contentsOf?_of_rename
        (Files.place_temporary_ne h₁.files p) hcreate happend hrename
      rw [htouches.place_eq, htouches.place_eq] at hspares
      exact ⟨⟨htouches.later.trans hlater, (htouches.files.mono (by simp)).trans hspares⟩,
        hcontents, hname⟩
    · exact absurd hpublish (by simp)

end IncrementalBuild
